-- The entities of a map by the addresses of their units: each unit inside another one has its entity
-- in the map, at the turn of its address.
import UnitAtlas.Proofs.Entity.Preorder
import UnitAtlas.Proofs.Unit.Definitions

namespace UnitAtlas.EntityTree

open CodeUnit

/-- The entity of the unit at an address, in a map of the units of `root`. -/
def entityAt? (root : CodeUnit) (entities : List Entity) (a : List Nat) : Option Entity :=
  entities[root.addresses.idxOf a]?

theorem exists_entityAt? {c : Classifier} {root p v : CodeUnit} {entities : List Entity}
    {b : List Nat} {j : Nat} (h : build c root = .ok entities) (hp : root.at? b = some p)
    (hv : p.nested[j]? = some v) :
    ∃ e, entityAt? root entities (b ++ [j]) = some e ∧ e.TellsOf v ∧ e.StandsIn c p v := by
  obtain ⟨first, rest, rfl, -, -, -, -, hrest⟩ := build_eq_ok h
  have hat : root.at? (b ++ [j]) = some v := (at?_concat hp j).trans hv
  have hne : b ++ [j] ≠ [] := by simp
  have hmem : b ++ [j] ∈ root.inside := by
    rcases List.mem_cons.mp (mem_addresses.mpr (Option.isSome_of_eq_some hat)) with hnil | hmem
    · exact absurd hnil hne
    · exact hmem
  have hturn := List.getElem?_idxOf hmem
  obtain ⟨e, he⟩ : ∃ e, rest[root.inside.idxOf (b ++ [j])]? = some e := by
    have hlt := List.idxOf_lt_length_of_mem hmem
    exact ⟨_, List.getElem?_eq_getElem ((below_lists hrest).length_eq ▸ hlt)⟩
  obtain ⟨-, -, q, w, hq, hw, htells, hstands⟩ := lists_of_getElem? hrest hturn he
  rw [List.dropLast_concat, hp] at hq
  rw [hat] at hw
  cases hq
  cases hw
  refine ⟨e, ?_, htells, hstands⟩
  rw [entityAt?, addresses, List.idxOf_cons_ne _ hne.symm]
  exact he

end UnitAtlas.EntityTree
