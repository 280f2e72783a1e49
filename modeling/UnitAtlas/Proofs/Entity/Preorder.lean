-- The entities of a tree are its units in order, every unit before its own nested units and
-- those in the order of the constant table. Each entity tells what its unit says of itself; its
-- kind and its window come from the unit around it, and its path goes on from there.
import Mathlib.Data.List.Forall2
import UnitAtlas.Entity.Tree
import UnitAtlas.Proofs.Fault
import UnitAtlas.Proofs.Unit.Nesting

namespace UnitAtlas

open CodeUnit

/-! ## What one entity says -/

/-- An entity repeats what a unit says of itself. -/
structure Entity.TellsOf (e : Entity) (u : CodeUnit) : Prop where
  name : e.name = u.info.name
  lines : LineTable.resolveSpan u = .ok e.lines
  args : Parameters.display e.kind u = .ok e.args
  identity : e.identity = IdentityToken.ofUnit u

/-- The kind and the window of an entity are those of `u` directly inside `parent`. -/
structure Entity.StandsIn (e : Entity) (c : Classifier) (parent u : CodeUnit) : Prop where
  kind : (e.kind = .classBody ∧ c.isClass parent u = .ok true) ∨
    (e.kind = .function ∧ c.isClass parent u = .ok false)
  window : Window.extract c.glue parent u = .ok e.window
  start_le_stop : e.window.start ≤ e.window.stop
  stop_le_length : e.window.stop ≤ parent.info.code.length

theorem Entity.ofUnit_eq_ok {u : CodeUnit} {kind : UnitKind} {path : AncestryPath}
    {window : ByteRange} {e : Entity} (h : Entity.ofUnit u kind path window = .ok e) :
    e.TellsOf u ∧ e.kind = kind ∧ e.path = path ∧ e.window = window := by
  obtain ⟨lines, hlines, h⟩ := Fault.bind_eq_ok.mp h
  obtain ⟨args, hargs, h⟩ := Fault.bind_eq_ok.mp h
  cases h
  exact ⟨⟨rfl, Fault.ofError_eq_ok.mp hlines, hargs, rfl⟩, rfl, rfl, rfl⟩

/-- A window stays within the code that it is a window of. -/
theorem Window.locate_within (glue len : Nat) (breaks : List Breakpoint) (child : LineSpan) :
    (locate glue len breaks child).start ≤ (locate glue len breaks child).stop ∧
      (locate glue len breaks child).stop ≤ len := by
  simp only [locate]
  omega

theorem Window.extract_within {glue : Nat} {parent u : CodeUnit} {range : ByteRange}
    (h : Window.extract glue parent u = .ok range) :
    range.start ≤ range.stop ∧ range.stop ≤ parent.info.code.length := by
  obtain ⟨span, -, h⟩ := Fault.bind_eq_ok.mp h
  obtain ⟨breaks, -, h⟩ := Fault.bind_eq_ok.mp h
  cases h
  exact Window.locate_within _ _ _ _

namespace EntityTree

theorem isClass_of_extract {c : Classifier} {parent u : CodeUnit} {range : ByteRange}
    (h : Window.extract c.glue parent u = .ok range) :
    c.isClass parent u = .ok (c.glueMatches parent.info.code range) := by
  rw [Classifier.isClass, h]
  rfl

/-- A nested unit gives its own entity, and then what is below it. -/
theorem belowOne_unit {c : Classifier} {path : AncestryPath} {parent u : CodeUnit}
    {es : List Entity} (h : belowOne c path parent (.unit u) = .ok es) :
    ∃ e inner, es = e :: inner ∧ e.TellsOf u ∧ e.StandsIn c parent u ∧
      e.path = path.child e.kind e.name ∧ below c e.path u = .ok inner := by
  rw [belowOne] at h
  obtain ⟨range, hrange, h⟩ := Fault.bind_eq_ok.mp h
  obtain ⟨e, he, h⟩ := Fault.bind_eq_ok.mp h
  obtain ⟨inner, hinner, h⟩ := Fault.bind_eq_ok.mp h
  cases h
  rw [Fault.ofError_eq_ok] at hrange
  obtain ⟨htells, hkind, hpath, hwindow⟩ := Entity.ofUnit_eq_ok he
  rw [← hpath] at hinner
  obtain ⟨hstart, hstop⟩ := Window.extract_within hrange
  subst hwindow
  refine ⟨e, inner, rfl, htells, ⟨?_, hrange, hstart, hstop⟩, ?_, hinner⟩
  · rw [isClass_of_extract hrange, hkind, kindOf]
    cases c.glueMatches parent.info.code e.window <;> simp
  · rw [hpath, hkind, htells.name]

/-! ## The path to an address -/

/-- The kind that a unit directly inside another is seen as. -/
def kindIn (c : Classifier) (parent u : CodeUnit) : UnitKind :=
  match c.isClass parent u with
  | .ok true => .classBody
  | _ => .function

theorem kind_of_standsIn {e : Entity} {c : Classifier} {parent u : CodeUnit}
    (h : e.StandsIn c parent u) : e.kind = kindIn c parent u := by
  unfold kindIn
  rcases h.kind with ⟨hkind, hclass⟩ | ⟨hkind, hclass⟩
  · rw [hclass, hkind]
  · rw [hclass, hkind]

/-- The steps of the path from a unit down to an address below it. -/
def trail (c : Classifier) (u : CodeUnit) : List Nat → AncestryPath
  | [] => []
  | i :: rest =>
    match u.nested[i]? with
    | some v => ⟨kindIn c u v, v.info.name⟩ :: trail c v rest
    | none => []

theorem trail_cons {c : Classifier} {u v : CodeUnit} {i : Nat} (h : u.nested[i]? = some v)
    (rest : List Nat) : trail c u (i :: rest) = ⟨kindIn c u v, v.info.name⟩ :: trail c v rest := by
  rw [trail, h]

/-- The trail to a unit goes on from that to the unit around it. -/
theorem trail_eq_append {c : Classifier} {u p v : CodeUnit} {a : List Nat} (ha : a ≠ [])
    (hp : u.at? a.dropLast = some p) (hv : u.at? a = some v) :
    trail c u a = trail c u a.dropLast ++ [⟨kindIn c p v, v.info.name⟩] := by
  induction a generalizing u with
  | nil => exact absurd rfl ha
  | cons i rest ih =>
    obtain ⟨w, hw, hv⟩ := Option.bind_eq_some_iff.mp hv
    cases rest with
    | nil =>
      cases hv
      cases hp
      rw [trail_cons hw]
      rfl
    | cons j rest =>
      rw [List.dropLast_cons_of_ne_nil (List.cons_ne_nil j rest)] at hp ⊢
      rw [at?_of_nested hw] at hp
      rw [trail_cons hw, trail_cons hw, ih (List.cons_ne_nil j rest) hp hv]
      rfl

/-! ## All entities below a unit -/

/-- An entity is that of the unit at an address below `u`, whose own path is `path`. -/
structure Lists (c : Classifier) (path : AncestryPath) (u : CodeUnit) (a : List Nat) (e : Entity) :
    Prop where
  ne_nil : a ≠ []
  path : e.path = path ++ trail c u a
  units : ∃ p v, u.at? a.dropLast = some p ∧ u.at? a = some v ∧ e.TellsOf v ∧ e.StandsIn c p v

/-- What is listed below a nested unit is listed below the unit around it. -/
theorem Lists.outward {c : Classifier} {path : AncestryPath} {u v : CodeUnit} {i : Nat}
    {a : List Nat} {e : Entity} (hv : u.nested[i]? = some v)
    (h : Lists c (path.child (kindIn c u v) v.info.name) v a e) : Lists c path u (i :: a) e := by
  obtain ⟨hne, hpath, p, w, hp, hw, htells, hstands⟩ := h
  refine ⟨List.cons_ne_nil i a, ?_, p, w, ?_, ?_, htells, hstands⟩
  · rw [hpath, trail_cons hv, AncestryPath.child, List.append_assoc]
    rfl
  · rw [List.dropLast_cons_of_ne_nil hne, at?_of_nested hv, hp]
  · rw [at?_of_nested hv, hw]

theorem belowAll_lists {c : Classifier} {path : AncestryPath} {u : CodeUnit}
    (ih : ∀ v ∈ u.nested, ∀ path es, below c path v = .ok es →
      List.Forall₂ (Lists c path v) v.inside es)
    {next : Nat} {cs : List (Constant CodeUnit)} {es : List Entity}
    (hcs : u.nested.drop next = unitsOf cs) (h : belowAll c path u cs = .ok es) :
    List.Forall₂ (Lists c path u) (insideFrom next cs) es := by
  induction cs generalizing next es with
  | nil =>
    cases h
    exact List.Forall₂.nil
  | cons k cs ihcs =>
    rw [belowAll] at h
    obtain ⟨here, hhere, h⟩ := Fault.bind_eq_ok.mp h
    obtain ⟨later, hlater, h⟩ := Fault.bind_eq_ok.mp h
    cases h
    cases k with
    | literal l =>
      cases hhere
      rw [insideFrom_literal]
      exact ihcs hcs hlater
    | unit v =>
      obtain ⟨hv, hrest⟩ := getElem?_of_drop hcs
      obtain ⟨e, inner, rfl, htells, hstands, hpath, hinner⟩ := belowOne_unit hhere
      rw [kind_of_standsIn hstands, htells.name] at hpath
      rw [insideFrom_unit]
      refine List.rel_append ?_ (ihcs hrest hlater)
      rw [addresses, List.map_cons]
      refine List.Forall₂.cons ?_ ?_
      · refine ⟨List.cons_ne_nil next [], ?_, u, v, rfl, ?_, htells, hstands⟩
        · rw [hpath, trail_cons hv]
          rfl
        · rw [at?_of_nested hv]
          rfl
      · rw [List.forall₂_map_left_iff]
        rw [hpath] at hinner
        refine (ih v (List.mem_of_getElem? hv) _ _ hinner).imp ?_
        intro a e hae
        exact hae.outward hv

theorem below_lists {c : Classifier} {path : AncestryPath} {u : CodeUnit} {es : List Entity}
    (h : below c path u = .ok es) : List.Forall₂ (Lists c path u) u.inside es := by
  induction u using CodeUnit.induction generalizing path es with
  | unit u ih =>
    rw [inside_eq]
    cases u with
    | mk info consts =>
      rw [below] at h
      exact belowAll_lists (fun v hv path es => ih v hv) rfl h

/-! ## The entity at an address -/

theorem dropLast_lt {a : List Nat} (h : a ≠ []) : a.dropLast < a := by
  induction a with
  | nil => exact absurd rfl h
  | cons i rest ih =>
    cases rest with
    | nil => exact List.nil_lt_cons i []
    | cons j rest =>
      rw [List.dropLast_cons_of_ne_nil (List.cons_ne_nil j rest)]
      exact List.cons_lt_cons_iff.mpr (Or.inr ⟨rfl, ih (List.cons_ne_nil j rest)⟩)

/-- In an ascending list, what is smaller than an entry stands before it. -/
theorem exists_before {as : List (List Nat)} (hsorted : as.Pairwise (· < ·)) {i : Nat}
    {a b : List Nat} (ha : as[i]? = some a) (hb : b ∈ as) (hlt : b < a) :
    ∃ j < i, as[j]? = some b := by
  obtain ⟨j, hj⟩ := List.getElem?_of_mem hb
  refine ⟨j, ?_, hj⟩
  rcases Nat.lt_trichotomy j i with h | rfl | h
  · exact h
  · rw [ha] at hj
    cases hj
    exact absurd hlt (lt_irrefl a)
  · obtain ⟨hi, rfl⟩ := List.getElem?_eq_some_iff.mp ha
    obtain ⟨hjlt, rfl⟩ := List.getElem?_eq_some_iff.mp hj
    exact absurd hlt (lt_asymm (List.pairwise_iff_getElem.mp hsorted i j hi hjlt h))

theorem build_eq_ok {c : Classifier} {root : CodeUnit} {entities : List Entity}
    (h : build c root = .ok entities) :
    ∃ first rest, entities = first :: rest ∧ first.TellsOf root ∧ first.kind = .module ∧
      first.path = [⟨.module, root.info.name⟩] ∧ first.window = ⟨0, root.info.code.length⟩ ∧
      below c first.path root = .ok rest := by
  obtain ⟨first, hfirst, h⟩ := Fault.bind_eq_ok.mp h
  obtain ⟨rest, hrest, h⟩ := Fault.bind_eq_ok.mp h
  cases h
  obtain ⟨htells, hkind, hpath, hwindow⟩ := Entity.ofUnit_eq_ok hfirst
  rw [← hpath] at hrest
  exact ⟨first, rest, rfl, htells, hkind, hpath, hwindow, hrest⟩

theorem length_addresses {c : Classifier} {root : CodeUnit} {entities : List Entity}
    (h : build c root = .ok entities) : root.addresses.length = entities.length := by
  obtain ⟨first, rest, rfl, -, -, -, -, hrest⟩ := build_eq_ok h
  rw [addresses, List.length_cons, List.length_cons, (below_lists hrest).length_eq]

/-- The entity at the turn of an address below the root is that of the unit there. -/
theorem lists_of_getElem? {c : Classifier} {root : CodeUnit} {first : Entity} {rest : List Entity}
    (h : below c first.path root = .ok rest) {i : Nat} {a : List Nat} {e : Entity}
    (ha : root.inside[i]? = some a) (he : rest[i]? = some e) : Lists c first.path root a e := by
  obtain ⟨-, hlists⟩ := List.forall₂_iff_get.mp (below_lists h)
  obtain ⟨hi, rfl⟩ := List.getElem?_eq_some_iff.mp ha
  obtain ⟨hj, rfl⟩ := List.getElem?_eq_some_iff.mp he
  exact hlists i hi hj

theorem path_of_getElem? {c : Classifier} {root : CodeUnit} {first : Entity} {rest : List Entity}
    (h : below c first.path root = .ok rest) {i : Nat} {a : List Nat} {e : Entity}
    (ha : root.addresses[i]? = some a) (he : (first :: rest)[i]? = some e) :
    e.path = first.path ++ trail c root a := by
  cases i with
  | zero =>
    cases ha
    cases he
    exact (List.append_nil _).symm
  | succ i => exact (lists_of_getElem? h ha he).path

/-- The entity one step further up comes earlier, and the path goes on from its path. -/
theorem exists_parent {c : Classifier} {root : CodeUnit} {entities : List Entity}
    (h : build c root = .ok entities) {i : Nat} {a : List Nat} {e : Entity}
    (ha : root.addresses[i]? = some a) (he : entities[i]? = some e) (hne : a ≠ []) :
    ∃ j < i, ∃ parent, root.addresses[j]? = some a.dropLast ∧ entities[j]? = some parent ∧
      e.path = parent.path.child e.kind e.name := by
  obtain ⟨first, rest, rfl, -, -, -, -, hrest⟩ := build_eq_ok h
  cases i with
  | zero =>
    cases ha
    exact absurd rfl hne
  | succ i =>
    obtain ⟨-, hpath, p, v, hp, hv, htells, hstands⟩ := lists_of_getElem? hrest ha he
    have hmem : a.dropLast ∈ root.addresses := mem_addresses.mpr (Option.isSome_of_eq_some hp)
    obtain ⟨j, hj, haj⟩ := exists_before (pairwise_addresses root) ha hmem (dropLast_lt hne)
    have hlt : j < (first :: rest).length :=
      Nat.lt_trans hj (List.getElem?_eq_some_iff.mp he).1
    have hparent := List.getElem?_eq_getElem hlt
    refine ⟨j, hj, _, haj, hparent, ?_⟩
    rw [hpath, trail_eq_append hne hp hv, path_of_getElem? hrest haj hparent,
      kind_of_standsIn hstands, htells.name, AncestryPath.child, List.append_assoc]

/-! ## The law -/

/-- A map lists each unit once, in the order of the addresses. -/
theorem the_map_is_the_units_in_order (c : Classifier) (root : CodeUnit) (entities : List Entity)
    (h : build c root = .ok entities) :
    ∃ addresses : List (List Nat),
      addresses.Pairwise (· < ·) ∧ (∀ a, a ∈ addresses ↔ (root.at? a).isSome) ∧
      addresses.length = entities.length ∧
      ∀ (i : Nat) (a : List Nat) (e : Entity), addresses[i]? = some a → entities[i]? = some e →
        ∃ u, root.at? a = some u ∧ e.TellsOf u ∧
          (a = [] → e.kind = .module ∧ e.path = [⟨.module, u.info.name⟩] ∧
            e.window = ⟨0, u.info.code.length⟩) ∧
          (a ≠ [] → ∃ (j : Nat) (p : CodeUnit) (parent : Entity),
            j < i ∧ addresses[j]? = some a.dropLast ∧
            root.at? a.dropLast = some p ∧ entities[j]? = some parent ∧
            e.path = parent.path.child e.kind e.name ∧ e.StandsIn c p u) := by
  refine ⟨root.addresses, pairwise_addresses root, fun a => mem_addresses, length_addresses h, ?_⟩
  intro i a e ha he
  obtain ⟨first, rest, rfl, htells, hkind, hpath, hwindow, hrest⟩ := build_eq_ok h
  cases i with
  | zero =>
    cases ha
    cases he
    exact ⟨root, rfl, htells, fun _ => ⟨hkind, hpath, hwindow⟩, fun hne => absurd rfl hne⟩
  | succ i =>
    obtain ⟨hne, -, p, v, hp, hv, htells', hstands⟩ := lists_of_getElem? hrest ha he
    refine ⟨v, hv, htells', fun hnil => absurd hnil hne, fun _ => ?_⟩
    obtain ⟨j, hj, parent, haj, hparent, hpath'⟩ := exists_parent h ha he hne
    exact ⟨j, p, parent, hj, haj, hp, hparent, hpath', hstands⟩

/-! ### A module with a class and a function in it -/

/-- A unit without parameters. -/
def bareUnit (name : String) (firstLine : UInt32) (code lineTable : Bytes)
    (consts : List (Constant CodeUnit)) : CodeUnit :=
  ⟨⟨name, "m.py", firstLine, code, lineTable, [], [], 0, 0, .empty⟩, consts⟩

def bareMethod : CodeUnit := bareUnit "m" 3 [100, 0, 0, 83] [] [.literal .none]

def bareClass : CodeUnit :=
  bareUnit "C" 2 [100, 0, 0, 132, 0, 0, 90, 0, 0, 82, 83] [0, 1] [.unit bareMethod]

def bareLambda : CodeUnit := bareUnit "<lambda>" 5 [100, 0, 0, 83] [] [.literal .none]

def bareFunction : CodeUnit :=
  bareUnit "f" 4 [100, 1, 0, 132, 0, 0, 83] [0, 1] [.literal .none, .unit bareLambda]

def bareModule : CodeUnit :=
  bareUnit "<module>" 1
    [100, 0, 0, 102, 0, 0, 100, 1, 0, 132, 0, 0, 131, 0, 0, 89, 90, 0, 0,
      100, 2, 0, 132, 0, 0, 90, 1, 0, 100, 3, 0, 83]
    [0, 1, 19, 2, 9, 2]
    [.literal (.str "C"), .unit bareClass, .unit bareFunction, .literal .none]

def bareMap : List Entity := [
  ⟨.module, "<module>", ⟨1, 6⟩, ⟨0, 32⟩, [⟨.module, "<module>"⟩], "", .ofUnit bareModule⟩,
  ⟨.classBody, "C", ⟨2, 3⟩, ⟨0, 16⟩, [⟨.module, "<module>"⟩, ⟨.classBody, "C"⟩], "",
    .ofUnit bareClass⟩,
  ⟨.function, "m", ⟨3, 3⟩, ⟨0, 0⟩,
    [⟨.module, "<module>"⟩, ⟨.classBody, "C"⟩, ⟨.function, "m"⟩], "()", .ofUnit bareMethod⟩,
  ⟨.function, "f", ⟨4, 5⟩, ⟨19, 25⟩, [⟨.module, "<module>"⟩, ⟨.function, "f"⟩], "()",
    .ofUnit bareFunction⟩,
  ⟨.function, "<lambda>", ⟨5, 5⟩, ⟨0, 0⟩,
    [⟨.module, "<module>"⟩, ⟨.function, "f"⟩, ⟨.function, "<lambda>"⟩], "()", .ofUnit bareLambda⟩]

set_option maxRecDepth 10000 in
theorem a_class_and_a_function_are_mapped :
    build ⟨3, [89]⟩ bareModule = .ok bareMap ∧ ∃ addresses : List (List Nat),
      addresses.Pairwise (· < ·) ∧ addresses.length = 5 ∧
      ∀ (i : Nat) (a : List Nat) (e : Entity), addresses[i]? = some a → bareMap[i]? = some e →
        ∃ u, bareModule.at? a = some u ∧ e.TellsOf u := by
  have hmap : build ⟨3, [89]⟩ bareModule = .ok bareMap := rfl
  obtain ⟨addresses, hsorted, -, hlength, hentries⟩ :=
    the_map_is_the_units_in_order ⟨3, [89]⟩ bareModule bareMap hmap
  refine ⟨hmap, addresses, hsorted, hlength, ?_⟩
  intro i a e ha he
  obtain ⟨u, hu, htells, -⟩ := hentries i a e ha he
  exact ⟨u, hu, htells⟩

end EntityTree

end UnitAtlas
