-- What a unit needs for its part of the map: a line table that can be read, and a name for each
-- parameter that its counts and flags ask for. A tree of such units has a map, whatever the
-- classifier takes its units for.
import UnitAtlas.Entity.Tree
import UnitAtlas.Proofs.Fault
import UnitAtlas.Proofs.Unit.LineTable
import UnitAtlas.Proofs.Unit.Nesting

namespace UnitAtlas

open LineTable

structure CodeUnit.Readable (u : CodeUnit) : Prop where
  even : u.info.lineTable.length % 2 = 0
  lines : u.info.firstLine.toNat + climb (pairUp u.info.lineTable) < lineBound
  parameters : Parameters.needed u.info ≤ u.info.varNames.length

namespace CodeUnit.Readable

variable {u : CodeUnit}

theorem pairs_eq (h : u.Readable) : pairs u = .ok (pairUp u.info.lineTable) := by
  rw [pairs, if_pos h.even]

theorem scan_ok (h : u.Readable) : ∃ breaks, scan u = .ok breaks :=
  ⟨_, by rw [scan_eq u _ h.pairs_eq, if_pos h.lines]⟩

theorem resolveSpan_ok (h : u.Readable) : ∃ span, resolveSpan u = .ok span :=
  ⟨_, by rw [resolveSpan_eq u _ h.pairs_eq, if_pos h.lines]⟩

/-- Whichever kind the unit is taken for. -/
theorem display_ok (h : u.Readable) (kind : UnitKind) :
    ∃ args, Parameters.display kind u = .ok args := by
  unfold Parameters.display
  split
  · exact ⟨_, if_pos h.parameters⟩
  · exact ⟨_, rfl⟩

theorem ofUnit_ok (h : u.Readable) (kind : UnitKind) (path : AncestryPath) (window : ByteRange) :
    ∃ e, Entity.ofUnit u kind path window = .ok e := by
  obtain ⟨span, hspan⟩ := h.resolveSpan_ok
  obtain ⟨args, hargs⟩ := h.display_ok kind
  refine ⟨⟨kind, u.info.name, span, window, path, args, .ofUnit u⟩, ?_⟩
  simp only [Entity.ofUnit, Fault.bind_eq_ok, Fault.ofError_eq_ok]
  exact ⟨span, hspan, args, hargs, rfl⟩

theorem extract_ok {parent : CodeUnit} (h : u.Readable) (hparent : parent.Readable) (glue : Nat) :
    ∃ range, Window.extract glue parent u = .ok range := by
  obtain ⟨span, hspan⟩ := h.resolveSpan_ok
  obtain ⟨breaks, hbreaks⟩ := hparent.scan_ok
  refine ⟨Window.locate glue parent.info.code.length breaks span, ?_⟩
  rw [Window.extract, hspan, hbreaks]
  rfl

end CodeUnit.Readable

namespace EntityTree

open CodeUnit

variable {c : Classifier}

/-- A stretch of a table gives its entities when each unit in it is readable and has a map below. -/
theorem belowAll_ok {parent : CodeUnit} (hparent : parent.Readable) (path : AncestryPath)
    (cs : List (Constant CodeUnit)) (hcs : ∀ v ∈ unitsOf cs, v.Readable)
    (hbelow : ∀ v ∈ unitsOf cs, ∀ path, ∃ es, below c path v = .ok es) :
    ∃ es, belowAll c path parent cs = .ok es := by
  induction cs with
  | nil => exact ⟨[], by rw [belowAll]; rfl⟩
  | cons k cs ih =>
    have htail : ∀ v ∈ unitsOf cs, v ∈ unitsOf (k :: cs) := by
      intro v hv
      rw [mem_unitsOf] at hv ⊢
      exact List.mem_cons_of_mem k hv
    obtain ⟨later, hlater⟩ := ih (fun v hv => hcs v (htail v hv))
      (fun v hv => hbelow v (htail v hv))
    obtain ⟨here, hhere⟩ : ∃ here, belowOne c path parent k = .ok here := by
      cases k with
      | literal l => exact ⟨[], by rw [belowOne]; rfl⟩
      | unit u =>
        have hu : u ∈ unitsOf (.unit u :: cs) := List.mem_cons_self
        obtain ⟨range, hrange⟩ := (hcs u hu).extract_ok hparent c.glue
        let kind := kindOf c parent range
        let childPath := path.child kind u.info.name
        obtain ⟨e, he⟩ := (hcs u hu).ofUnit_ok kind childPath range
        obtain ⟨inner, hinner⟩ := hbelow u hu childPath
        refine ⟨e :: inner, ?_⟩
        simp only [belowOne, Fault.bind_eq_ok, Fault.ofError_eq_ok]
        exact ⟨range, hrange, e, he, inner, hinner, rfl⟩
    refine ⟨here ++ later, ?_⟩
    rw [belowAll, Fault.bind_eq_ok]
    exact ⟨here, hhere, Fault.bind_eq_ok.mpr ⟨later, hlater, rfl⟩⟩

theorem below_ok {u : CodeUnit} (h : u.Throughout Readable) (path : AncestryPath) :
    ∃ es, below c path u = .ok es := by
  induction u using CodeUnit.induction generalizing path with
  | unit u ih =>
    obtain ⟨hu, hnested⟩ := throughout_iff.mp h
    obtain ⟨info, consts⟩ := u
    rw [below]
    refine belowAll_ok hu path consts ?_ ?_
    · intro v hv
      exact (throughout_iff.mp (hnested v hv)).1
    · intro v hv path
      exact ih v hv (hnested v hv) path

/-- A tree of readable units has a map. -/
theorem build_ok {root : CodeUnit} (h : root.Throughout Readable) :
    ∃ entities, build c root = .ok entities := by
  have hroot := (throughout_iff.mp h).1
  obtain ⟨first, hfirst⟩ := hroot.ofUnit_ok .module [⟨.module, root.info.name⟩]
    ⟨0, root.info.code.length⟩
  obtain ⟨rest, hrest⟩ := below_ok (c := c) h [⟨.module, root.info.name⟩]
  refine ⟨first :: rest, ?_⟩
  simp only [build, Fault.bind_eq_ok]
  exact ⟨first, hfirst, rest, hrest, rfl⟩

end EntityTree

end UnitAtlas
