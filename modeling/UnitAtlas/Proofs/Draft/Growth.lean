-- Tables only grow at their ends while code is written, the loops around a draft are the same
-- behind it, and code with a jump out of reach stays spoilt. What every unit of a draft comes
-- with when it is finished follows, and so does what holds of all units nested in one.
import UnitAtlas.Proofs.Draft.Steps

namespace UnitAtlas

/-! ## Targets of jumps -/

namespace Assembler

theorem overflowed_patchTo {slot : JumpSlot} {target : Nat} {a : Assembler}
    (h : (a.patchTo slot target).overflowed = false) :
    a.overflowed = false ∧ jumpOperand slot.op slot.offset target < 0x10000 := by
  unfold patchTo at h
  dsimp only at h
  split at h
  · rename_i hnear
    exact ⟨h, hnear⟩
  · cases h

theorem firstLine_patchTo (slot : JumpSlot) (target : Nat) (a : Assembler) :
    (a.patchTo slot target).firstLine = a.firstLine := by
  unfold patchTo
  dsimp only
  split <;> rfl

/-- Lets all jumps of a block go to what is written next. -/
def patchAll (slots : List JumpSlot) (a : Assembler) : Assembler :=
  slots.foldl (fun a slot => a.patch slot) a

theorem firstLine_patchAll (slots : List JumpSlot) (a : Assembler) :
    (a.patchAll slots).firstLine = a.firstLine := by
  induction slots generalizing a with
  | nil => rfl
  | cons slot slots ih => exact (ih (a.patch slot)).trans (firstLine_patchTo slot _ a)

theorem overflowed_patchAll {slots : List JumpSlot} {a : Assembler}
    (h : (a.patchAll slots).overflowed = false) : a.overflowed = false := by
  induction slots generalizing a with
  | nil => exact h
  | cons slot slots ih => exact (overflowed_patchTo (ih h)).1

end Assembler

namespace Builder

theorem closeBlock_cons {b : Builder} {slots : List JumpSlot} {outer : List (List JumpSlot)}
    (h : b.blocks = slots :: outer) :
    b.closeBlock = { b with assembler := b.assembler.patchAll slots, blocks := outer } := by
  simp [closeBlock, h, Assembler.patchAll]

theorem closeBlock_nil {b : Builder} (h : b.blocks = []) : b.closeBlock = b := by
  simp [closeBlock, h]

/-! ## Growth -/

/-- What a draft leaves as it was, and what it only adds to. -/
structure Grows (b b' : Builder) : Prop where
  firstLine : b'.assembler.firstLine = b.assembler.firstLine
  overflowed : b'.assembler.overflowed = false → b.assembler.overflowed = false
  consts : b.consts <+: b'.consts
  names : b.names <+: b'.names
  varNames : b.varNames <+: b'.varNames
  loops : b'.loops = b.loops

theorem Grows.refl (b : Builder) : b.Grows b :=
  ⟨rfl, id, List.prefix_refl _, List.prefix_refl _, List.prefix_refl _, rfl⟩

theorem Grows.trans {b b' b'' : Builder} (h : b.Grows b') (h' : b'.Grows b'') : b.Grows b'' where
  firstLine := h'.firstLine.trans h.firstLine
  overflowed hover := h.overflowed (h'.overflowed hover)
  consts := h.consts.trans h'.consts
  names := h.names.trans h'.names
  varNames := h.varNames.trans h'.varNames
  loops := h'.loops.trans h.loops

theorem Adds.grows {b b' : Builder} {op : UInt8} {operand : Option UInt32}
    (h : b.Adds op operand b') : b.Grows b' where
  firstLine := by rw [h.assembler]; rfl
  overflowed := by rw [h.assembler]; exact id
  consts := h.consts
  names := h.names
  varNames := h.varNames
  loops := h.loops

/-- Changes to the code alone. -/
theorem grows_of_code {b : Builder} {a : Assembler} (blocks : List (List JumpSlot))
    (hfirst : a.firstLine = b.assembler.firstLine)
    (hover : a.overflowed = false → b.assembler.overflowed = false) :
    b.Grows { b with assembler := a, blocks := blocks } :=
  ⟨hfirst, hover, List.prefix_refl _, List.prefix_refl _, List.prefix_refl _, rfl⟩

theorem Step.grows {b b' : Builder} (h : b.Step b') : b.Grows b' := by
  cases h with
  | stay => exact Grows.refl b
  | setLine n => exact grows_of_code b.blocks rfl id
  | declareGlobal name =>
    exact ⟨rfl, id, List.prefix_refl _, List.prefix_refl _, List.prefix_refl _, rfl⟩
  | add h _ => exact h.grows
  | jumpOut op depth => exact grows_of_code _ rfl id
  | jumpBack hloops =>
    refine grows_of_code b.blocks (Assembler.firstLine_patchTo _ _ _) ?_
    intro hover
    exact (Assembler.overflowed_patchTo hover).1
  | continueInner hloops => exact grows_of_code b.blocks rfl id

theorem grows_closeBlock (b : Builder) : b.Grows b.closeBlock := by
  rcases h : b.blocks with _ | ⟨slots, outer⟩
  · rw [closeBlock_nil h]
    exact Grows.refl b
  · rw [closeBlock_cons h]
    exact grows_of_code outer (Assembler.firstLine_patchAll slots _) Assembler.overflowed_patchAll

/-- Behind a loop, the loops around it are the innermost again. -/
theorem Grows.closeLoop {b b' : Builder} (h : b.openLoop.Grows b') : b.Grows b'.closeLoop where
  firstLine := h.firstLine
  overflowed := h.overflowed
  consts := h.consts
  names := h.names
  varNames := h.varNames
  loops := by
    show b'.loops.tail = b.loops
    rw [h.loops]
    rfl

end Builder

namespace Draft

open Builder

theorem grows_of_build {filename : String} {d : Draft} {b b' : Builder}
    (h : d.build filename b = .ok b') : b.Grows b' := by
  refine build_induction (M := fun _ b b' => b.Grows b') ?_ ?_ ?_ ?_ ?_ d b b' h
  · intro d b b' _ hstep
    exact hstep.grows
  · intro first second b middle b' hfirst hsecond _
    exact hfirst.trans hsecond
  · intro body b inner hbody
    have hopen : b.Grows b.openBlock := grows_of_code _ rfl id
    exact (hopen.trans hbody).trans (grows_closeBlock inner)
  · intro body b inner hbody _
    exact hbody.closeLoop
  · intro shape body b inner u operand b' _ _ _ hadds _
    exact hadds.grows

/-! ## Finished units -/

/-- A finished unit has the tables and the code of the builder, and what its shape says. -/
theorem finish_eq_ok {filename : String} {shape : UnitShape} {b : Builder} {u : CodeUnit}
    (h : b.finish filename shape = .ok u) :
    b.assembler.overflowed = false ∧ u = ⟨{
      name := shape.name
      filename := filename
      firstLine := shape.firstLine
      code := b.assembler.code
      lineTable := b.assembler.lineTable
      names := b.names
      varNames := b.varNames
      argCount := shape.parameters.positional.length
      kwOnlyCount := shape.parameters.kwOnly.length
      flags := shape.parameters.flags }, b.consts⟩ := by
  obtain ⟨⟨code, table⟩, hfinish, h⟩ := Fault.bind_eq_ok.mp h
  cases h
  unfold Assembler.finish at hfinish
  split at hfinish
  · cases hfinish
  · rename_i hover
    cases hfinish
    exact ⟨by simpa using hover, rfl⟩

theorem toUnit_eq_ok {filename : String} {shape : UnitShape} {body : Draft} {u : CodeUnit} :
    body.toUnit filename shape = .ok u ↔
      ∃ b, body.build filename (Builder.start shape) = .ok b ∧ b.finish filename shape = .ok u := by
  unfold toUnit
  rw [Fault.bind_eq_ok]
  simp only [Fault.ofError_eq_ok]

/-- A unit is finished before it is loaded. -/
theorem exists_of_build_unit {filename : String} {shape : UnitShape} {body : Draft}
    {b b' : Builder} (h : (unit shape body).build filename b = .ok b') :
    ∃ u, body.toUnit filename shape = .ok u ∧ b.loadUnit (ε := DraftError) u = .ok b' := by
  obtain ⟨inner, hinner, h⟩ := Fault.bind_eq_ok.mp h
  obtain ⟨u, hu, h⟩ := Fault.bind_eq_ok.mp h
  exact ⟨u, toUnit_eq_ok.mpr ⟨inner, hinner, Fault.ofError_eq_ok.mp hu⟩, h⟩

/-! ## All units of a draft -/

/-- Something holds of the shape and the body of all units that a draft makes. -/
def Units (Q : UnitShape → Draft → Prop) : Draft → Prop
  | .seq first second => first.Units Q ∧ second.Units Q
  | .block body => body.Units Q
  | .loop body => body.Units Q
  | .unit shape body => Q shape body ∧ body.Units Q
  | _ => True

theorem unitsOf_start (shape : UnitShape) : CodeUnit.unitsOf (Builder.start shape).consts = [] := by
  simp only [Builder.start, CodeUnit.unitsOf, List.filterMap_map]
  exact List.filterMap_eq_nil_iff.mpr fun l _ => rfl

theorem Step.unitsOf_consts {b b' : Builder} (h : b.Step b') :
    CodeUnit.unitsOf b'.consts = CodeUnit.unitsOf b.consts := by
  cases h with
  | add _ hunits => exact hunits
  | _ => rfl

theorem consts_closeBlock (b : Builder) : b.closeBlock.consts = b.consts := by
  rcases h : b.blocks with _ | ⟨slots, outer⟩
  · rw [closeBlock_nil h]
  · rw [closeBlock_cons h]

section Throughout

variable {filename : String} {Q : UnitShape → Draft → Prop} {P : CodeUnit → Prop}

theorem throughout_of_finish {shape : UnitShape} {inner : Builder} {u : CodeUnit} (hu : P u)
    (hfinish : inner.finish filename shape = .ok u)
    (hinner : ∀ v ∈ CodeUnit.unitsOf inner.consts, v.Throughout P) : u.Throughout P := by
  have hconsts : u.consts = inner.consts := by
    obtain ⟨-, rfl⟩ := finish_eq_ok hfinish
    rfl
  rw [CodeUnit.throughout_iff, CodeUnit.nested_eq, hconsts]
  exact ⟨hu, hinner⟩

/-- What holds of every unit made of a good shape and body holds of all units that building adds. -/
theorem throughout_of_build
    (hP : ∀ shape body u, Q shape body → body.toUnit filename shape = .ok u → P u)
    {d : Draft} {b b' : Builder} (h : d.build filename b = .ok b') (hd : d.Units Q)
    (hb : ∀ v ∈ CodeUnit.unitsOf b.consts, v.Throughout P) :
    ∀ v ∈ CodeUnit.unitsOf b'.consts, v.Throughout P := by
  refine build_induction (M := fun d b b' => d.Units Q →
    (∀ v ∈ CodeUnit.unitsOf b.consts, v.Throughout P) →
      ∀ v ∈ CodeUnit.unitsOf b'.consts, v.Throughout P) ?_ ?_ ?_ ?_ ?_ d b b' h hd hb
  · intro d b b' _ hstep _ hb
    rw [Step.unitsOf_consts hstep]
    exact hb
  · intro first second b middle b' hfirst hsecond _ hd hb
    exact hsecond hd.2 (hfirst hd.1 hb)
  · intro body b inner hbody hd hb
    rw [consts_closeBlock]
    exact hbody hd hb
  · intro body b inner hbody _ hd hb
    exact hbody hd hb
  · intro shape body b inner u operand b' hbody hinner hfinish hadds hconsts hd hb v hv
    rw [hconsts, CodeUnit.unitsOf, List.filterMap_append, List.mem_append] at hv
    rcases hv with hv | hv
    · exact hb v hv
    · obtain rfl : v = u := by simpa [Constant.unit?] using hv
      refine throughout_of_finish (hP shape body v hd.1 (toUnit_eq_ok.mpr ⟨inner, hinner, hfinish⟩))
        hfinish ?_
      refine hbody hd.2 ?_
      simp [unitsOf_start]

/-- What holds of every unit made of a good shape and body holds throughout a unit made of such. -/
theorem throughout_of_toUnit
    (hP : ∀ shape body u, Q shape body → body.toUnit filename shape = .ok u → P u)
    {shape : UnitShape} {body : Draft} {u : CodeUnit} (hQ : Q shape body) (hbody : body.Units Q)
    (h : body.toUnit filename shape = .ok u) : u.Throughout P := by
  obtain ⟨inner, hinner, hfinish⟩ := toUnit_eq_ok.mp h
  refine throughout_of_finish (hP shape body u hQ h) hfinish ?_
  refine throughout_of_build hP hinner hbody ?_
  simp [unitsOf_start]

end Throughout

end Draft

end UnitAtlas
