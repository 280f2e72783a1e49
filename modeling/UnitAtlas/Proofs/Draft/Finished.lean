-- Units made of drafts. Such a unit can be read: its line table is one that an assembler wrote,
-- and its table of local variables still begins with the parameters that its counts and flags
-- tell of. Its code can be swept, stays within its tables, and jumps from instruction to
-- instruction.
import UnitAtlas.Proofs.Draft.Code
import UnitAtlas.Proofs.Entity.Readable

namespace UnitAtlas

open LineTable LineDeltas Opcode

/-! ## Line tables -/

theorem Assembler.even_lineTable (a : Assembler) : a.lineTable.length % 2 = 0 :=
  length_encode _ _

theorem Assembler.climb_lineTable_lt (a : Assembler) :
    a.firstLine.toNat + climb (pairUp a.lineTable) < lineBound := by
  rw [lineTable, pairUp_encode, climb_rises]
  exact highest_written_lt a

/-! ## Parameters -/

/-- Each flag is set when there is a parameter for it. -/
theorem ParameterNames.contains_flags (p : ParameterNames) :
    p.flags.contains .varArgs = p.varArgs.isSome ∧
      p.flags.contains .varKeywords = p.varKeywords.isSome := by
  unfold flags
  generalize p.varArgs.isSome = star
  generalize p.varKeywords.isSome = doubleStar
  revert star doubleStar
  decide

/-- A unit asks for as many names as it has parameters. -/
theorem ParameterNames.needed_eq (p : ParameterNames) (info : UnitInfo)
    (hpositional : info.argCount = p.positional.length)
    (hkwOnly : info.kwOnlyCount = p.kwOnly.length) (hflags : info.flags = p.flags) :
    Parameters.needed info = p.all.length := by
  obtain ⟨hvarArgs, hvarKeywords⟩ := p.contains_flags
  rw [Parameters.needed, hpositional, hkwOnly, hflags, hvarArgs, hvarKeywords, all]
  simp only [List.length_append]
  cases p.varArgs <;> cases p.varKeywords <;> rfl

theorem Draft.readable_of_toUnit {filename : String} {shape : UnitShape} {body : Draft}
    {u : CodeUnit} (h : body.toUnit filename shape = .ok u) : u.Readable := by
  obtain ⟨b, hb, hfinish⟩ := toUnit_eq_ok.mp h
  have hgrows := grows_of_build hb
  obtain ⟨-, rfl⟩ := finish_eq_ok hfinish
  refine ⟨b.assembler.even_lineTable, ?_, ?_⟩
  · have hfirst : b.assembler.firstLine = shape.firstLine := hgrows.firstLine
    have hclimb := b.assembler.climb_lineTable_lt
    rw [hfirst] at hclimb
    exact hclimb
  · rw [shape.parameters.needed_eq _ rfl rfl rfl]
    exact hgrows.varNames.length_le

/-! ## Code -/

/-- The code of a unit is made of whole instructions, the last of which leaves the unit, and their
operands stay within the tables of the unit. -/
structure CodeUnit.WellFormed (u : CodeUnit) (is : List Instruction) : Prop where
  swept : Bytecode.sweep u.info.code = some is
  last : is.getLast?.map (·.op) = some Plain.returnValue.byte
  isSome : ∀ i ∈ is, i.operand.isSome = hasOperand i.op
  holds : ∀ i ∈ is, ∀ n, i.operand = some n → u.tableSizes.Holds i.op n

/-- Every jump goes to the start of an instruction that there is. -/
structure CodeUnit.JumpsLand (u : CodeUnit) (is : List Instruction) : Prop where
  swept : Bytecode.sweep u.info.code = some is
  lands : ∀ i ∈ is, ∀ j : Jump, i.op = j.byte → ∃ target, i.target? = some target ∧
    target < u.info.code.length ∧ ∃ k ∈ is, k.start = target

namespace Assembler

variable {a : Assembler} {t : TableSizes}

/-- The instructions found in finished code. -/
def instructions (a : Assembler) : List Instruction := Bytecode.listing 0 a.emitted.toList

theorem startOf_eq_sum (a : Assembler) (k : Nat) :
    a.startOf k = ((a.emitted.toList.take k).map Emission.size).sum := by
  rw [startOf, sizes, List.map_take]

theorem getElem?_instructions (a : Assembler) (k : Nat) :
    a.instructions[k]? = a.emitted.toList[k]?.map (Emission.instruction (a.startOf k)) := by
  rw [instructions, Bytecode.getElem?_listing, Nat.zero_add, startOf_eq_sum]

theorem instructions_write (op : UInt8) (operand : Option UInt32) (a : Assembler) :
    (a.write op operand).instructions =
      a.instructions ++ [Emission.instruction a.sizes.sum ⟨op, operand, a.line⟩] := by
  simp only [instructions, write, Array.toList_push, Bytecode.listing_append, Nat.zero_add]
  rfl

theorem length_code (a : Assembler) : a.code.length = a.sizes.sum :=
  Bytecode.length_flatMap_bytes _

theorem Sound.sweep_code (h : a.Sound t) : Bytecode.sweep a.code = some a.instructions := by
  refine Bytecode.sweep_flatMap ?_
  intro e he
  obtain ⟨k, hk⟩ := List.getElem?_of_mem he
  exact (h.fits k e hk).proper

/-- Each instruction found is one that was written and that fits. -/
theorem Sound.of_mem (h : a.Sound t) {i : Instruction} (hi : i ∈ a.instructions) :
    ∃ k e, i = e.instruction (a.startOf k) ∧ a.Fits t k e := by
  obtain ⟨k, hk⟩ := List.getElem?_of_mem hi
  rw [getElem?_instructions] at hk
  obtain ⟨e, he, rfl⟩ := Option.map_eq_some_iff.mp hk
  exact ⟨k, e, rfl, h.fits k e he⟩

theorem exists_mem_instructions {k : Nat} (h : k < a.sizes.length) :
    ∃ i ∈ a.instructions, i.start = a.startOf k := by
  rw [sizes, List.length_map] at h
  have hk : a.instructions[k]? = some (a.emitted.toList[k].instruction (a.startOf k)) := by
    rw [getElem?_instructions, List.getElem?_eq_getElem h, Option.map_some]
  exact ⟨_, List.mem_of_getElem? hk, rfl⟩

theorem Sound.lands (h : a.Sound t) {i : Instruction} (hi : i ∈ a.instructions) {j : Jump}
    (hj : i.op = j.byte) : ∃ target, i.target? = some target ∧ a.IsStart target := by
  obtain ⟨k, e, rfl, hfits⟩ := h.of_mem hi
  obtain ⟨n, hn, hlt, hstart⟩ := hfits.lands j hj
  refine ⟨_, ?_, hstart⟩
  have hsize : e.size = 3 := e.size_of_short hn hlt
  simp only [Instruction.target?, Emission.instruction, hn, hsize, Option.map_some, landing]

end Assembler

namespace Draft

variable {filename : String} {shape : UnitShape} {body : Draft} {u : CodeUnit}

/-- The code of a finished unit is sound code and the instruction that leaves the unit. -/
theorem code_of_toUnit (h : body.toUnit filename shape = .ok u) (hbody : body.WellShaped)
    (hreturns : body.Returns) :
    ∃ a : Assembler, a.Sound u.tableSizes ∧
      (a.write Plain.returnValue.byte none).Sound u.tableSizes ∧
      u.info.code = (a.write Plain.returnValue.byte none).code := by
  obtain ⟨b, hb, hfinish⟩ := toUnit_eq_ok.mp h
  obtain ⟨hover, rfl⟩ := finish_eq_ok hfinish
  obtain ⟨m, hm, rfl⟩ := returns_of_build hb hover hbody hreturns (Builder.sound_start shape)
  refine ⟨m.assembler, hm.code, ?_, rfl⟩
  exact hm.code.write_accepts (TableSizes.Le.refl _) (TableSizes.accepts_plain _ .returnValue)

theorem wellFormed_of_toUnit (h : body.toUnit filename shape = .ok u) (hbody : body.WellShaped)
    (hreturns : body.Returns) : ∃ is, u.WellFormed is := by
  obtain ⟨a, -, hsound, hcode⟩ := code_of_toUnit h hbody hreturns
  refine ⟨(a.write Plain.returnValue.byte none).instructions, ?_, ?_, ?_, ?_⟩
  · rw [hcode]
    exact hsound.sweep_code
  · rw [Assembler.instructions_write, List.getLast?_concat]
    rfl
  · intro i hi
    obtain ⟨k, e, rfl, hfits⟩ := hsound.of_mem hi
    exact (Option.isSome_map).trans hfits.proper.isSome
  · intro i hi n hn
    obtain ⟨k, e, rfl, hfits⟩ := hsound.of_mem hi
    obtain ⟨m, hm, rfl⟩ := Option.map_eq_some_iff.mp hn
    exact hfits.holds m hm

theorem jumpsLand_of_toUnit (h : body.toUnit filename shape = .ok u) (hbody : body.WellShaped)
    (hreturns : body.Returns) : ∃ is, u.JumpsLand is := by
  obtain ⟨a, hbefore, hsound, hcode⟩ := code_of_toUnit h hbody hreturns
  refine ⟨(a.write Plain.returnValue.byte none).instructions, ?_, ?_⟩
  · rw [hcode]
    exact hsound.sweep_code
  · intro i hi j hj
    have hi' := hi
    rw [Assembler.instructions_write] at hi'
    rcases List.mem_append.mp hi' with hi' | hi'
    · obtain ⟨target, htarget, k, hk, rfl⟩ := hbefore.lands hi' hj
      refine ⟨_, htarget, ?_, ?_⟩
      · have hle := a.startOf_le_sum k
        rw [hcode, Assembler.length_code, Assembler.sizes_write, List.sum_append]
        exact Nat.lt_of_le_of_lt hle (Nat.lt_add_one _)
      · -- What was written next in the code before the last instruction is that instruction.
        have hsizes := Assembler.sizes_prefix_write Plain.returnValue.byte none a
        rw [← Assembler.startOf_eq hsizes hk]
        refine Assembler.exists_mem_instructions ?_
        rw [Assembler.sizes_write, List.length_append]
        exact Nat.lt_succ_of_le hk
    · rw [List.mem_singleton.mp hi'] at hj
      exact absurd hj (ne_of_family Plain.returnValue.family j.family (by decide))

end Draft

end UnitAtlas
