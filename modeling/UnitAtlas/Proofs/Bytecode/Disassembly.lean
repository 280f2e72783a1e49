-- What a history's code disassembles to. The steps alone tell each instruction, its place and its
-- operand: a jump that is patched has the operand of its last patch. Sweeping the finished code
-- finds exactly these instructions, and no patch touches more than the operand of its jump.
import UnitAtlas.Proofs.Bytecode.Jumps
import UnitAtlas.Proofs.Fault

namespace UnitAtlas

open Opcode

/-- The instruction with its operand set, if it is the one at `place`. -/
def Instruction.setAt (place n : Nat) (i : Instruction) : Instruction :=
  if i.start = place then { i with operand := some n } else i

theorem Instruction.map_setAt_of_ne {place n : Nat} {is : List Instruction}
    (h : ∀ i ∈ is, i.start ≠ place) : is.map (setAt place n) = is := by
  calc is.map (setAt place n) = is.map id := List.map_congr_left fun i hi => if_neg (h i hi)
    _ = is := List.map_id is

theorem Emission.bytes_of_size {e : Emission} (h : e.size = 3) :
    ∃ low high, e.bytes = [e.op, low, high] := by
  unfold size at h
  unfold bytes
  split at h
  · cases h
  · split at h
    · cases h
    · rename_i hshort
      exact ⟨_, _, if_neg hshort⟩

namespace Bytecode

theorem listing_append_cons (offset : Nat) (fs : List Emission) (e : Emission)
    (gs : List Emission) :
    listing offset (fs ++ e :: gs) = listing offset fs ++
      e.instruction (offset + (fs.map Emission.size).sum) ::
        listing (offset + (fs.map Emission.size).sum + e.size) gs := by
  induction fs generalizing offset with
  | nil => rfl
  | cons f fs ih =>
    rw [List.cons_append, listing, ih, listing, List.map_cons, List.sum_cons, List.cons_append,
      Nat.add_assoc offset f.size]

theorem start_of_mem_listing {offset : Nat} {es : List Emission} {i : Instruction}
    (h : i ∈ listing offset es) :
    offset ≤ i.start ∧ i.start < offset + (es.map Emission.size).sum := by
  obtain ⟨fs, e, gs, rfl, rfl⟩ := mem_listing.mp h
  have hpos := Assembler.size_pos e
  simp only [Emission.instruction, List.map_append, List.map_cons, List.sum_append, List.sum_cons]
  omega

end Bytecode

namespace Assembler

/-! ## What the steps tell -/

namespace Step

/-- A step with an opcode that it may be given: without an operand, or with one and no prefix. -/
def Proper : Step → Prop
  | .emit op => op < firstWithOperand
  | .arg op _ | .jump op | .jumpTo op _ => firstWithOperand ≤ op ∧ op ≠ extendedOperand
  | .line _ | .patch _ => True

/-- The number of bytes that steps write. -/
def lengthOf (steps : List Step) : Nat := (steps.map (·.size?.getD 0)).sum

/-- The jump that a step leaves open: its opcode and its place. -/
def jump? (offset : Nat) : Step → Option (UInt8 × Nat)
  | .jump op => some (op, offset)
  | _ => none

/-- The jumps that can be patched after steps from `offset` on. -/
def jumpsFrom (offset : Nat) : List Step → List (UInt8 × Nat)
  | [] => []
  | s :: rest => (s.jump? offset).toList ++ jumpsFrom (offset + s.size?.getD 0) rest

/-- The operand that a step needs for a jump, after the steps before it. -/
def operand? (before : List Step) : Step → Option Nat
  | .jumpTo op target => some (jumpOperand op (lengthOf before) target)
  | .patch slot => (jumpsFrom 0 before)[slot]?.map fun (op, place) =>
      jumpOperand op place (lengthOf before)
  | _ => none

/-- One of the steps needs an operand that is too large for a jump. -/
def Overflows (steps : List Step) : Prop :=
  ∃ before s after n, steps = before ++ s :: after ∧ s.operand? before = some n ∧ 0xFFFF < n

/-- The target of the last patch of a jump, if there is one. -/
def lastPatch? (slot offset : Nat) : List Step → Option Nat
  | [] => none
  | s :: rest =>
    (lastPatch? slot (offset + s.size?.getD 0) rest).or
      (if s = .patch slot then some offset else none)

/-- The instruction that a step writes at `offset`, when `target?` is where it is let go later. -/
def instruction? (offset : Nat) (target? : Option Nat) : Step → Option Instruction
  | .emit op => some ⟨offset, offset + 1, op, none⟩
  | .arg op n => some ⟨offset, offset + if 0xFFFF < n then 6 else 3, op, some n.toNat⟩
  | .jump op =>
    some ⟨offset, offset + 3, op, some ((target?.map (jumpOperand op offset)).getD 0)⟩
  | .jumpTo op target => some ⟨offset, offset + 3, op, some (jumpOperand op offset target)⟩
  | .line _ | .patch _ => none

/-- The instructions that steps write from `offset` on, when `slot` jumps were left open before. -/
def instructionsFrom (offset slot : Nat) : List Step → List Instruction
  | [] => []
  | s :: rest =>
    let stop := offset + s.size?.getD 0
    (s.instruction? offset (lastPatch? slot stop rest)).toList ++
      instructionsFrom stop (slot + (s.jump? offset).toList.length) rest

/-! ### One step more -/

theorem lengthOf_cons (s : Step) (rest : List Step) :
    lengthOf (s :: rest) = s.size?.getD 0 + lengthOf rest := by
  simp [lengthOf]

theorem lengthOf_snoc (steps : List Step) (s : Step) :
    lengthOf (steps ++ [s]) = lengthOf steps + s.size?.getD 0 := by
  simp [lengthOf]

theorem jumpsFrom_snoc (offset : Nat) (steps : List Step) (s : Step) :
    jumpsFrom offset (steps ++ [s]) =
      jumpsFrom offset steps ++ (s.jump? (offset + lengthOf steps)).toList := by
  induction steps generalizing offset with
  | nil => simp [jumpsFrom, lengthOf]
  | cons t rest ih =>
    rw [List.cons_append, jumpsFrom, jumpsFrom, ih, lengthOf_cons, List.append_assoc,
      Nat.add_assoc]

theorem jumpsFrom_snoc_of_none {offset : Nat} {steps : List Step} {s : Step}
    (hnone : s.jump? (offset + lengthOf steps) = none) :
    jumpsFrom offset (steps ++ [s]) = jumpsFrom offset steps := by
  rw [jumpsFrom_snoc, hnone, Option.toList_none, List.append_nil]

theorem overflows_snoc {steps : List Step} {s : Step} :
    Overflows (steps ++ [s]) ↔
      Overflows steps ∨ ∃ n, s.operand? steps = some n ∧ 0xFFFF < n := by
  constructor
  · rintro ⟨before, t, after, n, hsplit, hn⟩
    rcases List.eq_nil_or_concat after with rfl | ⟨after, u, rfl⟩
    · obtain ⟨rfl, ht⟩ := List.append_inj' hsplit rfl
      cases ht
      exact Or.inr ⟨n, hn⟩
    · rw [List.concat_eq_append, ← List.cons_append, ← List.append_assoc] at hsplit
      obtain ⟨rfl, -⟩ := List.append_inj' hsplit rfl
      exact Or.inl ⟨before, t, after, n, rfl, hn⟩
  · rintro (⟨before, t, after, n, rfl, hn⟩ | ⟨n, hn⟩)
    · exact ⟨before, t, after ++ [s], n, by simp, hn⟩
    · exact ⟨steps, s, [], n, rfl, hn⟩

theorem overflows_snoc_of_none {steps : List Step} {s : Step} (h : s.operand? steps = none) :
    Overflows (steps ++ [s]) ↔ Overflows steps := by
  rw [overflows_snoc, h]
  simp

theorem lastPatch?_snoc (slot offset : Nat) (steps : List Step) (s : Step) :
    lastPatch? slot offset (steps ++ [s]) =
      if s = .patch slot then some (offset + lengthOf steps) else lastPatch? slot offset steps := by
  induction steps generalizing offset with
  | nil => simp [lastPatch?, lengthOf]
  | cons t rest ih =>
    rw [List.cons_append, lastPatch?, lastPatch?, ih, lengthOf_cons, Nat.add_assoc]
    split
    · rw [Option.some_or]
    · rfl

/-- A step that is no patch tells its own instruction, and changes no other. -/
theorem instructionsFrom_snoc (offset slot : Nat) (steps : List Step) {s : Step}
    (h : ∀ i, s ≠ .patch i) :
    instructionsFrom offset slot (steps ++ [s]) =
      instructionsFrom offset slot steps ++
        (s.instruction? (offset + lengthOf steps) none).toList := by
  induction steps generalizing offset slot with
  | nil => simp [instructionsFrom, lengthOf, lastPatch?]
  | cons t rest ih =>
    simp only [List.cons_append, instructionsFrom]
    rw [ih, lastPatch?_snoc, if_neg (h slot), lengthOf_cons, List.append_assoc, Nat.add_assoc]

theorem le_of_mem_jumpsFrom {offset : Nat} {steps : List Step} {op : UInt8} {place : Nat}
    (h : (op, place) ∈ jumpsFrom offset steps) : offset ≤ place := by
  induction steps generalizing offset with
  | nil => cases h
  | cons s rest ih =>
    rcases List.mem_append.mp h with h | h
    · cases s <;> simp [jump?] at h
      omega
    · have := ih h
      omega

/-- Where a step writes an instruction, and how long it is. -/
theorem start_of_instruction? {offset : Nat} {target? : Option Nat} {s : Step} {i : Instruction}
    (h : s.instruction? offset target? = some i) :
    i.start = offset ∧ 0 < s.size?.getD 0 := by
  cases s with
  | line n => cases h
  | patch slot => cases h
  | arg op n =>
    cases h
    refine ⟨rfl, ?_⟩
    simp only [size?]
    split <;> decide
  | emit op | jump op | jumpTo op target =>
    cases h
    exact ⟨rfl, by simp [size?]⟩

theorem le_start_of_mem_instructionsFrom {offset slot : Nat} {steps : List Step} {i : Instruction}
    (h : i ∈ instructionsFrom offset slot steps) : offset ≤ i.start := by
  induction steps generalizing offset slot with
  | nil => cases h
  | cons s rest ih =>
    rcases List.mem_append.mp h with h | h
    · exact Nat.le_of_eq (start_of_instruction? (Option.mem_toList.mp h)).1.symm
    · have := ih h
      omega

theorem isSome_instruction? (offset : Nat) (target? : Option Nat) (s : Step) :
    (s.instruction? offset target?).isSome = s.size?.isSome := by
  cases s with
  | arg op n =>
    simp only [instruction?, size?]
    split <;> rfl
  | line n | emit op | jump op | jumpTo op target | patch slot => rfl

/-- Each step that writes an instruction has one at its place. -/
theorem start_of_instructionsFrom (offset slot : Nat) (before : List Step) {s : Step}
    (h : s.size?.isSome = true) (after : List Step) :
    (instructionsFrom offset slot (before ++ s :: after))[(before.filterMap size?).length]?.map
      (·.start) = some (offset + lengthOf before) := by
  induction before generalizing offset slot with
  | nil =>
    rw [← isSome_instruction? offset (lastPatch? slot _ after), Option.isSome_iff_exists] at h
    obtain ⟨i, hi⟩ := h
    rw [List.nil_append, instructionsFrom, hi]
    exact congrArg some (start_of_instruction? hi).1
  | cons t rest ih =>
    have hsame := fun target? => isSome_instruction? offset target? t
    rw [lengthOf_cons, ← Nat.add_assoc, List.cons_append, instructionsFrom,
      ← ih _ (slot + (t.jump? offset).toList.length)]
    rcases hsize : t.size? with _ | n
    · simp only [hsize, Option.isSome_none, Option.isSome_eq_false_iff, Option.isNone_iff_eq_none]
        at hsame
      rw [List.filterMap_cons_none hsize, hsame]
      rfl
    · simp only [hsize, Option.isSome_some, Option.isSome_iff_exists] at hsame
      obtain ⟨i, hi⟩ := hsame _
      rw [List.filterMap_cons_some hsize, hi]
      rfl

theorem map_setAt_instructionsFrom {place offset : Nat} (h : place < offset) (n slot : Nat)
    (steps : List Step) :
    (instructionsFrom offset slot steps).map (Instruction.setAt place n) =
      instructionsFrom offset slot steps := by
  refine Instruction.map_setAt_of_ne fun i hi => ?_
  have := le_start_of_mem_instructionsFrom hi
  omega

/-- A patch of a jump that was written before all these steps. -/
theorem instructionsFrom_snoc_patch_of_lt {slot opened : Nat} (h : slot < opened) (offset : Nat)
    (steps : List Step) :
    instructionsFrom offset opened (steps ++ [.patch slot]) =
      instructionsFrom offset opened steps := by
  induction steps generalizing offset opened with
  | nil => rfl
  | cons s rest ih =>
    have hne : ¬ Step.patch slot = .patch opened := by
      rintro ⟨⟩
      exact Nat.lt_irrefl slot h
    simp only [List.cons_append, instructionsFrom]
    rw [ih (by omega), lastPatch?_snoc, if_neg hne]

/-- A patch sets the operand of its jump. -/
theorem instructionsFrom_snoc_patch (opened : Nat) {offset k : Nat} {steps : List Step} {op : UInt8}
    {place : Nat} (h : (jumpsFrom offset steps)[k]? = some (op, place)) :
    instructionsFrom offset opened (steps ++ [.patch (opened + k)]) =
      (instructionsFrom offset opened steps).map
        (Instruction.setAt place (jumpOperand op place (offset + lengthOf steps))) := by
  induction steps generalizing offset opened k with
  | nil => cases h
  | cons s rest ih =>
    -- A step that opens no jump is passed.
    have hpass : s.jump? offset = none → (jumpsFrom (offset + s.size?.getD 0) rest)[k]? =
        some (op, place) → (∀ t t', s.instruction? offset t = s.instruction? offset t') →
        instructionsFrom offset opened (s :: rest ++ [.patch (opened + k)]) =
          (instructionsFrom offset opened (s :: rest)).map
            (Instruction.setAt place (jumpOperand op place (offset + lengthOf (s :: rest)))) := by
      intro hnone hrest hsame
      have hplace := le_of_mem_jumpsFrom (List.mem_of_getElem? hrest)
      simp only [List.cons_append, instructionsFrom, hnone, Option.toList_none, List.length_nil,
        Nat.add_zero, List.map_append]
      rw [ih opened hrest, lengthOf_cons, Nat.add_assoc, hsame _ none,
        hsame (lastPatch? _ _ rest) none]
      congr 1
      refine (Instruction.map_setAt_of_ne fun i hi => ?_).symm
      obtain ⟨hstart, hpos⟩ := start_of_instruction? (Option.mem_toList.mp hi)
      omega
    cases s with
    | line n | emit op | arg op n | jumpTo op target | patch i => exact hpass rfl h fun _ _ => rfl
    | jump op' =>
      have hsize : (Step.jump op').size?.getD 0 = 3 := rfl
      have hlength : offset + (3 + lengthOf rest) = offset + 3 + lengthOf rest := by omega
      simp only [List.cons_append, List.nil_append, instructionsFrom, lengthOf_cons, hsize, jump?,
        instruction?, Option.toList_some, List.length_singleton, List.map_cons, hlength]
      rcases k with _ | k
      · -- It is this jump that is patched.
        cases h
        simp only [Nat.add_zero]
        rw [lastPatch?_snoc, if_pos rfl,
          instructionsFrom_snoc_patch_of_lt (Nat.lt_succ_self opened),
          map_setAt_instructionsFrom (Nat.lt_add_of_pos_right (by decide)), Instruction.setAt,
          if_pos rfl]
        rfl
      · have hrest : (jumpsFrom (offset + 3) rest)[k]? = some (op, place) := h
        have hplace := le_of_mem_jumpsFrom (List.mem_of_getElem? hrest)
        have hne : ¬ Step.patch (opened + (k + 1)) = .patch opened := by
          simp
        have hother : ¬ offset = place := by omega
        have hslot : opened + (k + 1) = opened + 1 + k := by omega
        rw [lastPatch?_snoc, if_neg hne, hslot, ih (opened + 1) hrest]
        simp only [Instruction.setAt, if_neg hother]

/-- A patch of a jump that was never written sets nothing. -/
theorem instructionsFrom_snoc_patch_of_none (opened : Nat) {offset k : Nat} {steps : List Step}
    (h : (jumpsFrom offset steps)[k]? = none) :
    instructionsFrom offset opened (steps ++ [.patch (opened + k)]) =
      instructionsFrom offset opened steps := by
  induction steps generalizing offset opened k with
  | nil => rfl
  | cons s rest ih =>
    simp only [List.cons_append, instructionsFrom]
    cases s with
    | line n | emit op | arg op n | jumpTo op target | patch i =>
      congr 1
      exact ih opened h
    | jump op =>
      rcases k with _ | k
      · cases h
      · have hne : ¬ Step.patch (opened + (k + 1)) = .patch opened := by
          simp
        have hrest := ih (opened + 1) (k := k) h
        rw [Nat.add_right_comm] at hrest
        rw [lastPatch?_snoc, if_neg hne]
        congr 1

end Step

/-! ## Code and its disassembly -/

variable {a : Assembler} {slot : JumpSlot} {target : Nat}

theorem patchTo_far (h : ¬ jumpOperand slot.op slot.offset target < 0x10000) :
    a.patchTo slot target = { a with overflowed := true } := if_neg h

/-- A patch within reach sets the operand of one instruction of three bytes. -/
theorem exists_split_of_patchTo (h : a.sizes[slot.index]? = some 3)
    (hnear : jumpOperand slot.op slot.offset target < 0x10000) :
    ∃ fs e gs, a.emitted.toList = fs ++ e :: gs ∧ e.size = 3 ∧
      a.startOf slot.index = (fs.map Emission.size).sum ∧
      (a.patchTo slot target).emitted.toList = fs ++
        { e with operand := some (UInt32.ofNat (jumpOperand slot.op slot.offset target)) } ::
          gs := by
  have hlt := (List.getElem?_eq_some_iff.mp h).1
  rw [sizes, List.length_map] at hlt
  obtain ⟨fs, e, gs, hsplit, hindex, hset⟩ := List.exists_of_modify
    (fun e : Emission =>
      { e with operand := some (UInt32.ofNat (jumpOperand slot.op slot.offset target)) }) hlt
  refine ⟨fs, e, gs, hsplit, ?_, ?_, ?_⟩
  · rw [sizes, hsplit, ← hindex, List.map_append, List.getElem?_append_right (by simp)] at h
    simpa using h
  · rw [startOf, sizes, hsplit, ← hindex, ← List.map_take, List.take_left' rfl]
  · rw [patchTo]
    simp only [if_pos hnear, Array.toList_modify]
    exact hset

theorem size_set_jumpOperand (e : Emission) {op : UInt8} {place : Nat}
    (hnear : jumpOperand op place target < 0x10000) :
    (UInt32.ofNat (jumpOperand op place target)).toNat = jumpOperand op place target ∧
      Emission.size { e with operand := some (UInt32.ofNat (jumpOperand op place target)) } = 3 := by
  have hvalue : (UInt32.ofNat (jumpOperand op place target)).toNat =
      jumpOperand op place target := by
    rw [UInt32.toNat_ofNat']
    exact Nat.mod_eq_of_lt (by omega)
  exact ⟨hvalue, Emission.size_of_short rfl (hvalue.symm ▸ hnear)⟩

/-- Disassembled, a patched jump has its operand, and all other instructions are as they were. -/
theorem listing_patchTo (h : a.sizes[slot.index]? = some 3)
    (hplace : a.startOf slot.index = slot.offset)
    (hnear : jumpOperand slot.op slot.offset target < 0x10000) :
    Bytecode.listing 0 (a.patchTo slot target).emitted.toList =
      (Bytecode.listing 0 a.emitted.toList).map
        (Instruction.setAt slot.offset (jumpOperand slot.op slot.offset target)) := by
  obtain ⟨fs, e, gs, hes, hsize, hstart, hset⟩ := exists_split_of_patchTo h hnear
  obtain ⟨hvalue, hshort⟩ := size_set_jumpOperand e hnear
  rw [hset, hes, Bytecode.listing_append_cons, Bytecode.listing_append_cons, hshort, hsize,
    List.map_append, List.map_cons, Nat.zero_add, ← hstart, hplace]
  congr 1
  · refine (Instruction.map_setAt_of_ne fun i hi => ?_).symm
    have := (Bytecode.start_of_mem_listing hi).2
    omega
  congr 1
  · simp only [Instruction.setAt, Emission.instruction, hshort, hsize, Option.map_some, hvalue,
      if_true]
  · refine (Instruction.map_setAt_of_ne fun i hi => ?_).symm
    have := (Bytecode.start_of_mem_listing hi).1
    omega

/-- A patch changes no byte but the two of the operand. -/
theorem getElem?_code_patchTo (h : a.sizes[slot.index]? = some 3)
    (hplace : a.startOf slot.index = slot.offset) {k : Nat} (hlow : k ≠ slot.offset + 1)
    (hhigh : k ≠ slot.offset + 2) : (a.patchTo slot target).code[k]? = a.code[k]? := by
  by_cases hnear : jumpOperand slot.op slot.offset target < 0x10000
  · obtain ⟨fs, e, gs, hes, hsize, hstart, hset⟩ := exists_split_of_patchTo h hnear
    obtain ⟨-, hshort⟩ := size_set_jumpOperand e hnear
    obtain ⟨low, high, hbytes⟩ := Emission.bytes_of_size hsize
    obtain ⟨low', high', hbytes'⟩ := Emission.bytes_of_size hshort
    have hlength : (fs.flatMap Emission.bytes).length = slot.offset := by
      rw [Bytecode.length_flatMap_bytes, ← hstart, hplace]
    rw [code, code, hset, hes, List.flatMap_append, List.flatMap_append, List.flatMap_cons,
      List.flatMap_cons, hbytes, hbytes']
    rcases Nat.lt_or_ge k slot.offset with hk | hk
    · rw [List.getElem?_append_left (hlength.symm ▸ hk),
        List.getElem?_append_left (hlength.symm ▸ hk)]
    · have hbehind : ∀ rest : Bytes,
          (fs.flatMap Emission.bytes ++ rest)[k]? = rest[k - slot.offset]? := by
        intro rest
        rw [List.getElem?_append_right (hlength.symm ▸ hk), hlength]
      rw [hbehind, hbehind]
      -- The opcode stays, and so does all that stands behind the jump.
      obtain hk | ⟨j, hk⟩ : k - slot.offset = 0 ∨ ∃ j, k - slot.offset = j + 3 := by
        rcases Nat.lt_or_ge (k - slot.offset) 3 with hlt | hge
        · exact Or.inl (by omega)
        · exact Or.inr (Nat.exists_eq_add_of_le' hge)
      · rw [hk]
        rfl
      · rw [hk]
        rfl
  · rw [patchTo_far hnear]
    rfl

theorem overflowed_patchTo_iff : (a.patchTo slot target).overflowed = true ↔
    a.overflowed = true ∨ 0xFFFF < jumpOperand slot.op slot.offset target := by
  by_cases hnear : jumpOperand slot.op slot.offset target < 0x10000
  · have hshort : ¬ 0xFFFF < jumpOperand slot.op slot.offset target := by omega
    rw [patchTo]
    simp [hnear, hshort]
  · have hfar : 0xFFFF < jumpOperand slot.op slot.offset target := by omega
    rw [patchTo_far hnear]
    simp [hfar]

theorem fits_of_patchTo (h : (a.patchTo slot target).overflowed = false) :
    a.overflowed = false ∧ jumpOperand slot.op slot.offset target < 0x10000 := by
  rw [← Bool.not_eq_true, overflowed_patchTo_iff, not_or, Bool.not_eq_true] at h
  exact ⟨h.1, by omega⟩

theorem proper_patchTo (h : a.sizes[slot.index]? = some 3)
    (hproper : ∀ e ∈ a.emitted.toList, e.Proper) :
    ∀ e ∈ (a.patchTo slot target).emitted.toList, e.Proper := by
  by_cases hnear : jumpOperand slot.op slot.offset target < 0x10000
  · obtain ⟨fs, e, gs, hes, hsize, -, hset⟩ := exists_split_of_patchTo h hnear
    rw [hset]
    rw [hes, List.forall_mem_append, List.forall_mem_cons] at hproper
    obtain ⟨hfs, he, hgs⟩ := hproper
    rw [List.forall_mem_append, List.forall_mem_cons]
    refine ⟨hfs, ⟨?_, he.not_widening⟩, hgs⟩
    -- An instruction of three bytes has an operand already.
    have hsome : e.operand.isSome = true := by
      rcases hoperand : e.operand with _ | n
      · rw [Emission.size, hoperand] at hsize
        cases hsize
      · rfl
    exact hsome.symm.trans he.isSome
  · rw [patchTo_far hnear]
    exact hproper

theorem startOf_write {k : Nat} (hk : k ≤ a.sizes.length) (op : UInt8) (operand : Option UInt32) :
    (a.write op operand).startOf k = a.startOf k :=
  startOf_eq (sizes_prefix_write op operand a) hk

theorem code_write (op : UInt8) (operand : Option UInt32) :
    (a.write op operand).code = a.code ++ Emission.bytes ⟨op, operand, a.line⟩ := by
  simp [code, write]

theorem listing_write (h : a.offset = a.sizes.sum) (op : UInt8) (operand : Option UInt32) :
    Bytecode.listing 0 (a.write op operand).emitted.toList =
      Bytecode.listing 0 a.emitted.toList ++
        [Emission.instruction a.offset ⟨op, operand, a.line⟩] := by
  rw [write, Array.toList_push, Bytecode.listing_append, Nat.zero_add, h]
  rfl

/-! ## Following the steps -/

/-- A desk as the steps lead to it. -/
structure Desk.Tells (d : Desk) (steps : List Step) : Prop where
  sound : d.Sound
  proper : ∀ e ∈ d.assembler.emitted.toList, e.Proper
  offset : d.assembler.offset = Step.lengthOf steps
  slots : d.slots.toList.map (fun slot => (slot.op, slot.offset)) = Step.jumpsFrom 0 steps
  places : ∀ slot ∈ d.slots, d.assembler.startOf slot.index = slot.offset
  overflowed : d.assembler.overflowed = true ↔ Step.Overflows steps
  listing : d.assembler.overflowed = false →
    Bytecode.listing 0 d.assembler.emitted.toList = Step.instructionsFrom 0 0 steps

theorem Desk.tells_start (firstLine : UInt32) : (Desk.start firstLine).Tells [] where
  sound := sound_start firstLine
  proper := by simp [Desk.start, Assembler.start]
  offset := rfl
  slots := rfl
  places := by simp [Desk.start]
  overflowed := by
    constructor
    · intro h
      cases h
    · rintro ⟨before, s, after, n, hsplit, -⟩
      simp at hsplit
  listing _ := rfl

variable {d : Desk} {steps : List Step}

theorem Desk.Tells.index_lt (h : d.Tells steps) {slot : JumpSlot} (hslot : slot ∈ d.slots) :
    slot.index < d.assembler.sizes.length :=
  (List.getElem?_eq_some_iff.mp (h.sound.slots slot hslot)).1

theorem Desk.Tells.setLine (h : d.Tells steps) (n : UInt32) :
    Desk.Tells { d with assembler := d.assembler.setLine n } (steps ++ [.line n]) where
  sound := ⟨h.sound.offset, h.sound.slots⟩
  proper := h.proper
  offset := by
    rw [Step.lengthOf_snoc]
    exact h.offset
  slots := h.slots.trans (Step.jumpsFrom_snoc_of_none rfl).symm
  places := h.places
  overflowed := h.overflowed.trans (Step.overflows_snoc_of_none rfl).symm
  listing hfits := by
    rw [Step.instructionsFrom_snoc 0 0 steps (by simp)]
    exact (h.listing hfits).trans (List.append_nil _).symm

/-- A step that writes an instruction which is no jump to be set. -/
theorem Desk.Tells.write (h : d.Tells steps) {s : Step} {op : UInt8} {operand : Option UInt32}
    (hproper : Emission.Proper ⟨op, operand, d.assembler.line⟩)
    (hsize : s.size?.getD 0 = Emission.size ⟨op, operand, d.assembler.line⟩)
    (hjump : ∀ offset, s.jump? offset = none) (hoperand : s.operand? steps = none)
    (hpatch : ∀ i, s ≠ .patch i)
    (hinstruction : s.instruction? (Step.lengthOf steps) none =
      some (Emission.instruction (Step.lengthOf steps) ⟨op, operand, d.assembler.line⟩)) :
    Desk.Tells { d with assembler := d.assembler.write op operand } (steps ++ [s]) where
  sound := sound_write h.sound op operand
  proper := by
    intro e he
    simp only [Assembler.write, Array.toList_push, List.mem_append, List.mem_singleton] at he
    rcases he with he | rfl
    · exact h.proper e he
    · exact hproper
  offset := by
    rw [Step.lengthOf_snoc, hsize, ← h.offset]
    rfl
  slots := h.slots.trans (Step.jumpsFrom_snoc_of_none (hjump _)).symm
  places slot hslot :=
    (startOf_write (Nat.le_of_lt (h.index_lt hslot)) op operand).trans (h.places slot hslot)
  overflowed := h.overflowed.trans (Step.overflows_snoc_of_none hoperand).symm
  listing hfits := by
    rw [listing_write h.sound.offset, h.listing hfits, Step.instructionsFrom_snoc 0 0 steps hpatch,
      Nat.zero_add, hinstruction, h.offset]
    rfl

theorem Desk.Tells.emit (h : d.Tells steps) {op : UInt8} (hop : op < firstWithOperand) :
    Desk.Tells { d with assembler := d.assembler.write op none } (steps ++ [.emit op]) := by
  have hplain : hasOperand op = false := decide_eq_false (UInt8.not_le.mpr hop)
  refine h.write ⟨hplain.symm, ?_⟩ rfl (fun _ => rfl) rfl (by simp) rfl
  rintro rfl
  exact absurd hop (by decide)

theorem Desk.Tells.arg (h : d.Tells steps) {op : UInt8} (hop : firstWithOperand ≤ op)
    (hne : op ≠ extendedOperand) (n : UInt32) :
    Desk.Tells { d with assembler := d.assembler.write op (some n) } (steps ++ [.arg op n]) := by
  refine h.write ⟨(decide_eq_true hop).symm, hne⟩ ?_ (fun _ => rfl) rfl (by simp) rfl
  simp only [Step.size?, Emission.size]
  split <;> rfl

/-- The jump just written stands behind all that was written before. -/
theorem startOf_size (h : a.offset = a.sizes.sum) (op : UInt8) (operand : Option UInt32) :
    (a.write op operand).startOf a.emitted.size = a.offset := by
  have hsize : a.emitted.size = a.sizes.length := by simp [sizes]
  rw [hsize, startOf_write (Nat.le_refl _), startOf, List.take_length, h]

theorem Desk.Tells.jump (h : d.Tells steps) {op : UInt8} (hop : firstWithOperand ≤ op)
    (hne : op ≠ extendedOperand) :
    Desk.Tells ⟨d.assembler.write op (some 0),
      d.slots.push ⟨d.assembler.emitted.size, op, d.assembler.offset⟩⟩ (steps ++ [.jump op]) := by
  have harg := h.arg hop hne 0
  refine ⟨⟨harg.sound.offset, ?_⟩, harg.proper, ?_, ?_, ?_, ?_, ?_⟩
  · intro slot hslot
    rcases Array.mem_push.mp hslot with hold | rfl
    · exact harg.sound.slots slot hold
    · exact sizes_write_jump op d.assembler
  · rw [Step.lengthOf_snoc, ← h.offset]
    rfl
  · rw [Array.toList_push, List.map_append, h.slots, Step.jumpsFrom_snoc, Nat.zero_add, ← h.offset]
    rfl
  · intro slot hslot
    rcases Array.mem_push.mp hslot with hold | rfl
    · exact harg.places slot hold
    · exact startOf_size h.sound.offset op (some 0)
  · exact h.overflowed.trans (Step.overflows_snoc_of_none rfl).symm
  · intro hfits
    rw [harg.listing hfits, Step.instructionsFrom_snoc 0 0 steps (by simp),
      Step.instructionsFrom_snoc 0 0 steps (by simp)]
    rfl

theorem Desk.Tells.jumpTo (h : d.Tells steps) {op : UInt8} (hop : firstWithOperand ≤ op)
    (hne : op ≠ extendedOperand) (target : Nat) :
    Desk.Tells ⟨(d.assembler.write op (some 0)).patchTo
      ⟨d.assembler.emitted.size, op, d.assembler.offset⟩ target, d.slots⟩
      (steps ++ [.jumpTo op target]) := by
  have harg := h.arg hop hne 0
  have hsize := sizes_write_jump op d.assembler
  have hplace := startOf_size h.sound.offset op (some 0)
  have hsound := Desk.sound_patchTo harg.sound ⟨d.assembler.emitted.size, op, d.assembler.offset⟩
    target hsize
  refine ⟨hsound, proper_patchTo hsize harg.proper, ?_, ?_, ?_, ?_, ?_⟩
  · rw [Step.lengthOf_snoc, ← h.offset]
    exact (patchTo_keeps _ target _).2.2
  · exact h.slots.trans (Step.jumpsFrom_snoc_of_none rfl).symm
  · intro slot hslot
    rw [startOf, sizes_patchTo _ target _ hsize]
    exact harg.places slot hslot
  · rw [overflowed_patchTo_iff, Step.overflows_snoc, Step.operand?, h.offset]
    simp only [Option.some.injEq, exists_eq_left']
    exact or_congr_left h.overflowed
  · intro hfits
    obtain ⟨hwritten, hnear⟩ := fits_of_patchTo hfits
    rw [listing_patchTo hsize hplace hnear, harg.listing hwritten,
      Step.instructionsFrom_snoc 0 0 steps (by simp), Step.instructionsFrom_snoc 0 0 steps (by simp),
      List.map_append]
    congr 1
    · refine Instruction.map_setAt_of_ne fun i hi => ?_
      rw [← h.listing hwritten] at hi
      have hbefore := (Bytecode.start_of_mem_listing hi).2
      have hend := h.sound.offset
      rw [sizes] at hend
      simp only
      omega
    · rw [Nat.zero_add, ← h.offset]
      simp [Step.instruction?, Instruction.setAt]

theorem Desk.Tells.patch (h : d.Tells steps) {i : Nat} (hslot : d.slots[i]? = some slot) :
    Desk.Tells { d with assembler := d.assembler.patch slot } (steps ++ [.patch i]) := by
  have hmem := Array.mem_of_getElem? hslot
  have hsize := h.sound.slots slot hmem
  have hplace := h.places slot hmem
  have hjump : (Step.jumpsFrom 0 steps)[i]? = some (slot.op, slot.offset) := by
    rw [← h.slots, List.getElem?_map, Array.getElem?_toList, hslot]
    rfl
  refine ⟨Desk.sound_patchTo h.sound slot _ hsize, proper_patchTo hsize h.proper, ?_, ?_, ?_, ?_, ?_⟩
  · rw [Step.lengthOf_snoc, ← h.offset]
    exact (patchTo_keeps slot _ _).2.2
  · exact h.slots.trans (Step.jumpsFrom_snoc_of_none rfl).symm
  · intro other hother
    rw [Assembler.patch, startOf, sizes_patchTo _ _ _ hsize]
    exact h.places other hother
  · rw [Assembler.patch, overflowed_patchTo_iff, Step.overflows_snoc, Step.operand?, hjump, h.offset]
    simp only [Option.map_some, Option.some.injEq, exists_eq_left']
    exact or_congr_left h.overflowed
  · intro hfits
    obtain ⟨hbefore, hnear⟩ := fits_of_patchTo hfits
    have hset := Step.instructionsFrom_snoc_patch 0 hjump
    rw [Nat.zero_add, Nat.zero_add, ← h.offset] at hset
    rw [Assembler.patch, listing_patchTo hsize hplace hnear, h.listing hbefore, hset]

/-- A patch of a jump that was never written. -/
theorem Desk.Tells.patch_none (h : d.Tells steps) {i : Nat} (hslot : d.slots[i]? = none) :
    d.Tells (steps ++ [.patch i]) := by
  have hjump : (Step.jumpsFrom 0 steps)[i]? = none := by
    rw [← h.slots, List.getElem?_map, Array.getElem?_toList, hslot]
    rfl
  have hkept := Step.instructionsFrom_snoc_patch_of_none 0 hjump
  rw [Nat.zero_add] at hkept
  refine ⟨h.sound, h.proper, ?_, ?_, h.places, ?_, ?_⟩
  · rw [Step.lengthOf_snoc, h.offset]
    rfl
  · exact h.slots.trans (Step.jumpsFrom_snoc_of_none rfl).symm
  · refine h.overflowed.trans (Step.overflows_snoc_of_none ?_).symm
    rw [Step.operand?, hjump]
    rfl
  · intro hfits
    rw [hkept, h.listing hfits]

/-! ## One step, and all of them -/

/-- The bytes that a step may change in code already written: the two of an operand that it sets. -/
def Desk.Touches (d : Desk) (s : Step) (k : Nat) : Prop :=
  ∃ i slot, s = .patch i ∧ d.slots[i]? = some slot ∧ (k = slot.offset + 1 ∨ k = slot.offset + 2)

/-- Each step can be done, tells its instruction and leaves all other bytes alone. -/
theorem Desk.Tells.step {ε : Type} (h : d.Tells steps) {s : Step} (hs : s.Proper) :
    ∃ d', d.step (ε := ε) s = .ok d' ∧ d'.Tells (steps ++ [s]) ∧
      ∀ k < d.assembler.code.length, ¬ d.Touches s k →
        d'.assembler.code[k]? = d.assembler.code[k]? := by
  have hwrite : ∀ (op : UInt8) operand, ∀ k < d.assembler.code.length,
      (d.assembler.write op operand).code[k]? = d.assembler.code[k]? := by
    intro op operand k hk
    rw [code_write, List.getElem?_append_left hk]
  cases s with
  | line n => exact ⟨_, rfl, h.setLine n, fun _ _ _ => rfl⟩
  | emit op =>
    have hplain : hasOperand op = false := decide_eq_false (UInt8.not_le.mpr hs)
    refine ⟨_, ?_, h.emit hs, fun k hk _ => hwrite op none k hk⟩
    rw [Desk.step, Assembler.emit, hplain]
    rfl
  | arg op n =>
    refine ⟨_, ?_, h.arg hs.1 hs.2 n, fun k hk _ => hwrite op (some n) k hk⟩
    rw [Desk.step, emitArg, hasOperand, decide_eq_true hs.1]
    rfl
  | jump op =>
    refine ⟨_, ?_, h.jump hs.1 hs.2, fun k hk _ => hwrite op (some 0) k hk⟩
    rw [Desk.step, emitJump, emitArg, hasOperand, decide_eq_true hs.1]
    rfl
  | jumpTo op target =>
    refine ⟨_, ?_, h.jumpTo hs.1 hs.2 target, fun k hk _ => ?_⟩
    · rw [Desk.step, emitJumpTo, emitJump, emitArg, hasOperand, decide_eq_true hs.1]
      rfl
    · have hend : d.assembler.code.length = d.assembler.offset := by
        rw [code, Bytecode.length_flatMap_bytes, h.sound.offset, sizes]
      rw [getElem?_code_patchTo (sizes_write_jump op _) (startOf_size h.sound.offset op _),
        hwrite op (some 0) k hk]
      · simp only
        omega
      · simp only
        omega
  | patch i =>
    rcases hslot : d.slots[i]? with _ | slot
    · refine ⟨d, ?_, h.patch_none hslot, fun _ _ _ => rfl⟩
      rw [Desk.step, hslot]
      rfl
    · refine ⟨_, ?_, h.patch hslot, fun k _ hk => ?_⟩
      · rw [Desk.step, hslot]
        rfl
      · have hmem := Array.mem_of_getElem? hslot
        refine getElem?_code_patchTo (h.sound.slots slot hmem) (h.places slot hmem) ?_ ?_
        · exact fun hlow => hk ⟨i, slot, rfl, hslot, Or.inl hlow⟩
        · exact fun hhigh => hk ⟨i, slot, rfl, hslot, Or.inr hhigh⟩

/-- All steps can be done. -/
theorem Desk.tells_of_run {ε : Type} (firstLine : UInt32) (h : ∀ s ∈ steps, s.Proper) :
    ∃ d, (Desk.start firstLine).run (ε := ε) steps = .ok d ∧ d.Tells steps := by
  induction steps using List.reverseRecOn with
  | nil => exact ⟨_, rfl, Desk.tells_start firstLine⟩
  | append_singleton steps s ih =>
    obtain ⟨hsteps, hs⟩ := List.forall_mem_append.mp h
    obtain ⟨d, hrun, hd⟩ := ih hsteps
    obtain ⟨d', hstep, hd', -⟩ := hd.step (ε := ε) (List.forall_mem_singleton.mp hs)
    refine ⟨d', ?_, hd'⟩
    rw [Desk.run] at hrun ⊢
    rw [List.foldlM_append, hrun]
    exact Fault.bind_eq_ok.mpr ⟨d, rfl, Fault.bind_eq_ok.mpr ⟨d', hstep, rfl⟩⟩

theorem assemble_of_tells {firstLine : UInt32}
    (hrun : (Desk.start firstLine).run (ε := AssemblyError) steps = .ok d) :
    assemble firstLine steps = Fault.ofError d.assembler.finish := by
  rw [assemble, hrun]
  rfl

/-- A history whose jumps all reach their targets disassembles to what its steps wrote, each
instruction where the code ended then and each jump with the operand of its last patch; one patch
out of reach spoils it, whatever the others do. No step changes a byte already written, but for the
two of the operand that a patch sets. -/
theorem sweeping_gives_back_what_the_steps_wrote (firstLine : UInt32) (steps : List Step)
    (h : ∀ s ∈ steps, s.Proper) :
    (assemble firstLine steps = .error (.error .jumpTooFar) ↔ Step.Overflows steps) ∧
      (¬ Step.Overflows steps → ∃ code table, assemble firstLine steps = .ok (code, table) ∧
        Bytecode.sweep code = some (Step.instructionsFrom 0 0 steps)) ∧
      ∀ before s after, steps = before ++ s :: after → ∃ d d' : Desk,
        (Desk.start firstLine).run (ε := AssemblyError) before = .ok d ∧
          d.step (ε := AssemblyError) s = .ok d' ∧
          (s.size?.isSome = true → (Step.instructionsFrom 0 0 steps)[(before.filterMap
            Step.size?).length]?.map (·.start) = some d.assembler.offset) ∧
          ∀ k < d.assembler.code.length, ¬ d.Touches s k →
            d'.assembler.code[k]? = d.assembler.code[k]? := by
  obtain ⟨d, hrun, hd⟩ := Desk.tells_of_run (ε := AssemblyError) firstLine h
  rw [assemble_of_tells hrun, ← hd.overflowed, finish]
  refine ⟨?_, ?_, ?_⟩
  · cases d.assembler.overflowed <;> simp [Fault.ofError]
  · intro hfits
    rw [Bool.not_eq_true] at hfits
    refine ⟨d.assembler.code, d.assembler.lineTable, ?_, ?_⟩
    · rw [hfits]
      rfl
    · rw [code, Bytecode.sweep_flatMap hd.proper, hd.listing hfits]
  · rintro before s after rfl
    obtain ⟨hbefore, hs, -⟩ := List.forall_mem_append.mp h |>.imp_right List.forall_mem_cons.mp
    obtain ⟨d, hrun, hd⟩ := Desk.tells_of_run (ε := AssemblyError) firstLine hbefore
    obtain ⟨d', hstep, -, hbytes⟩ := hd.step (ε := AssemblyError) hs
    refine ⟨d, d', hrun, hstep, ?_, hbytes⟩
    intro hsome
    rw [Step.start_of_instructionsFrom 0 0 before hsome, hd.offset, Nat.zero_add]

/-- A jump that is patched twice, over an instruction with a wide operand, one that goes back, and
one that is never patched. -/
def patchedHistory : List Step :=
  [.jump 110, .arg 100 0x12345, .patch 0, .emit 1, .patch 0, .jumpTo 113 3, .jump 114, .emit 83]

theorem a_history_with_patches_disassembles : ∃ code table,
    assemble 1 patchedHistory = .ok (code, table) ∧
      Bytecode.sweep code = some [⟨0, 3, 110, some 7⟩, ⟨3, 9, 100, some 0x12345⟩, ⟨9, 10, 1, none⟩,
        ⟨10, 13, 113, some 3⟩, ⟨13, 16, 114, some 0⟩, ⟨16, 17, 83, none⟩] := by
  have hproper : ∀ s ∈ patchedHistory, s.Proper := by
    simp [patchedHistory, Step.Proper, firstWithOperand, extendedOperand]
  obtain ⟨hfails, hsweeps, -⟩ := sweeping_gives_back_what_the_steps_wrote 1 patchedHistory hproper
  refine hsweeps fun hfar => ?_
  have hassemble : assemble 1 patchedHistory = .ok ([110, 7, 0, 145, 1, 0, 100, 69, 35, 1, 113, 3,
    0, 114, 0, 0, 83], []) := by decide +kernel
  rw [hassemble] at hfails
  cases hfails.mpr hfar

end Assembler

end UnitAtlas
