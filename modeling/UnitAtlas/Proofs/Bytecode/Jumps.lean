-- Jumps and where they land. A jump is written before its target is known, so it first goes to a
-- place that is always there; setting its target later moves it to another instruction and
-- changes no place in the code.
import Mathlib.Data.List.Infix
import UnitAtlas.Proofs.Bytecode.History
import UnitAtlas.Proofs.Bytecode.Operands
import UnitAtlas.Proofs.Bytecode.Sweep

namespace UnitAtlas

open Opcode

theorem Emission.size_of_short {e : Emission} {n : UInt32} (h : e.operand = some n)
    (hlt : n.toNat < 0x10000) : e.size = 3 := by
  have hshort : ¬ (0xFFFF : UInt32) < n := by
    rw [UInt32.lt_iff_toNat_lt]
    simp only [UInt32.reduceToNat]
    omega
  rw [size, h]
  exact if_neg hshort

namespace Assembler

variable {a a' : Assembler} {t t' : TableSizes}

/-! ## Starts of instructions -/

/-- Where the instruction stands that was written after the first `k`. -/
def startOf (a : Assembler) (k : Nat) : Nat := (a.sizes.take k).sum

/-- An instruction starts here: one of those written, or the one that is written next. -/
def IsStart (a : Assembler) (place : Nat) : Prop := ∃ k ≤ a.sizes.length, a.startOf k = place

theorem startOf_eq (h : a.sizes <+: a'.sizes) {k : Nat} (hk : k ≤ a.sizes.length) :
    a'.startOf k = a.startOf k := by
  obtain ⟨later, hlater⟩ := h
  rw [startOf, startOf, ← hlater, List.take_append_of_le_length hk]

theorem IsStart.mono {place : Nat} (h : a.IsStart place) (hsizes : a.sizes <+: a'.sizes) :
    a'.IsStart place := by
  obtain ⟨k, hk, rfl⟩ := h
  exact ⟨k, Nat.le_trans hk hsizes.length_le, startOf_eq hsizes hk⟩

theorem isStart_zero (a : Assembler) : a.IsStart 0 := ⟨0, Nat.zero_le _, by simp [startOf]⟩

theorem isStart_end (a : Assembler) : a.IsStart a.sizes.sum :=
  ⟨a.sizes.length, Nat.le_refl _, by rw [startOf, List.take_length]⟩

theorem startOf_succ {k : Nat} {e : Emission} (h : a.emitted.toList[k]? = some e) :
    a.startOf (k + 1) = a.startOf k + e.size := by
  have hsize : a.sizes[k]? = some e.size := by rw [sizes, List.getElem?_map, h, Option.map_some]
  rw [startOf, startOf, List.take_add_one, hsize, List.sum_append]
  simp

theorem lt_length_sizes {k : Nat} {e : Emission} (h : a.emitted.toList[k]? = some e) :
    k < a.sizes.length := by
  rw [sizes, List.length_map]
  exact (List.getElem?_eq_some_iff.mp h).1

theorem startOf_le_sum (a : Assembler) (k : Nat) : a.startOf k ≤ a.sizes.sum := by
  have h : (a.sizes.take k).sum + (a.sizes.drop k).sum = a.sizes.sum := by
    rw [← List.sum_append, List.take_append_drop]
  rw [startOf]
  omega

/-! ## Sound code -/

/-- Where the operand `n` leads from an instruction of three bytes at `place`. -/
def landing (op : UInt8) (place n : Nat) : Nat := if isRelative op then place + 3 + n else n

/-- What an instruction should be: one that can be read back, with an operand within its table, or
within two bytes and leading to the start of an instruction. -/
structure Fits (a : Assembler) (t : TableSizes) (k : Nat) (e : Emission) : Prop where
  proper : e.Proper
  holds : ∀ n, e.operand = some n → t.Holds e.op n.toNat
  lands : ∀ j : Jump, e.op = j.byte → ∃ n, e.operand = some n ∧ n.toNat < 0x10000 ∧
    a.IsStart (landing e.op (a.startOf k) n.toNat)

structure Sound (a : Assembler) (t : TableSizes) : Prop where
  offset : a.offset = a.sizes.sum
  fits : ∀ k e, a.emitted.toList[k]? = some e → a.Fits t k e

/-- The slot is that of a jump that was written. -/
structure HasSlot (a : Assembler) (slot : JumpSlot) : Prop where
  jump : ∃ j : Jump, slot.op = j.byte
  offset : slot.offset = a.startOf slot.index
  written : ∃ e, a.emitted.toList[slot.index]? = some e ∧ e.op = slot.op

theorem Fits.mono {k : Nat} {e : Emission} (h : a.Fits t k e) (hk : k ≤ a.sizes.length)
    (hsizes : a.sizes <+: a'.sizes) (hle : t.Le t') : a'.Fits t' k e where
  proper := h.proper
  holds n hn := (h.holds n hn).mono hle
  lands j hj := by
    obtain ⟨n, hn, hlt, hstart⟩ := h.lands j hj
    refine ⟨n, hn, hlt, ?_⟩
    rw [startOf_eq hsizes hk]
    exact hstart.mono hsizes

theorem sound_start (firstLine : UInt32) (t : TableSizes) : (start firstLine).Sound t :=
  ⟨rfl, by simp [start]⟩

theorem Sound.setLine (h : a.Sound t) (n : UInt32) : (a.setLine n).Sound t := by
  refine ⟨h.offset, ?_⟩
  intro k e he
  have hk := Nat.le_of_lt (lt_length_sizes (a := a) he)
  exact (h.fits k e he).mono hk (List.prefix_refl _) (TableSizes.Le.refl t)

/-! ## Writing -/

section Write

variable {op : UInt8} {operand : Option UInt32}

theorem sizes_prefix_write (op : UInt8) (operand : Option UInt32) (a : Assembler) :
    a.sizes <+: (a.write op operand).sizes := by
  rw [sizes_write]
  exact List.prefix_append _ _

theorem getElem?_write (op : UInt8) (operand : Option UInt32) (a : Assembler) (k : Nat) :
    (a.write op operand).emitted.toList[k]? =
      if k = a.sizes.length then some ⟨op, operand, a.line⟩ else a.emitted.toList[k]? := by
  simp only [write, Array.toList_push, sizes, List.length_map]
  split
  · rename_i hk
    simp [hk]
  · rename_i hk
    by_cases hlt : k < a.emitted.toList.length
    · rw [List.getElem?_append_left hlt]
    · rw [List.getElem?_eq_none (by simp at hlt hk ⊢; omega), List.getElem?_eq_none (by omega)]

theorem Sound.write (h : a.Sound t) (hle : t.Le t')
    (hproper : Emission.Proper ⟨op, operand, a.line⟩)
    (hholds : ∀ n, operand = some n → t'.Holds op n.toNat)
    (hlands : ∀ j : Jump, op = j.byte → ∃ n, operand = some n ∧ n.toNat < 0x10000 ∧
      (a.write op operand).IsStart (landing op a.offset n.toNat)) :
    (a.write op operand).Sound t' := by
  have hsizes := sizes_prefix_write op operand a
  have hend : (a.write op operand).startOf a.sizes.length = a.offset := by
    rw [startOf_eq hsizes (Nat.le_refl _), h.offset, startOf, List.take_length]
  refine ⟨?_, ?_⟩
  · show a.offset + _ = _
    rw [sizes_write, List.sum_append, ← h.offset]
    rfl
  · intro k e he
    rw [getElem?_write] at he
    split at he
    · -- The new instruction stands behind all others, which stay as they were.
      rename_i hk
      cases he
      refine ⟨hproper, hholds, ?_⟩
      intro j hj
      rw [hk, hend]
      exact hlands j hj
    · exact (h.fits k e he).mono (Nat.le_of_lt (lt_length_sizes he)) hsizes hle

/-- An instruction that goes nowhere. -/
theorem Sound.write_accepts (h : a.Sound t) (hle : t.Le t') (haccepts : t'.Accepts op operand) :
    (a.write op operand).Sound t' := by
  refine h.write hle ⟨haccepts.isSome, haccepts.not_widening⟩ haccepts.holds ?_
  intro j hj
  exact absurd hj (haccepts.not_jump j)

/-- A jump to a place already passed, or to be set later. -/
theorem Sound.write_jump (h : a.Sound t) (j : Jump) (n : UInt32) (hlt : n.toNat < 0x10000)
    (hstart : (a.write j.byte (some n)).IsStart (landing j.byte a.offset n.toNat)) :
    (a.write j.byte (some n)).Sound t := by
  refine h.write (TableSizes.Le.refl t) ⟨?_, ?_⟩ ?_ ?_
  · exact (hasOperand_of_family j.family).symm
  · exact ne_of_family j.family extendedOperand_family (by decide)
  · intro n _
    exact TableSizes.holds_of_family j.family nofun nofun nofun
  · intro _ _
    exact ⟨n, rfl, hlt, hstart⟩

/-- A jump just written goes to what comes next, or to the first instruction. -/
theorem isStart_write_open (h : a.Sound t) (j : Jump) :
    (a.write j.byte (some 0)).IsStart (landing j.byte a.offset 0) := by
  unfold landing
  split
  · have hsum : (a.write j.byte (some 0)).sizes.sum = a.offset + 3 := by
      rw [sizes_write, List.sum_append, ← h.offset]
      rfl
    rw [Nat.add_zero, ← hsum]
    exact isStart_end _
  · exact isStart_zero _

theorem HasSlot.write {slot : JumpSlot} (h : a.HasSlot slot) (op : UInt8)
    (operand : Option UInt32) : (a.write op operand).HasSlot slot := by
  obtain ⟨e, he, hop⟩ := h.written
  have hlt := lt_length_sizes he
  refine ⟨h.jump, ?_, e, ?_, hop⟩
  · rw [startOf_eq (sizes_prefix_write op operand a) (Nat.le_of_lt hlt), h.offset]
  · rw [getElem?_write, if_neg (Nat.ne_of_lt hlt), he]

theorem hasSlot_write (h : a.Sound t) (j : Jump) :
    (a.write j.byte (some 0)).HasSlot ⟨a.emitted.size, j.byte, a.offset⟩ := by
  have hsize : a.emitted.size = a.sizes.length := by simp [sizes]
  refine ⟨⟨j, rfl⟩, ?_, ⟨j.byte, some 0, a.line⟩, ?_, rfl⟩
  · show a.offset = _
    rw [hsize, startOf_eq (sizes_prefix_write _ _ a) (Nat.le_refl _), h.offset, startOf,
      List.take_length]
  · rw [getElem?_write, if_pos hsize]

end Write

/-! ## Setting a target -/

section Patch

variable {slot : JumpSlot} {target : Nat}

theorem Sound.size_of_slot (h : a.Sound t) (hslot : a.HasSlot slot) :
    a.sizes[slot.index]? = some 3 := by
  obtain ⟨j, hj⟩ := hslot.jump
  obtain ⟨e, he, hop⟩ := hslot.written
  obtain ⟨n, hn, hlt, -⟩ := (h.fits _ e he).lands j (hop.trans hj)
  rw [sizes, List.getElem?_map, he, Option.map_some, e.size_of_short hn hlt]

/-- What is written next stands behind a jump, which has three bytes. -/
theorem Sound.slot_add_le (h : a.Sound t) (hslot : a.HasSlot slot) :
    slot.offset + 3 ≤ a.offset := by
  obtain ⟨e, he, -⟩ := hslot.written
  have hsize := h.size_of_slot hslot
  rw [sizes, List.getElem?_map, he, Option.map_some, Option.some.injEq] at hsize
  have hnext := startOf_succ he
  have hle := a.startOf_le_sum (slot.index + 1)
  rw [h.offset, hslot.offset]
  omega

theorem getElem?_patchTo (hnear : jumpOperand slot.op slot.offset target < 0x10000) (k : Nat) :
    (a.patchTo slot target).emitted.toList[k]? = a.emitted.toList[k]?.map fun e =>
      if slot.index = k then
        { e with operand := some (UInt32.ofNat (jumpOperand slot.op slot.offset target)) }
      else e := by
  rw [patchTo]
  simp only [if_pos hnear, Array.toList_modify, List.getElem?_modify]
  split <;> simp

/-- The operand that is set leads to the target. -/
theorem landing_jumpOperand {op : UInt8} {place target : Nat}
    (hahead : isRelative op = true → place + 3 ≤ target) :
    landing op place (jumpOperand op place target) = target := by
  unfold landing jumpOperand
  split
  · rename_i hop
    have := hahead hop
    omega
  · rfl

theorem Sound.patchTo (h : a.Sound t) (hslot : a.HasSlot slot) (htarget : a.IsStart target)
    (hahead : isRelative slot.op = true → slot.offset + 3 ≤ target)
    (hnear : jumpOperand slot.op slot.offset target < 0x10000) :
    (a.patchTo slot target).Sound t := by
  have hsizes := sizes_patchTo slot target a (h.size_of_slot hslot)
  have hfront : a.sizes <+: (a.patchTo slot target).sizes := by rw [hsizes]
  refine ⟨?_, ?_⟩
  · rw [hsizes, (patchTo_keeps slot target a).2.2, h.offset]
  · intro k e he
    rw [getElem?_patchTo hnear] at he
    obtain ⟨e, he', rfl⟩ := Option.map_eq_some_iff.mp he
    have hk := Nat.le_of_lt (lt_length_sizes he')
    have hfits := (h.fits k e he').mono hk hfront (TableSizes.Le.refl t)
    split
    · -- The instruction of the slot keeps its opcode and its place; only its operand is new.
      rename_i hindex
      subst hindex
      obtain ⟨j, hj⟩ := hslot.jump
      obtain ⟨e', he'', hop⟩ := hslot.written
      obtain rfl : e = e' := Option.some.inj (he'.symm.trans he'')
      have hj : e.op = j.byte := hop.trans hj
      refine ⟨⟨?_, hfits.proper.not_widening⟩, ?_, ?_⟩
      · rw [hj, hasOperand_of_family j.family]
        rfl
      · intro n _
        show t.Holds e.op n.toNat
        rw [hj]
        exact TableSizes.holds_of_family j.family nofun nofun nofun
      · intro _ _
        have hvalue : (UInt32.ofNat (jumpOperand slot.op slot.offset target)).toNat =
            jumpOperand slot.op slot.offset target := by
          rw [UInt32.toNat_ofNat']
          exact Nat.mod_eq_of_lt (by omega)
        refine ⟨_, rfl, by rw [hvalue]; exact hnear, ?_⟩
        show IsStart _ (landing e.op _ _)
        rw [hvalue, startOf_eq hfront hk, hop, ← hslot.offset, landing_jumpOperand hahead]
        exact htarget.mono hfront
    · exact hfits

theorem HasSlot.patchTo {other : JumpSlot} (hother : a.HasSlot other) (h : a.Sound t)
    (hslot : a.HasSlot slot) (hnear : jumpOperand slot.op slot.offset target < 0x10000) :
    (a.patchTo slot target).HasSlot other := by
  have hsizes := sizes_patchTo slot target a (h.size_of_slot hslot)
  obtain ⟨e, he, hop⟩ := hother.written
  refine ⟨hother.jump, ?_, ?_⟩
  · rw [hother.offset, startOf, startOf, hsizes]
  · rw [getElem?_patchTo hnear, he]
    refine ⟨_, rfl, ?_⟩
    split <;> exact hop

end Patch

end Assembler

end UnitAtlas
