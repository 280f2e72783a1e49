-- Sweeping code from its first byte on. Nothing in the bytes says where instructions begin, so
-- one byte too many or too few spoils all that comes after it. Code that was written instruction
-- by instruction gives exactly these instructions back.
import Mathlib.Algebra.GroupWithZero.Nat
import UnitAtlas.Bytecode.Assembler

namespace UnitAtlas

/-- An instruction found in code: the bytes from `start` up to, not including, `stop`, with the
prefix of a wide operand. -/
structure Instruction where
  start : Nat
  stop : Nat
  op : UInt8
  operand : Option Nat
  deriving Repr, DecidableEq

namespace Instruction

/-- Where a jump goes. A relative one counts from the end of the instruction. -/
def target? (i : Instruction) : Option Nat :=
  i.operand.map fun n => if Opcode.isRelative i.op then i.stop + n else n

end Instruction

namespace Bytecode

/-- The instructions of code read from `here` on, when a prefix from `start` on gave the half
`high` of the operand to come. Code must not end in the middle of an instruction. -/
def sweepFrom (start here high : Nat) : Bytes → Option (List Instruction)
  | [] => if start = here then some [] else none
  | op :: rest =>
    if Opcode.hasOperand op then
      match rest with
      | low :: up :: rest =>
        let operand := high * 0x10000 + up.toNat * 0x100 + low.toNat
        if op = Opcode.extendedOperand then sweepFrom start (here + 3) operand rest
        else (sweepFrom (here + 3) (here + 3) 0 rest).map (⟨start, here + 3, op, some operand⟩ :: ·)
      | _ => none
    else if start = here then
      (sweepFrom (here + 1) (here + 1) 0 rest).map (⟨start, here + 1, op, none⟩ :: ·)
    else none

/-- All instructions of code, if it is made of nothing else. -/
def sweep (code : Bytes) : Option (List Instruction) := sweepFrom 0 0 0 code

end Bytecode

namespace Emission

open Bytecode

/-- An operand is there if the opcode needs one, and the opcode is no prefix itself. -/
structure Proper (e : Emission) : Prop where
  isSome : e.operand.isSome = Opcode.hasOperand e.op
  not_widening : e.op ≠ Opcode.extendedOperand

/-- The instruction that is read where `e` was written. -/
def instruction (offset : Nat) (e : Emission) : Instruction :=
  ⟨offset, offset + e.size, e.op, e.operand.map UInt32.toNat⟩

theorem length_bytes (e : Emission) : e.bytes.length = e.size := by
  unfold bytes size
  split
  · rfl
  · split <;> rfl

theorem half_eq (n : UInt32) :
    ∃ low up, half n = [low, up] ∧ up.toNat * 0x100 + low.toNat = n.toNat % 0x10000 := by
  refine ⟨_, _, rfl, ?_⟩
  simp only [UInt32.toNat_toUInt8, UInt32.toNat_shiftRight, UInt32.reduceToNat,
    Nat.shiftRight_eq_div_pow, Nat.reduceMod, Nat.reducePow]
  omega

theorem sweepFrom_plain {op : UInt8} (hop : Opcode.hasOperand op = false) (here : Nat)
    (rest : Bytes) : sweepFrom here here 0 (op :: rest) =
      (sweepFrom (here + 1) (here + 1) 0 rest).map (⟨here, here + 1, op, none⟩ :: ·) := by
  rw [sweepFrom.eq_def]
  simp [hop]

theorem sweepFrom_half {op : UInt8} (hop : Opcode.hasOperand op = true)
    (hne : op ≠ Opcode.extendedOperand) (start here high : Nat) (n : UInt32) (rest : Bytes) :
    sweepFrom start here high (op :: half n ++ rest) =
      (sweepFrom (here + 3) (here + 3) 0 rest).map
        (⟨start, here + 3, op, some (high * 0x10000 + n.toNat % 0x10000)⟩ :: ·) := by
  obtain ⟨low, up, hhalf, hvalue⟩ := half_eq n
  rw [hhalf, ← hvalue, ← Nat.add_assoc]
  simp only [List.cons_append, List.nil_append, sweepFrom, hop, if_true, if_neg hne]

theorem sweepFrom_widening (here : Nat) (n : UInt32) (rest : Bytes) :
    sweepFrom here here 0 (Opcode.extendedOperand :: half n ++ rest) =
      sweepFrom here (here + 3) (n.toNat % 0x10000) rest := by
  obtain ⟨low, up, hhalf, hvalue⟩ := half_eq n
  have hop : Opcode.hasOperand Opcode.extendedOperand = true := rfl
  rw [hhalf, ← hvalue]
  simp only [List.cons_append, List.nil_append, sweepFrom, hop, if_true, Nat.zero_mul,
    Nat.zero_add]

/-- What is written as one instruction is read as one. -/
theorem sweepFrom_bytes {e : Emission} (h : e.Proper) (here : Nat) (rest : Bytes) :
    sweepFrom here here 0 (e.bytes ++ rest) =
      (sweepFrom (here + e.size) (here + e.size) 0 rest).map (e.instruction here :: ·) := by
  obtain ⟨op, operand, line⟩ := e
  have hop : operand.isSome = Opcode.hasOperand op := h.isSome
  cases operand with
  | none =>
    have hplain : Opcode.hasOperand op = false := hop.symm
    exact sweepFrom_plain hplain here rest
  | some n =>
    have hop : Opcode.hasOperand op = true := hop.symm
    have hlt : n.toNat < 0x100000000 := n.toNat_lt
    by_cases hwide : 0xFFFF < n
    · have hhigh : (n >>> 16).toNat % 0x10000 = n.toNat / 0x10000 := by
        simp only [UInt32.toNat_shiftRight, UInt32.reduceToNat, Nat.shiftRight_eq_div_pow,
          Nat.reduceMod, Nat.reducePow]
        omega
      have hvalue : n.toNat / 0x10000 * 0x10000 + n.toNat % 0x10000 = n.toNat := by omega
      have hbytes : bytes ⟨op, some n, line⟩ ++ rest =
          Opcode.extendedOperand :: half (n >>> 16) ++ (op :: half n ++ rest) := by
        simp [bytes, hwide]
      rw [hbytes, sweepFrom_widening, sweepFrom_half hop h.not_widening, hhigh, hvalue]
      simp [size, instruction, hwide]
    · have hvalue : n.toNat % 0x10000 = n.toNat := by
        rw [UInt32.lt_iff_toNat_lt] at hwide
        simp only [UInt32.reduceToNat] at hwide
        omega
      have hbytes : bytes ⟨op, some n, line⟩ ++ rest = op :: half n ++ rest := by
        simp [bytes, hwide]
      rw [hbytes, sweepFrom_half hop h.not_widening, hvalue]
      simp [size, instruction, hwide]

end Emission

namespace Bytecode

/-- The instructions that are read where emissions were written, from `offset` on. -/
def listing (offset : Nat) : List Emission → List Instruction
  | [] => []
  | e :: es => e.instruction offset :: listing (offset + e.size) es

theorem sweepFrom_flatMap {es : List Emission} (h : ∀ e ∈ es, e.Proper) (offset : Nat) :
    sweepFrom offset offset 0 (es.flatMap Emission.bytes) = some (listing offset es) := by
  induction es generalizing offset with
  | nil => simp [sweepFrom, listing]
  | cons e es ih =>
    obtain ⟨he, hes⟩ := List.forall_mem_cons.mp h
    rw [List.flatMap_cons, Emission.sweepFrom_bytes he, ih hes, listing]
    rfl

/-- Sweeping gives back what was written. -/
theorem sweep_flatMap {es : List Emission} (h : ∀ e ∈ es, e.Proper) :
    sweep (es.flatMap Emission.bytes) = some (listing 0 es) :=
  sweepFrom_flatMap h 0

/-! ## Listings -/

/-- The instruction written after the first `k` is found behind their bytes. -/
theorem getElem?_listing (offset k : Nat) (es : List Emission) :
    (listing offset es)[k]? =
      es[k]?.map (Emission.instruction (offset + ((es.take k).map Emission.size).sum)) := by
  induction es generalizing offset k with
  | nil => rfl
  | cons e es ih =>
    cases k with
    | zero => simp [listing]
    | succ k =>
      rw [listing, List.getElem?_cons_succ, ih, List.getElem?_cons_succ, List.take_succ_cons,
        List.map_cons, List.sum_cons, Nat.add_assoc]

theorem listing_append (offset : Nat) (es : List Emission) (e : Emission) :
    listing offset (es ++ [e]) =
      listing offset es ++ [e.instruction (offset + (es.map Emission.size).sum)] := by
  induction es generalizing offset with
  | nil => rfl
  | cons f fs ih =>
    rw [List.cons_append, listing, ih, listing, List.map_cons, List.sum_cons, Nat.add_assoc]
    rfl

/-- The instructions found are those written, each behind the bytes before it. -/
theorem mem_listing {offset : Nat} {es : List Emission} {i : Instruction} :
    i ∈ listing offset es ↔ ∃ fs e gs, es = fs ++ e :: gs ∧
      i = e.instruction (offset + (fs.map Emission.size).sum) := by
  constructor
  · intro h
    induction es generalizing offset with
    | nil => cases h
    | cons f es ih =>
      rcases List.mem_cons.mp h with rfl | h
      · exact ⟨[], f, es, rfl, rfl⟩
      · obtain ⟨fs, e, gs, rfl, rfl⟩ := ih h
        exact ⟨f :: fs, e, gs, rfl, by rw [List.map_cons, List.sum_cons, Nat.add_assoc]⟩
  · rintro ⟨fs, e, gs, rfl, rfl⟩
    refine List.mem_of_getElem? (i := fs.length) ?_
    rw [getElem?_listing, List.getElem?_append_right (Nat.le_refl _), Nat.sub_self,
      List.take_left' rfl]
    rfl

/-- Instructions follow each other without gaps and fill the code. -/
theorem length_flatMap_bytes (es : List Emission) :
    (es.flatMap Emission.bytes).length = (es.map Emission.size).sum := by
  rw [List.length_flatMap]
  congr 1
  exact List.map_congr_left fun e _ => e.length_bytes

end Bytecode

end UnitAtlas
