-- The families of opcodes. Each opcode is in one of them, and its family says what stands behind
-- it: nothing, an index into a table of the unit, a place in the code, or a plain number.
import Mathlib.Tactic.SplitIfs
import UnitAtlas.Bytecode.Opcode
import UnitAtlas.Unit.Basic

namespace UnitAtlas

namespace Opcode

/-! ## Families -/

inductive Family where
  | plain | counted | constant | named | variable | jump | widening
  deriving DecidableEq

def family? (op : UInt8) : Option Family :=
  if op < firstWithOperand then some .plain
  else if op = loadConst then some .constant
  else if op = extendedOperand then some .widening
  else if [124, 125, 126].contains op then some .variable
  else if [92, 102, 103, 104, 105, 107, 130, 131, 132].contains op then some .counted
  else if [90, 91, 95, 96, 97, 98, 101, 106, 108, 109, 116].contains op then some .named
  else if [93, 110, 111, 112, 113, 114, 115, 119, 120, 121, 122, 143].contains op then some .jump
  else none

theorem Plain.family (op : Plain) : family? op.byte = some .plain := by
  cases op <;> rfl

theorem Counted.family (op : Counted) : family? op.byte = some .counted := by
  cases op <;> rfl

theorem Named.family (op : Named) : family? op.byte = some .named := by
  cases op <;> rfl

theorem Access.family (what : Access) : family? what.localByte = some .variable := by
  cases what <;> rfl

theorem Jump.family (op : Jump) : family? op.byte = some .jump := by
  cases op <;> rfl

theorem loadConst_family : family? loadConst = some .constant := rfl

theorem extendedOperand_family : family? extendedOperand = some .widening := rfl

/-- The plain opcodes are those without an operand. -/
theorem hasOperand_of_family {op : UInt8} {f : Family} (h : family? op = some f) :
    hasOperand op = decide (f ≠ .plain) := by
  unfold family? at h
  by_cases hop : op < firstWithOperand
  · rw [if_pos hop] at h
    cases h
    simpa [hasOperand] using hop
  · rw [if_neg hop] at h
    have hf : f ≠ .plain := by
      rintro rfl
      split_ifs at h <;> cases h
    simpa [hasOperand, hf] using hop

theorem ne_of_family {op op' : UInt8} {f f' : Family} (h : family? op = some f)
    (h' : family? op' = some f') (hne : f ≠ f') : op ≠ op' := by
  rintro rfl
  rw [h] at h'
  cases h'
  exact hne rfl

end Opcode

/-! ## Tables -/

/-- The sizes of the tables that operands are indices into. -/
structure TableSizes where
  consts : Nat
  names : Nat
  varNames : Nat

def CodeUnit.tableSizes (u : CodeUnit) : TableSizes :=
  ⟨u.consts.length, u.info.names.length, u.info.varNames.length⟩

namespace TableSizes

open Opcode

/-- An operand that is an index into a table is one of its entries. -/
structure Holds (t : TableSizes) (op : UInt8) (operand : Nat) : Prop where
  consts : op = loadConst → operand < t.consts
  names : ∀ o : Named, op = o.byte → operand < t.names
  varNames : ∀ what : Access, op = what.localByte → operand < t.varNames

theorem holds_of_family {t : TableSizes} {op : UInt8} {f : Family} {operand : Nat}
    (h : family? op = some f) (hconsts : f = .constant → operand < t.consts)
    (hnames : f = .named → operand < t.names) (hvars : f = .variable → operand < t.varNames) :
    t.Holds op operand := by
  refine ⟨?_, ?_, ?_⟩
  · rintro rfl
    rw [loadConst_family] at h
    cases h
    exact hconsts rfl
  · rintro o rfl
    rw [o.family] at h
    cases h
    exact hnames rfl
  · rintro what rfl
    rw [what.family] at h
    cases h
    exact hvars rfl

/-- No table has lost entries. -/
structure Le (t t' : TableSizes) : Prop where
  consts : t.consts ≤ t'.consts
  names : t.names ≤ t'.names
  varNames : t.varNames ≤ t'.varNames

theorem Le.refl (t : TableSizes) : t.Le t :=
  ⟨Nat.le_refl _, Nat.le_refl _, Nat.le_refl _⟩

theorem Holds.mono {t t' : TableSizes} {op : UInt8} {operand : Nat} (h : t.Holds op operand)
    (hle : t.Le t') : t'.Holds op operand where
  consts hop := Nat.lt_of_lt_of_le (h.consts hop) hle.consts
  names o hop := Nat.lt_of_lt_of_le (h.names o hop) hle.names
  varNames what hop := Nat.lt_of_lt_of_le (h.varNames what hop) hle.varNames

/-- An instruction that goes nowhere and whose operand is there if it needs one, within its
table. -/
structure Accepts (t : TableSizes) (op : UInt8) (operand : Option UInt32) : Prop where
  isSome : operand.isSome = hasOperand op
  not_widening : op ≠ extendedOperand
  not_jump : ∀ j : Jump, op ≠ j.byte
  holds : ∀ n, operand = some n → t.Holds op n.toNat

theorem accepts_plain (t : TableSizes) (op : Plain) : t.Accepts op.byte none where
  isSome := by rw [hasOperand_of_family op.family]; rfl
  not_widening := ne_of_family op.family extendedOperand_family (by decide)
  not_jump j := ne_of_family op.family j.family (by decide)
  holds := nofun

/-- An index is written with 32 bits, which makes it no larger. -/
theorem accepts_index {t : TableSizes} {op : UInt8} {f : Family} {i : Nat}
    (h : family? op = some f) (hf : f ≠ .plain ∧ f ≠ .widening ∧ f ≠ .jump)
    (hconsts : f = .constant → i < t.consts) (hnames : f = .named → i < t.names)
    (hvars : f = .variable → i < t.varNames) : t.Accepts op (some (UInt32.ofNat i)) where
  isSome := by simp [hasOperand_of_family h, hf.1]
  not_widening := ne_of_family h extendedOperand_family hf.2.1
  not_jump j := ne_of_family h j.family hf.2.2
  holds := by
    rintro n hn
    cases hn
    have hle : (UInt32.ofNat i).toNat ≤ i := by
      rw [UInt32.toNat_ofNat']
      exact Nat.mod_le _ _
    exact holds_of_family h (fun hf => Nat.lt_of_le_of_lt hle (hconsts hf))
      (fun hf => Nat.lt_of_le_of_lt hle (hnames hf)) (fun hf => Nat.lt_of_le_of_lt hle (hvars hf))

end TableSizes

end UnitAtlas
