-- The shape that all drafts of a source have: whatever is run again and again jumps back to its
-- start, and the code of every unit ends by leaving the unit.
import Mathlib.Data.List.Basic
import UnitAtlas.Draft.Basic

namespace UnitAtlas

/-- A float is one that `f` holds of. -/
@[simp] def Literal.floatIs (f : UInt64 → Bool) : Literal → Bool
  | .float bits => f bits
  | _ => true

namespace Draft

/-- There is a jump back to the start of the loop that this code is in. -/
def GoesBack : Draft → Prop
  | .again => True
  | .seq first second => first.GoesBack ∨ second.GoesBack
  | .block body => body.GoesBack
  | _ => False

/-- The last instruction leaves the unit. -/
def Returns : Draft → Prop
  | .plain op => op = .returnValue
  | .seq _ second => second.Returns
  | _ => False

def WellShaped : Draft → Prop
  | .seq first second => first.WellShaped ∧ second.WellShaped
  | .block body => body.WellShaped
  | .loop body => body.GoesBack ∧ body.WellShaped
  | .unit _ body => body.Returns ∧ body.WellShaped
  | _ => True

/-- A well-shaped draft with floats only that `f` holds of. Its units have one constant at most
before there is code. -/
def Orderly (f : UInt64 → Bool) : Draft → Prop
  | .literal l => l.floatIs f = true
  | .seq first second => first.Orderly f ∧ second.Orderly f
  | .block body => body.Orderly f
  | .loop body => body.GoesBack ∧ body.Orderly f
  | .unit shape body => shape.consts.length ≤ 1 ∧ body.Returns ∧ body.Orderly f
  | _ => True

theorem Orderly.wellShaped {f : UInt64 → Bool} {d : Draft} (h : d.Orderly f) : d.WellShaped := by
  induction d with
  | seq first second ihfirst ihsecond => exact ⟨ihfirst h.1, ihsecond h.2⟩
  | block body ih => exact ih h
  | loop body ih => exact ⟨h.1, ih h.2⟩
  | unit shape body ih => exact ⟨h.2.1, ih h.2.2⟩
  | _ => trivial

/-! ## How drafts are put together -/

@[simp] theorem goesBack_again : again.GoesBack := trivial

@[simp] theorem goesBack_block {body : Draft} : (block body).GoesBack ↔ body.GoesBack := Iff.rfl

@[simp] theorem goesBack_append {first second : Draft} :
    (first ++ second).GoesBack ↔ first.GoesBack ∨ second.GoesBack := Iff.rfl

@[simp] theorem returns_plain {op : Opcode.Plain} :
    (plain op).Returns ↔ op = .returnValue := Iff.rfl

@[simp] theorem returns_append {first second : Draft} :
    (first ++ second).Returns ↔ second.Returns := Iff.rfl

section Orderly

variable {f : UInt64 → Bool}

@[simp] theorem orderly_append {first second : Draft} :
    (first ++ second).Orderly f ↔ first.Orderly f ∧ second.Orderly f := Iff.rfl

@[simp] theorem orderly_block {body : Draft} : (block body).Orderly f ↔ body.Orderly f :=
  Iff.rfl

@[simp] theorem orderly_loop {body : Draft} :
    (loop body).Orderly f ↔ body.GoesBack ∧ body.Orderly f := Iff.rfl

@[simp] theorem orderly_unit {shape : UnitShape} {body : Draft} :
    (unit shape body).Orderly f ↔
      shape.consts.length ≤ 1 ∧ body.Returns ∧ body.Orderly f := Iff.rfl

@[simp] theorem orderly_all {drafts : List Draft} :
    (all drafts).Orderly f ↔ ∀ d ∈ drafts, d.Orderly f := by
  induction drafts with
  | nil => simp [all, Orderly]
  | cons d ds ih =>
    rw [List.forall_mem_cons, ← ih]
    rfl

/-- What is made of each of some things, one after the other. -/
theorem orderly_all_map {α : Type} {xs : List α} {use : α → Draft}
    (h : ∀ x ∈ xs, (use x).Orderly f) : (all (xs.map use)).Orderly f := by
  rw [orderly_all]
  intro d hd
  obtain ⟨x, hx, rfl⟩ := List.mem_map.mp hd
  exact h x hx

theorem orderly_need {α : Type} {part : Option α} {e : DraftError} {use : α → Draft}
    (h : ∀ a, part = some a → (use a).Orderly f) : (need part e use).Orderly f := by
  cases part with
  | none => trivial
  | some a => exact h a rfl

/-! ## Drafts without parts -/

@[simp] theorem orderly_skip : skip.Orderly f := trivial

@[simp] theorem orderly_fail (e : DraftError) : (fail e).Orderly f := trivial

@[simp] theorem orderly_line (n : UInt32) : (line n).Orderly f := trivial

@[simp] theorem orderly_plain (op : Opcode.Plain) : (plain op).Orderly f := trivial

@[simp] theorem orderly_counted (op : Opcode.Counted) (n : Nat) : (counted op n).Orderly f :=
  trivial

@[simp] theorem orderly_literal {l : Literal} :
    (literal l).Orderly f ↔ l.floatIs f = true := Iff.rfl

@[simp] theorem orderly_access (what : Opcode.Access) (name : String) :
    (access what name).Orderly f := trivial

@[simp] theorem orderly_load (name : String) : (load name).Orderly f := trivial

@[simp] theorem orderly_store (name : String) : (store name).Orderly f := trivial

@[simp] theorem orderly_named (op : Opcode.Named) (name : String) :
    (named op name).Orderly f := trivial

@[simp] theorem orderly_declareGlobal (name : String) : (declareGlobal name).Orderly f :=
  trivial

@[simp] theorem orderly_jump (op : Opcode.Jump) (depth : Nat) : (jump op depth).Orderly f :=
  trivial

@[simp] theorem orderly_again : again.Orderly f := trivial

@[simp] theorem orderly_continueLoop : continueLoop.Orderly f := trivial

end Orderly

end Draft

end UnitAtlas
