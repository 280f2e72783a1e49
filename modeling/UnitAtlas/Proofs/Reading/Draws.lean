-- What the code of statements looks like. Its parts are those of whole definitions, the starts of
-- lines, and code that defines nothing; the definitions are those of the tree in document order,
-- and each start of a line is that of a node met on the way.
import UnitAtlas.Proofs.Draft.Parts
import UnitAtlas.Proofs.Reading.Nodes
import UnitAtlas.Proofs.Reading.Values
import UnitAtlas.Proofs.Syntax.Suites

namespace UnitAtlas

open Syntax

/-! ## Code that defines nothing -/

namespace Draft

/-- Code that starts no line and builds no class; all units that it makes are those of lambdas. -/
def IsCode : Draft → Prop
  | .seq first second => first.IsCode ∧ second.IsCode
  | .line _ => False
  | .plain op => op ≠ .buildClass
  | .block body => body.IsCode
  | .loop body => body.IsCode
  | .unit shape body => shape.name = Reading.lambdaName ∧ body.IsCode
  | _ => True

@[simp] theorem isCode_skip : skip.IsCode := trivial

@[simp] theorem isCode_append {first second : Draft} :
    (first ++ second).IsCode ↔ first.IsCode ∧ second.IsCode := Iff.rfl

@[simp] theorem isCode_plain {op : Opcode.Plain} : (plain op).IsCode ↔ op ≠ .buildClass := Iff.rfl

@[simp] theorem isCode_counted (op : Opcode.Counted) (n : Nat) : (counted op n).IsCode := trivial

@[simp] theorem isCode_literal (l : Literal) : (literal l).IsCode := trivial

@[simp] theorem isCode_access (what : Opcode.Access) (name : String) :
    (access what name).IsCode := trivial

@[simp] theorem isCode_named (op : Opcode.Named) (name : String) : (named op name).IsCode := trivial

@[simp] theorem isCode_jump (op : Opcode.Jump) (depth : Nat) : (jump op depth).IsCode := trivial

@[simp] theorem isCode_again : again.IsCode := trivial

theorem isCode_all {drafts : List Draft} : (all drafts).IsCode ↔ ∀ d ∈ drafts, d.IsCode := by
  induction drafts with
  | nil => simp [all]
  | cons d ds ih =>
    rw [List.forall_mem_cons, ← ih]
    rfl

theorem isCode_all_map {α : Type} {xs : List α} {use : α → Draft} (h : ∀ x ∈ xs, (use x).IsCode) :
    (all (xs.map use)).IsCode := by
  rw [isCode_all]
  intro d hd
  obtain ⟨x, hx, rfl⟩ := List.mem_map.mp hd
  exact h x hx

theorem closed_isCode : Closed (fun _ => true) IsCode where
  skip := trivial
  fail _ := trivial
  plain _ hop := hop
  counted _ _ := trivial
  literal _ _ := trivial
  access _ _ := trivial
  named _ _ := trivial
  jump _ _ := trivial
  seq _ _ hfirst hsecond := ⟨hfirst, hsecond⟩
  block _ hbody := hbody
  lambda _ _ hname _ hbody := ⟨hname, hbody, by simp⟩

theorem IsCode.parts {d : Draft} (h : d.IsCode) : ∀ q ∈ d.parts, q.IsCode := by
  induction d with
  | skip => simp
  | seq first second ihfirst ihsecond =>
    intro q hq
    rcases List.mem_append.mp hq with hq | hq
    · exact ihfirst h.1 q hq
    · exact ihsecond h.2 q hq
  | block body ih => exact ih h
  | loop body ih => exact ih h
  | _ =>
    intro q hq
    rw [List.mem_singleton.mp hq]
    exact h

end Draft

/-! ## Parts drawn from items -/

namespace Reading

open Draft

/-- The code of a definition and of its decorators, from the start of its line on. -/
def definitionDraft (d : Definition) : Draft :=
  .line d.statement.label.line ++
    if d.isClass then classDefinition (ofNode d.node).place (d.decorators.map ofNode)
    else functionDefinition (ofNode d.node).place (d.decorators.map ofNode)

/-- Parts that follow the items of a tree: every definition is there as a whole, and the statement
that follows it in its suite starts right behind it. Starts may be passed over. -/
inductive Draws : List Draft → List Item → Prop
  | nil : Draws [] []
  | code {q : Draft} {ps : List Draft} {is : List Item} (hq : q.IsCode) (h : Draws ps is) :
      Draws (q :: ps) is
  | start (l : Label) {ps : List Draft} {is : List Item} (h : Draws ps is) :
      Draws (.line l.line :: ps) (.start l :: is)
  | pass (l : Label) {ps : List Draft} {is : List Item} (h : Draws ps is) :
      Draws ps (.start l :: is)
  | definition (d : Definition) {ps : List Draft} {is : List Item}
      (hnext : ∀ l, d.next = some l → ps.head? = some (.line l.line)) (h : Draws ps is) :
      Draws ((definitionDraft d).parts ++ ps) (.definition d :: is)

namespace Draws

variable {ps qs : List Draft} {is js : List Item}

theorem append (h : Draws ps is) (h' : Draws qs js) : Draws (ps ++ qs) (is ++ js) := by
  induction h with
  | nil => exact h'
  | code hq _ ih => exact .code hq ih
  | start l _ ih => exact .start l ih
  | pass l _ ih => exact .pass l ih
  | @definition d ps is hnext _ ih =>
    rw [List.append_assoc]
    refine .definition d ?_ ih
    intro l hl
    rw [List.head?_append, hnext l hl, Option.some_or]

theorem of_isCode (h : ∀ q ∈ ps, q.IsCode) : Draws ps [] := by
  induction ps with
  | nil => exact .nil
  | cons q ps ih =>
    obtain ⟨hq, hps⟩ := List.forall_mem_cons.mp h
    exact .code hq (ih hps)

theorem of_code {d : Draft} (h : d.IsCode) : Draws d.parts [] := of_isCode h.parts

/-- Code around other parts. -/
theorem code_append {d : Draft} (hd : d.IsCode) (h : Draws ps is) : Draws (d.parts ++ ps) is :=
  (of_code hd).append h

theorem append_code {d : Draft} (h : Draws ps is) (hd : d.IsCode) : Draws (ps ++ d.parts) is := by
  have hboth := h.append (of_code hd)
  rwa [List.append_nil] at hboth

/-- Code at the line of a node. -/
theorem line_append (l : Label) {d : Draft} (h : Draws d.parts is) :
    Draws (Draft.line l.line ++ d).parts (.start l :: is) :=
  .start l h

/-- What is drawn from the items after the first is drawn from more items too. -/
theorem keep {i : Item} (hrest : ∀ ps, Draws ps is → Draws ps js) (h : Draws ps (i :: is)) :
    Draws ps (i :: js) := by
  generalize hitems : i :: is = items at h
  induction h with
  | nil => cases hitems
  | code hq _ ih => exact .code hq (ih hitems)
  | start l h =>
    cases hitems
    exact .start l (hrest _ h)
  | pass l h =>
    cases hitems
    exact .pass l (hrest _ h)
  | definition d hnext h =>
    cases hitems
    exact .definition d hnext (hrest _ h)

/-- More starts do no harm. -/
theorem of_thins (hthins : Thins is js) (h : Draws ps is) : Draws ps js := by
  induction hthins generalizing ps with
  | nil => exact h
  | keep i _ ih => exact h.keep fun ps => ih
  | pass l _ ih => exact .pass l (ih h)

end Draws

end Reading

end UnitAtlas
