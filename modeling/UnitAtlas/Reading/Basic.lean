-- Readings: a syntax tree together with what each node means in the places it can stand in.
-- A node's meaning is made of the meanings of the nodes below it, so a reading is built
-- from the leaves up, and every rule for a node is a plain function of its children.
import UnitAtlas.Draft.Basic

namespace UnitAtlas

open Syntax

/-! ## A node among its readings -/

/-- The code of a chain of assignments: how to store into each target, from left to right,
and the value, if there is one. -/
structure AssignmentChain where
  targets : List Draft
  value : Option Draft

/-- What a node means where a value, a target to store into, or a statement is wanted, and as
the body of a statement that no rule knows. `assignment` is for nodes that assign. -/
structure Roles where
  value : Draft
  target : Draft
  statement : Draft
  suite : Draft
  assignment : Except DraftError AssignmentChain

/-- A node whose children are of type `R`. -/
structure Place (R : Type) where
  label : Label
  children : List R

/-- A node with its roles, down to the leaves. -/
inductive Reading where
  | mk (place : Place Reading) (roles : Roles)

namespace Reading

def place : Reading → Place Reading
  | .mk place _ => place

def roles : Reading → Roles
  | .mk _ roles => roles

def label (r : Reading) : Label := r.place.label

def kind (r : Reading) : Kind := r.label.kind

def line (r : Reading) : UInt32 := r.label.line

def text (r : Reading) : String := r.label.text

end Reading

namespace Place

def kind (p : Place Reading) : Kind := p.label.kind

def line (p : Place Reading) : UInt32 := p.label.line

def text (p : Place Reading) : String := p.label.text

/-- The children that the grammar names, without trivia. -/
def named (p : Place Reading) : List Reading :=
  p.children.filter fun r => r.label.named && !r.kind.isTrivia

/-- All children under a field. -/
def fields (p : Place Reading) (f : Field) : List Reading :=
  p.children.filter fun r => r.label.field == some f

/-- The first child under a field. -/
def field? (p : Place Reading) (f : Field) : Option Reading :=
  p.children.find? fun r => r.label.field == some f

/-- The text of the child under a field, for use in a draft, which fails without it. -/
def withText (p : Place Reading) (f : Field) (use : String → Draft) : Draft :=
  Draft.need (p.field? f) (.missingField p.line p.kind f) fun r => use r.text

/-- The values of the named children, one after the other. -/
def operands (p : Place Reading) : Draft := Draft.all (p.named.map (·.roles.value))

/-- The statements of a block. -/
def block (p : Place Reading) : Draft := Draft.all (p.named.map (·.roles.statement))

end Place

namespace Reading

/-- The code of a part that may be missing. -/
def optional (part : Option Reading) (use : Reading → Draft) : Draft :=
  match part with
  | some r => use r
  | none => .skip

/-- The value of the first named child, or `None` if there is none. -/
def firstValue (p : Place Reading) : Draft :=
  match p.named.head? with
  | some r => r.roles.value
  | none => .literal .none

end Reading

end UnitAtlas
