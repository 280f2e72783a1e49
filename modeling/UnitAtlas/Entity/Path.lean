-- Kinds of units, and the path from the module down to one of them.

namespace UnitAtlas

/-- What a unit was compiled from. -/
inductive UnitKind where
  | module
  | function
  | method
  | classBody
  | unknown
  deriving Repr, DecidableEq

namespace UnitKind

/-- Functions and methods have arguments; their inner units hang on an `@`. -/
def takesArguments : UnitKind → Bool
  | .function | .method => true
  | _ => false

/-- The word for a kind in written entity maps. -/
def word : UnitKind → String
  | .module => "module"
  | .function => "function"
  | .method => "method"
  | .classBody => "class"
  | .unknown => "unknown"

end UnitKind

/-- One step of a path. -/
structure PathElement where
  kind : UnitKind
  name : String
  deriving Repr, DecidableEq

/-- The way from the root to an entity, both included. -/
abbrev AncestryPath := List PathElement

namespace AncestryPath

def child (path : AncestryPath) (kind : UnitKind) (name : String) : AncestryPath :=
  path ++ [⟨kind, name⟩]

/-- What stands between an element and the next: `@` after a function or method, else `.`. -/
def separator (kind : UnitKind) : String := if kind.takesArguments then "@" else "."

/-- The names joined, each element's separator after it. -/
def joined : AncestryPath → String
  | [] => ""
  | [e] => e.name
  | e :: rest => e.name ++ separator e.kind ++ joined rest

theorem joined_cons_cons (e f : PathElement) (rest : AncestryPath) :
    joined (e :: f :: rest) = e.name ++ separator e.kind ++ joined (f :: rest) := rfl

/-- The display name: a leading module is left out unless it is the whole path. -/
def qualifiedName : AncestryPath → String
  | ⟨.module, _⟩ :: e :: rest => joined (e :: rest)
  | path => joined path

end AncestryPath

end UnitAtlas
