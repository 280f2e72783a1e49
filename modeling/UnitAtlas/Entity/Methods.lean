-- Methods: a function directly in a class body is a method, in its own path and in the
-- paths of all that is inside it.
import UnitAtlas.Entity.Tree

namespace UnitAtlas

namespace AncestryPath

/-- The elements after one of kind `before`, relabelled from the left. -/
def methodsAfter (before : UnitKind) : AncestryPath → AncestryPath
  | [] => []
  | e :: rest =>
    let kind := if e.kind = .function ∧ before = .classBody then .method else e.kind
    ⟨kind, e.name⟩ :: methodsAfter kind rest

/-- The path with its methods named; the first element keeps its kind. -/
def labelMethods : AncestryPath → AncestryPath
  | [] => []
  | e :: rest => e :: methodsAfter e.kind rest

end AncestryPath

/-- The entity with the methods of its path named, and its own kind taken from the path. -/
def Entity.labelMethods (e : Entity) : Entity :=
  let path := e.path.labelMethods
  { e with path := path, kind := (path.getLast?.map (·.kind)).getD e.kind }

/-- All entities with their methods named. -/
def EntityTree.labelMethods (entities : List Entity) : List Entity :=
  entities.map Entity.labelMethods

end UnitAtlas
