-- Entities: the named units of a compiled source with their lines and windows, listed from
-- the module down, every parent before its children.
import UnitAtlas.Classifier
import UnitAtlas.Entity.Path
import UnitAtlas.Unit.Identity
import UnitAtlas.Unit.Parameters

namespace UnitAtlas

/-- One unit of the map. The window lies in the instructions of the unit's parent; the root
covers its own instructions. -/
structure Entity where
  kind : UnitKind
  name : String
  lines : LineSpan
  window : ByteRange
  path : AncestryPath
  args : String
  identity : IdentityToken
  deriving Repr, DecidableEq

namespace Entity

/-- What is shown for an entity: its qualified name and its arguments. -/
def displayText (e : Entity) : String := e.path.qualifiedName ++ e.args

/-- The entity of a unit seen as `kind` at `path`. A bad line table is reported before bad
parameters. -/
def ofUnit (u : CodeUnit) (kind : UnitKind) (path : AncestryPath) (window : ByteRange) :
    Except (Fault DecodeError) Entity := do
  let lines ← Fault.ofError (LineTable.resolveSpan u)
  let args ← Parameters.display kind u
  return ⟨kind, u.info.name, lines, window, path, args, IdentityToken.ofUnit u⟩

end Entity

namespace EntityTree

/-- The kind of the unit that `range` of the parent's code builds. -/
def kindOf (c : Classifier) (parent : CodeUnit) (range : ByteRange) : UnitKind :=
  if c.glueMatches parent.info.code range then .classBody else .function

mutual
/-- The entities below a unit at `path`, in order of the constant table, each followed by
what is below it. -/
def below (c : Classifier) (path : AncestryPath) :
    CodeUnit → Except (Fault DecodeError) (List Entity)
  | ⟨info, consts⟩ => belowAll c path ⟨info, consts⟩ consts

/-- The entities that a stretch of the parent's constant table gives. -/
def belowAll (c : Classifier) (path : AncestryPath) (parent : CodeUnit) :
    List (Constant CodeUnit) → Except (Fault DecodeError) (List Entity)
  | [] => return []
  | k :: ks => do
    let here ← belowOne c path parent k
    let later ← belowAll c path parent ks
    return here ++ later

/-- The entities that one constant of the parent gives. -/
def belowOne (c : Classifier) (path : AncestryPath) (parent : CodeUnit) :
    Constant CodeUnit → Except (Fault DecodeError) (List Entity)
  | .literal _ => return []
  | .unit u => do
    let range ← Fault.ofError (Window.extract c.glue parent u)
    let kind := kindOf c parent range
    let childPath := path.child kind u.info.name
    let entity ← Entity.ofUnit u kind childPath range
    let inner ← below c childPath u
    return entity :: inner
end

/-- Every unit reachable from `root`, the root first and seen as a module. -/
def build (c : Classifier) (root : CodeUnit) : Except (Fault DecodeError) (List Entity) := do
  let path : AncestryPath := [⟨.module, root.info.name⟩]
  let first ← Entity.ofUnit root .module path ⟨0, root.info.code.length⟩
  let rest ← below c path root
  return first :: rest

end EntityTree

end UnitAtlas
