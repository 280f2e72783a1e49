-- The map of one source file: read, compiled, and listed with its methods named.
import UnitAtlas.Backend
import UnitAtlas.Entity.Methods
import UnitAtlas.Files.System
import UnitAtlas.Source.Decoding

namespace UnitAtlas.Source

/-- The text of a file as it is compiled, or why it could not be read. -/
def load (fs : FileSystem) (path : String) : Except ErrorChain String :=
  match fs.read path with
  | .ok raw => .ok (prepared raw)
  | .error e => .error (.under s!"Failed to read source file: {path}" ⟨e.message, []⟩)

/-- The entities of a file. -/
def analyze (backend : Backend) (c : Classifier) (fs : FileSystem) (path : String) :
    Except (Fault ErrorChain) (List Entity) := do
  let text ← Fault.ofError (load fs path)
  let u ← Fault.rename (.under s!"Failed to compile {path}") (backend.compile text path)
  let entities ← Fault.rename
    (fun e => .under s!"Failed to build entity tree for {path}" ⟨e.message, []⟩)
    (EntityTree.build c u)
  return EntityTree.labelMethods entities

end UnitAtlas.Source
