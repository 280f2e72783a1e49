-- Telling class bodies from functions. Nothing in a nested unit says which of the two it is;
-- the instructions that the parent runs right after building it do.
import UnitAtlas.Window

namespace UnitAtlas

/-- The length of the store to cut off, and the bytes that the window of a class ends with. -/
structure Classifier where
  glue : Nat
  signature : Bytes
  deriving Repr, DecidableEq

namespace Classifier

/-- Whether the range of `code` ends with the signature. An empty signature matches nothing,
and neither does a range that is not within the code. -/
def glueMatches (c : Classifier) (code : Bytes) (range : ByteRange) : Bool :=
  !c.signature.isEmpty &&
    match range.slice? code with
    | some glue => c.signature.isSuffixOf glue
    | none => false

/-- Whether `child` is the body of a class in `parent`. -/
def isClass (c : Classifier) (parent child : CodeUnit) : Except DecodeError Bool := do
  let range ← Window.extract c.glue parent child
  return c.glueMatches parent.info.code range

end Classifier

end UnitAtlas
