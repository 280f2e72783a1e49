-- The identity of a unit: a token drawn from its content, so that the same unit seen again
-- in an unchanged file has the same token.
import UnitAtlas.Digest.Sha256
import UnitAtlas.Text.Hex
import UnitAtlas.Unit.Basic

namespace UnitAtlas

namespace Identity

/-- `count` bytes of a number, the low one first. -/
def littleEndian (count n : Nat) : Bytes := (List.range count).map fun i => (n >>> (8 * i)).toUInt8

/-- The number that bytes stand for, the high one first. -/
def ofBigEndian (bytes : Bytes) : Nat := bytes.foldl (fun n b => n * 256 + b.toNat) 0

/-- What a unit says of itself in its digest: the name closed by a zero byte, the first line,
and the instructions and the line table, each under its length. -/
def ownBytes (info : UnitInfo) : Bytes :=
  info.name.toUTF8.data.toList ++ 0 :: littleEndian 4 info.firstLine.toNat
    ++ littleEndian 8 info.code.length ++ info.code
    ++ littleEndian 8 info.lineTable.length ++ info.lineTable

mutual
/-- The digest of a unit under `hash`: its own bytes, then the digests of the units nested
directly inside it. -/
def digestWith (hash : Bytes → Bytes) : CodeUnit → Bytes
  | ⟨info, consts⟩ => hash (ownBytes info ++ digestsWith hash consts)

/-- The digests of the units in a constant table, one after the other. -/
def digestsWith (hash : Bytes → Bytes) : List (Constant CodeUnit) → Bytes
  | [] => []
  | c :: cs => constantDigestWith hash c ++ digestsWith hash cs

/-- The digest of a nested unit; a literal has none. -/
def constantDigestWith (hash : Bytes → Bytes) : Constant CodeUnit → Bytes
  | .literal _ => []
  | .unit u => digestWith hash u
end

/-- The digest of a unit under SHA-256. -/
def digest (u : CodeUnit) : Bytes := digestWith Sha256.digest u

end Identity

/-- The token of a unit, a word. -/
structure IdentityToken where
  value : Nat
  deriving Repr, DecidableEq

namespace IdentityToken

/-- The first eight bytes of the digest, the high one first. -/
def ofUnit (u : CodeUnit) : IdentityToken := ⟨Identity.ofBigEndian ((Identity.digest u).take 8)⟩

/-- Sixteen upper-case digits. -/
def text (token : IdentityToken) : String :=
  Hex.upper ((Identity.littleEndian 8 token.value).reverse)

end IdentityToken

end UnitAtlas
