-- Frames of the query protocol. Every integer is four bytes, signed, the low byte first. A
-- frame starts with a count: 0 for a missing file, -1 for one that could not be mapped, else
-- the number of entities, each as first line, name length, text length, name, text.
import UnitAtlas.Entity.Tree
import UnitAtlas.Text.Chain
import UnitAtlas.Text.Utf8

namespace UnitAtlas

/-- What an entity is on the wire. -/
structure EntityFrame where
  firstLine : Nat
  name : String
  text : String
  deriving Repr, DecidableEq

/-- The answer to one request. -/
inductive Response where
  | missing
  | failed
  | entities (frames : List EntityFrame)
  deriving Repr, DecidableEq

/-- Why a response has no frame: a number that is too large for its field. -/
inductive FrameError where
  | line (n : Nat)
  | length (what : String) (n : Nat)
  deriving Repr, DecidableEq

def FrameError.chain : FrameError → ErrorChain
  | .line n =>
    ⟨s!"Line {n} does not fit a frame", ["number too large to fit in target type"]⟩
  | .length what n =>
    ⟨s!"{what} {n} does not fit a frame", ["number too large to fit in target type"]⟩

namespace Wire

/-! ## Integers -/

/-- The four bytes of an integer, negative ones counted down from 2 to the 32. -/
def int32 (n : Int) : Bytes := Identity.littleEndian 4 (n % 0x100000000).toNat

/-- Numbers below this bound have a field of their own. -/
def fieldBound : Nat := 0x80000000

def field (e : FrameError) (n : Nat) : Except FrameError Bytes :=
  if n < fieldBound then .ok (int32 n) else .error e

def lengthField (what : String) (n : Nat) : Except FrameError Bytes := field (.length what n) n

/-- The integer at the start, and what follows it. -/
def takeInt : Bytes → Option (Int × Bytes)
  | a :: b :: c :: d :: rest =>
    let n := a.toNat + 256 * b.toNat + 65536 * c.toNat + 16777216 * d.toNat
    some (if n < fieldBound then (n : Int) else (n : Int) - 0x100000000, rest)
  | _ => none

/-- The integer at the start when it is not negative. -/
def takeNat (bytes : Bytes) : Option (Nat × Bytes) := do
  let (n, rest) ← takeInt bytes
  if n < 0 then none else some (n.toNat, rest)

/-! ## Text -/

/-- The first `len` bytes as text; none when there are fewer or they are not UTF-8. -/
def takeText (len : Nat) (bytes : Bytes) : Option (String × Bytes) := do
  if bytes.length < len then none
  let text ← String.fromUTF8? ⟨(bytes.take len).toArray⟩
  return (text, bytes.drop len)

/-! ## Entities -/

def encodeEntity (e : EntityFrame) : Except FrameError Bytes := do
  let line ← field (.line e.firstLine) e.firstLine
  let nameLength ← lengthField "name length" (Utf8.encode e.name).length
  let textLength ← lengthField "text length" (Utf8.encode e.text).length
  return line ++ nameLength ++ textLength ++ Utf8.encode e.name ++ Utf8.encode e.text

def encodeEntities : List EntityFrame → Except FrameError Bytes
  | [] => return []
  | e :: es => do
    let here ← encodeEntity e
    let later ← encodeEntities es
    return here ++ later

def takeEntity (bytes : Bytes) : Option (EntityFrame × Bytes) := do
  let (firstLine, bytes) ← takeNat bytes
  let (nameLength, bytes) ← takeNat bytes
  let (textLength, bytes) ← takeNat bytes
  let (name, bytes) ← takeText nameLength bytes
  let (text, bytes) ← takeText textLength bytes
  return (⟨firstLine, name, text⟩, bytes)

def takeEntities : Nat → Bytes → Option (List EntityFrame × Bytes)
  | 0, bytes => some ([], bytes)
  | count + 1, bytes => do
    let (e, bytes) ← takeEntity bytes
    let (es, bytes) ← takeEntities count bytes
    return (e :: es, bytes)

/-! ## Statuses -/

/-- The answer to a handshake: 1 when it was understood, 0 when not. -/
def status (ready : Bool) : Bytes := int32 (if ready then 1 else 0)

end Wire

namespace EntityFrame

def ofEntity (e : Entity) : EntityFrame := ⟨e.lines.first, e.name, e.displayText⟩

end EntityFrame

namespace Response

open Wire

def ofEntities (entities : List Entity) : Response := .entities (entities.map EntityFrame.ofEntity)

/-- The whole frame, or the first number in it that is too large. -/
def encode : Response → Except FrameError Bytes
  | .missing => return int32 0
  | .failed => return int32 (-1)
  | .entities frames => do
    let count ← lengthField "entity count" frames.length
    let body ← encodeEntities frames
    return count ++ body

/-- The least number of bytes of an entity. -/
def entityHeader : Nat := 12

/-- The response at the start, and what follows its frame. A count that the remaining bytes
cannot hold is refused at once. -/
def take (bytes : Bytes) : Option (Response × Bytes) := do
  let (count, rest) ← takeInt bytes
  if count = 0 then return (.missing, rest)
  if count = -1 then return (.failed, rest)
  if count < 0 ∨ rest.length / entityHeader < count.toNat then none
  let (frames, rest) ← takeEntities count.toNat rest
  return (.entities frames, rest)

/-- The response at the start, and the number of bytes of its frame. -/
def decode (bytes : Bytes) : Option (Response × Nat) := do
  let (response, rest) ← take bytes
  return (response, bytes.length - rest.length)

end Response

end UnitAtlas
