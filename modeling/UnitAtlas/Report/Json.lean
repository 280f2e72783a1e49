-- Reports as JSON, two blanks for each level of nesting.
import UnitAtlas.Report.Basic

namespace UnitAtlas

/-- A JSON value, as far as reports need it. -/
inductive JsonValue where
  | text (s : String)
  | number (n : Nat)
  | list (items : List JsonValue)
  | record (fields : List (String × JsonValue))

namespace JsonValue

/-! ## Text -/

/-- A control character by its number. -/
def escaped (c : Char) : List Char :=
  ['\\', 'u', '0', '0'] ++ (Hex.lower [c.toNat.toUInt8]).toList

/-- How a character is written between quotes. -/
def character (c : Char) : List Char :=
  match c with
  | '"' => ['\\', '"']
  | '\\' => ['\\', '\\']
  | '\n' => ['\\', 'n']
  | '\r' => ['\\', 'r']
  | '\t' => ['\\', 't']
  | '\x08' => ['\\', 'b']
  | '\x0c' => ['\\', 'f']
  | c => if c.toNat < 0x20 then escaped c else [c]

def quote (s : String) : String := String.ofList ('"' :: (s.toList.flatMap character ++ ['"']))

/-! ## Layout -/

def indent (depth : Nat) : String := String.ofList (List.replicate (2 * depth) ' ')

/-- Items between brackets, each on a line of its own. -/
def enclosed (opening closing : String) (depth : Nat) (items : List String) : String :=
  if items.isEmpty then opening ++ closing
  else
    let lines := items.map (indent (depth + 1) ++ ·)
    opening ++ "\n" ++ ",\n".intercalate lines ++ "\n" ++ indent depth ++ closing

mutual
/-- A value, written at a depth of nesting. -/
def layout (depth : Nat) : JsonValue → String
  | .text s => quote s
  | .number n => toString n
  | .list items => enclosed "[" "]" depth (layoutItems (depth + 1) items)
  | .record fields => enclosed "\x7b" "\x7d" depth (layoutFields (depth + 1) fields)

def layoutItems (depth : Nat) : List JsonValue → List String
  | [] => []
  | v :: vs => layout depth v :: layoutItems depth vs

def layoutFields (depth : Nat) : List (String × JsonValue) → List String
  | [] => []
  | f :: fs => layoutField depth f :: layoutFields depth fs

def layoutField (depth : Nat) : String × JsonValue → String
  | (name, v) => quote name ++ ": " ++ layout depth v
end

/-- The text of a value. -/
def render (v : JsonValue) : String := layout 0 v

end JsonValue

namespace FileReport

open JsonValue

def elementJson (e : PathElement) : JsonValue :=
  .record [("kind", .text e.kind.word), ("name", .text e.name)]

def entityJson (e : Entity) : JsonValue :=
  .record [
    ("kind", .text e.kind.word),
    ("name", .text e.name),
    ("first_line", .number e.lines.first),
    ("last_line", .number e.lines.last),
    ("byte_start", .number e.window.start),
    ("byte_end", .number e.window.stop),
    ("path", .list (e.path.map elementJson)),
    ("args", .text e.args),
    ("identity", .text e.identity.text)]

def json : FileReport → JsonValue
  | .mapped path entities =>
    .record [("path", .text path), ("entities", .list (entities.map entityJson))]
  | .failed path error => .record [("path", .text path), ("error", .text error)]

/-- Reports as one JSON text. -/
def jsonOfAll (reports : List FileReport) : String := (JsonValue.list (reports.map json)).render

end FileReport

end UnitAtlas
