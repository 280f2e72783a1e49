-- Text in double quotes, as error messages show it.
import UnitAtlas.Text.Unseen

namespace UnitAtlas.Quoted

/-- The hexadecimal digits of a number, none too many. -/
def hexDigits (n : Nat) : List Char := Nat.toDigits 16 n

/-- A code point by its number. -/
def byNumber (c : Char) : List Char :=
  ['\\', 'u', '\x7b'] ++ hexDigits c.toNat ++ ['\x7d']

/-- How a character is written between quotes. -/
def character (c : Char) : List Char :=
  match c with
  | '\x00' => ['\\', '0']
  | '\t' => ['\\', 't']
  | '\r' => ['\\', 'r']
  | '\n' => ['\\', 'n']
  | '"' => ['\\', '"']
  | '\\' => ['\\', '\\']
  | c => if Unseen.isUnseen c then byNumber c else [c]

/-- The text in quotes. -/
def quote (s : String) : String :=
  String.ofList ('"' :: (s.toList.flatMap character ++ ['"']))

end UnitAtlas.Quoted
