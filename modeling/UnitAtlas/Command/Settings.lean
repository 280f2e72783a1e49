-- Settings: a length is as the command line says, else as the environment says, else as usual.
import UnitAtlas.Calibration
import UnitAtlas.Command.Basic
import UnitAtlas.Number.Numeral
import UnitAtlas.Text.Blank
import UnitAtlas.Text.Quoted

namespace UnitAtlas

/-- Environment variables. -/
abbrev Environment := List (String × String)

structure Settings where
  glue : Nat
  signatureLength : Nat
  deriving Repr, DecidableEq

namespace Settings

def glueVariable : String := "UNITMAP_GLUE_LEN"

def signatureLengthVariable : String := "UNITMAP_SIGNATURE_LEN"

/-- The length that a text stands for, in blanks or not. -/
def parsed (source raw : String) : Except ErrorChain Nat :=
  (Numeral.word (Blank.trim raw)).mapError fun e =>
    ⟨s!"{source} must be a non-negative integer, got {Quoted.quote raw}", [e.message]⟩

/-- A length. A variable that holds only blanks does not count. -/
def length (env : Environment) (flag : Option Nat) (source : String) (usual : Nat) :
    Except ErrorChain Nat :=
  match flag with
  | some n => .ok n
  | none =>
    match (env.lookup source).filter (Blank.trim · != "") with
    | some raw => parsed source raw
    | none => .ok usual

/-- The settings for a command line. -/
def resolve (env : Environment) (line : CommandLine) : Except ErrorChain Settings := do
  let glue ← length env line.glue glueVariable Window.defaultGlue
  let signatureLength ←
    length env line.signatureLength signatureLengthVariable Calibration.defaultSignatureLength
  return ⟨glue, signatureLength⟩

end Settings

end UnitAtlas
