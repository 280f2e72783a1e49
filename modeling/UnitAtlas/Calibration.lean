-- Calibration: the signature of class bodies is learnt once, from the probe of the same
-- backend that compiles the sources.
import UnitAtlas.Backend
import UnitAtlas.Classifier

namespace UnitAtlas

/-- Why a signature could not be learnt. -/
inductive CalibrationError where
  | compile (text : String)
  | missingProbeUnit (depth : Nat)
  | shortGlue (wanted available : Nat)
  | emptySignature
  | decode (e : DecodeError)
  deriving Repr, DecidableEq

def CalibrationError.message : CalibrationError → String
  | .compile text => s!"failed to compile the class probe: {text}"
  | .missingProbeUnit depth => s!"class probe has no nested unit at depth {depth}"
  | .shortGlue wanted available =>
    s!"class probe glue is {available} bytes, shorter than the {wanted}-byte signature"
  | .emptySignature => "signature length must be at least 1"
  | .decode e => e.message

namespace Calibration

/-- How many bytes of glue identify a class, unless asked otherwise. -/
def defaultSignatureLength : Nat := 1

/-- The name that the probe is compiled under. -/
def probeFilename : String := "<class-probe>"

/-- The last `len` bytes of the window of the class in the compiled probe. -/
def signatureOf (glue len : Nat) (probe : CodeUnit) : Except CalibrationError Bytes := do
  let some function := probe.nested.head? | .error (.missingProbeUnit 1)
  let some inner := function.nested.head? | .error (.missingProbeUnit 2)
  let range ← (Window.extract glue function inner).mapError .decode
  let window := (range.slice? function.info.code).getD []
  if window.length < len then .error (.shortGlue len window.length)
  return window.drop (window.length - len)

/-- The signature that `backend` gives to classes. -/
def signature (backend : Backend) (glue len : Nat) : Except (Fault CalibrationError) Bytes :=
  if len = 0 then .error (.error .emptySignature)
  else do
    let probe ← Fault.rename (fun e => .compile e.oneLine)
      (backend.compile backend.probe probeFilename)
    Fault.ofError (signatureOf glue len probe)

/-- The classifier for the units of `backend`. -/
def classifier (backend : Backend) (glue len : Nat) :
    Except (Fault CalibrationError) Classifier := do
  return ⟨glue, ← signature backend glue len⟩

end Calibration

end UnitAtlas
