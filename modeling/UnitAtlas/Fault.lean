-- How a computation ends when it has no value to give: with an error that it names, or by
-- breaking a rule of machine arithmetic or an assertion, which stops it with a message.

namespace UnitAtlas

/-- An error of kind `ε`, or a panic: a broken rule that stops the work with a message. -/
inductive Fault (ε : Type) where
  | error (e : ε)
  | panic (message : String)
  deriving Repr, DecidableEq

namespace Fault

/-- The same fault under another name for its error. -/
def map {ε δ : Type} (f : ε → δ) : Fault ε → Fault δ
  | .error e => .error (f e)
  | .panic message => .panic message

/-- A computation that names its errors and cannot panic, among those that can. -/
def ofError {ε α : Type} : Except ε α → Except (Fault ε) α
  | .ok a => .ok a
  | .error e => .error (.error e)

/-- The result with its error renamed; a panic stays as it is. -/
def rename {ε δ α : Type} (f : ε → δ) : Except (Fault ε) α → Except (Fault δ) α
  | .ok a => .ok a
  | .error fault => .error (fault.map f)

end Fault

end UnitAtlas
