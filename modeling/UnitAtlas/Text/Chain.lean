-- Explained errors: what failed, and under it the chain of its causes down to the root.

namespace UnitAtlas

/-- A failure in words: the outermost message, then its causes, each explaining the one
before it. -/
structure ErrorChain where
  message : String
  causes : List String := []
  deriving Repr, DecidableEq

namespace ErrorChain

/-- The failure seen from further out: `what` failed because of `chain`. -/
def under (what : String) (chain : ErrorChain) : ErrorChain :=
  ⟨what, chain.message :: chain.causes⟩

/-- All messages on one line, from the outermost to the root. -/
def oneLine (chain : ErrorChain) : String :=
  ": ".intercalate (chain.message :: chain.causes)

/-! ## The long form -/

/-- A message of several lines, `first` before its first line and `later` before the others. -/
def indented (first later message : String) : String :=
  first ++ ("\n" ++ later).intercalate (message.splitOn "\n")

/-- The causes, numbered from `at`, five columns for the number. -/
def numbered (n : Nat) : List String → List String
  | [] => []
  | cause :: causes =>
    let digits := toString n
    let pad := String.ofList (List.replicate (5 - digits.length) ' ')
    indented (pad ++ digits ++ ": ") "       " cause :: numbered (n + 1) causes

/-- The failure as a program reports it when it ends: the message, and the causes below it,
one per line, numbered when there are several. -/
def report (chain : ErrorChain) : String :=
  match chain.causes with
  | [] => chain.message
  | [cause] => chain.message ++ "\n\nCaused by:\n" ++ indented "    " "    " cause
  | causes => chain.message ++ "\n\nCaused by:\n" ++ "\n".intercalate (numbered 0 causes)

end ErrorChain

end UnitAtlas
