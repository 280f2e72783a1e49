-- Paths as text: parts between slashes. A path that starts with a slash is absolute. Parts
-- that are empty or a single dot lead nowhere, except a dot at the very start.

namespace UnitAtlas.Path

def parts (path : String) : List String := (path.toList.splitOn '/').map String.ofList

def isAbsolute (path : String) : Bool := path.startsWith "/"

/-- `request` seen from `base`. An absolute request stands alone. -/
def join (base request : String) : String :=
  if isAbsolute request then request
  else if base.isEmpty || base.endsWith "/" then base ++ request
  else base ++ "/" ++ request

/-! ## Components -/

/-- A step of a path. -/
inductive Component where
  | root
  | current
  | parent
  | name (s : String)
  deriving Repr, DecidableEq

namespace Component

/-- The order of components: the root, the dot at the start, two dots, then names. -/
def rank : Component → Nat
  | .root => 1
  | .current => 2
  | .parent => 3
  | .name _ => 4

def le : Component → Component → Bool
  | .name a, .name b => a ≤ b
  | a, b => a.rank ≤ b.rank

end Component

/-- The step that a part stands for, if it leads anywhere. -/
def component? (part : String) : Option Component :=
  if part = "" ∨ part = "." then none
  else if part = ".." then some .parent
  else some (.name part)

/-- The steps of a path. -/
def components (path : String) : List Component :=
  let ps := parts path
  let start : List Component :=
    if isAbsolute path then [.root] else if ps.head? = some "." then [.current] else []
  start ++ ps.filterMap component?

/-- The order of paths: step by step, a path before the longer ones that start with it. -/
def leComponents : List Component → List Component → Bool
  | [], _ => true
  | _ :: _, [] => false
  | a :: as, b :: bs => if a = b then leComponents as bs else a.le b

def le (a b : String) : Bool := leComponents (components a) (components b)

/-- Paths are the same when their steps are. -/
def same (a b : String) : Bool := components a == components b

/-! ## Names -/

/-- The name at the end of a path. -/
def fileName? (path : String) : Option String :=
  match (components path).getLast? with
  | some (.name s) => some s
  | _ => none

/-- What follows the last dot of a name, unless the dot is its first character. -/
def extension? (path : String) : Option String :=
  (fileName? path).bind fun name =>
    match (name.toList.splitOn '.').reverse with
    | last :: before :: rest =>
      if rest.isEmpty && before.isEmpty then none else some (String.ofList last)
    | _ => none

/-! ## Parents -/

/-- The parts without those at the end that lead nowhere. -/
def trimRight (ps : List String) : List String :=
  (ps.reverse.dropWhile fun p => p = "" ∨ p = ".").reverse

/-- The parts that belong to the start of a path, and the others: the empty part before a
leading slash, or a leading dot. -/
def splitStart (path : String) : List String × List String :=
  match parts path with
  | "" :: rest => ([""], rest)
  | "." :: rest => (["."], rest)
  | rest => ([], rest)

/-- The text of a path from its start and the rest of its parts. -/
def ofParts : List String → List String → String
  | [""], [] => "/"
  | start, rest => "/".intercalate (start ++ rest)

/-- The path without its last step; none for a path without steps. -/
def parent? (path : String) : Option String :=
  let (start, rest) := splitStart path
  match trimRight rest with
  | [] => if start = ["."] then some "" else none
  | p :: ps => some (ofParts start (trimRight (p :: ps).dropLast))

end UnitAtlas.Path
