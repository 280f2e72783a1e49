-- Where requests are looked up. The host tells at the start which directories to search;
-- later handshakes add to them.
import UnitAtlas.Files.System
import UnitAtlas.Text.Chain
import UnitAtlas.Text.Quoted

namespace UnitAtlas

/-- What the host says in a handshake: a separator, the search paths joined by it, and two
directories to try after them. -/
structure Handshake where
  separator : String
  searchPath : String
  execPrefix : String
  basePrefix : String
  deriving Repr, DecidableEq

/-- The directories in which relative requests are looked up. -/
structure LookupEnv where
  searchPaths : List String := []
  execPrefix : Option String := none
  basePrefix : Option String := none
  deriving Repr, DecidableEq

/-- Why a handshake was not understood as a whole. -/
inductive HandshakeError where
  | badSeparator (separator : String)
  | notDirectories (labelled : List (String × String))
  deriving Repr, DecidableEq

def HandshakeError.message : HandshakeError → String
  | .badSeparator separator =>
    s!"path separator must be a single character, got {Quoted.quote separator}"
  | .notDirectories labelled =>
    "not a directory: " ++ ", ".intercalate (labelled.map fun (label, raw) => s!"{label} {raw}")

def HandshakeError.chain (e : HandshakeError) : ErrorChain := ⟨e.message, []⟩

namespace LookupEnv

/-- The parts of a text between separators, without empty ones. -/
def segments (separator : Char) (text : String) : List String :=
  ((text.toList.splitOnP (· == separator)).filter (!·.isEmpty)).map String.ofList

/-- What a directory line leaves in its slot: the directory, if there is one. -/
def slot (fs : FileSystem) (raw : String) (old : Option String) : Option String :=
  if raw ≠ "" ∧ fs.isDirectory raw then some raw else old

/-- The directory lines that name something else than a directory. -/
def invalid (fs : FileSystem) (labelled : List (String × String)) : List (String × String) :=
  labelled.filter fun (_, raw) => raw ≠ "" && !fs.isDirectory raw

/-- The environment after a handshake, and whether all of it was understood. What was
understood stays; an empty separator asks for nothing. -/
def apply (fs : FileSystem) (h : Handshake) (env : LookupEnv) :
    LookupEnv × Except HandshakeError Unit :=
  match h.separator.toList with
  | [] => (env, .ok ())
  | [separator] =>
    let after : LookupEnv := {
      searchPaths := env.searchPaths ++ segments separator h.searchPath
      execPrefix := slot fs h.execPrefix env.execPrefix
      basePrefix := slot fs h.basePrefix env.basePrefix }
    match invalid fs [("exec prefix", h.execPrefix), ("prefix", h.basePrefix)] with
    | [] => (after, .ok ())
    | bad => (after, .error (.notDirectories bad))
  | _ => (env, .error (.badSeparator h.separator))

/-- Where a relative request is looked for, in order; last in the current directory. -/
def candidates (env : LookupEnv) (request : String) : List String :=
  (env.searchPaths ++ env.execPrefix.toList ++ env.basePrefix.toList).map (Path.join · request)
    ++ [request]

/-- The path of an existing file that a request means. -/
def resolve (fs : FileSystem) (env : LookupEnv) (request : String) : Option String :=
  if Path.isAbsolute request then if fs.isThere request then some request else none
  else (env.candidates request).find? fs.isThere

end LookupEnv

end UnitAtlas
