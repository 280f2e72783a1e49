-- Walking directories for source files, without what ignore files leave out.
import UnitAtlas.Files.Ignore

namespace UnitAtlas.Walk

/-- The ending of the names of source files. -/
def sourceExtension : String := "py"

def isSource (path : String) : Bool := Path.extension? path == some sourceExtension

/-- The source files in a directory and below it, each under the path that leads there from
`path`. The walk started at `top` names, and `fuel` bounds the depth. -/
def sourcesBelow (fs : FileSystem) (top : Nat) (path : String) (spot : Location) :
    Nat → List String
  | 0 => []
  | fuel + 1 =>
    (fs.children spot).flatMap fun (name, e) =>
      let here := Path.join path name
      let there := spot ++ [name]
      if Ignore.isIgnored fs top here there (e == .directory) then []
      else
        match e with
        | .directory => sourcesBelow fs top here there fuel
        | .file _ => if isSource here then [here] else []

/-- The path that stands for the standard input, which holds no files. -/
def standardInput : String := "-"

/-- The source files of the directory at `path`. -/
def sources (fs : FileSystem) (path : String) : List String :=
  if Path.same path standardInput then []
  else
    match fs.locate path with
    | .ok spot => sourcesBelow fs spot.length path spot (fs.entries.length + 1)
    | .error _ => []

end UnitAtlas.Walk
