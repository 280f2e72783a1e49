-- Trees that lie beside their sources: the tree of the text of a file is listed in the file of
-- the same name with `.tree` behind it.
import UnitAtlas.Compiler
import UnitAtlas.Source.Decoding
import UnitAtlas.Files.System

namespace UnitAtlas.Listings

open Syntax

/-- What the names of listings end with. -/
def ending : String := ".tree"

/-- Where the listing of a source is. -/
def beside (spot : Location) : Location := spot.dropLast ++ [spot.getLast?.getD "" ++ ending]

/-- The listing at a location. -/
def rowsAt? (fs : FileSystem) (spot : Location) : Option (List Row) :=
  match fs.entry? spot with
  | some (.file content) => (Utf8.strict? content).bind Row.ofText?
  | _ => none

/-- The text of a file as it is compiled, with its listing, if it has one. -/
def listed? (fs : FileSystem) (spot : Location) : FileEntry → Option (String × List Row)
  | .file content => (rowsAt? fs (beside spot)).map fun rows => (Source.prepared content, rows)
  | .directory => none

/-- The compiler for files with listings, the probe among them. -/
def backend (fs : FileSystem) : Backend :=
  let known := fs.entries.filterMap fun (spot, e) => listed? fs spot e
  Compiler.backend (.ofListings ((Compiler.classProbe, Compiler.classProbeListing) :: known))

end UnitAtlas.Listings
