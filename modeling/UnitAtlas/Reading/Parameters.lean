-- Parameter lists of functions and lambdas.
import UnitAtlas.Reading.Basic

namespace UnitAtlas.Reading

open Syntax

/-- One entry of a parameter list. -/
inductive Parameter where
  /-- A parameter, whose name may be missing, with the value it has by default. -/
  | single (name : Option String) (default : Option Draft)
  /-- `*name`. -/
  | varArgs (name : String)
  /-- `**name`. -/
  | varKeywords (name : String)
  /-- A bare `*`. -/
  | keywordsOnly
  /-- An entry that declares nothing. -/
  | nothing

/-- What a parameter list declares, and the default values in order. -/
structure Declaration where
  names : ParameterNames := {}
  defaults : List Draft := []
  keywordsOnly : Bool := false

/-- The name behind the stars. -/
def starredName (r : Reading) : String := ((r.place.named.head?).map (·.text)).getD ""

/-- A parameter with a type, told by what stands before the type. -/
def typedParameter (inner : Reading) : Parameter :=
  match inner.kind with
  | .listSplatPattern => .varArgs (starredName inner)
  | .dictionarySplatPattern => .varKeywords (starredName inner)
  | _ => .single (some inner.text) none

/-- A parameter with a default value. -/
def defaultParameter (r : Reading) : Parameter :=
  .single ((r.place.field? .name).map (·.text)) ((r.place.field? .value).map (·.roles.value))

def parameter (r : Reading) : Parameter :=
  match r.kind with
  | .identifier | .tuplePattern => .single (some r.text) none
  | .defaultParameter | .typedDefaultParameter => defaultParameter r
  | .typedParameter =>
    match r.place.named.head? with
    | some inner => typedParameter inner
    | none => .nothing
  | .listSplatPattern => .varArgs (starredName r)
  | .dictionarySplatPattern => .varKeywords (starredName r)
  | .keywordSeparator => .keywordsOnly
  | _ => .nothing

namespace Declaration

/-- A name after the others: keyword-only once a star has been seen. -/
def addName (d : Declaration) : Option String → Declaration
  | none => d
  | some name =>
    if d.keywordsOnly then { d with names := { d.names with kwOnly := d.names.kwOnly ++ [name] } }
    else { d with names := { d.names with positional := d.names.positional ++ [name] } }

def add (d : Declaration) : Parameter → Declaration
  | .single name default => { d.addName name with defaults := d.defaults ++ default.toList }
  | .varArgs name =>
    { d with names := { d.names with varArgs := some name }, keywordsOnly := true }
  | .varKeywords name => { d with names := { d.names with varKeywords := some name } }
  | .keywordsOnly => { d with keywordsOnly := true }
  | .nothing => d

/-- The declaration of a parameter list; without a list there are no parameters. -/
def ofList (list : Option Reading) : Declaration :=
  match list with
  | none => {}
  | some r => (r.place.named.map parameter).foldl add {}

/-- The code of the default values. -/
def defaultValues (d : Declaration) : Draft := Draft.all d.defaults

end Declaration

end UnitAtlas.Reading
