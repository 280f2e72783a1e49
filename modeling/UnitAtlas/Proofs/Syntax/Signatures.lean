-- Parameter lists as they are written: their entries, the order that the language has them in, and
-- the text that shows them.
import Mathlib.Data.List.Forall2
import UnitAtlas.Proofs.Syntax.Definitions

namespace UnitAtlas.Syntax

/-- One entry of a parameter list. -/
inductive Entry where
  /-- A parameter, with its type and its default value left out. -/
  | plain (name : String)
  /-- `/`. -/
  | slash
  /-- `*name`. -/
  | star (name : String)
  /-- A bare `*`. -/
  | bareStar
  /-- `**name`. -/
  | doubleStar (name : String)
  deriving Repr, DecidableEq

/-- How far a parameter list has come. -/
inductive Phase where
  /-- Before any star. -/
  | positional
  /-- Right behind a bare `*`, which must be followed by a parameter. -/
  | afterBareStar
  | keywordOnly
  /-- Behind `**name`. -/
  | closed
  deriving Repr, DecidableEq

namespace Entry

/-- How the entry is shown. A `/` is not. -/
def text? : Entry → Option String
  | .plain name => some name
  | .slash => none
  | .star name => some ("*" ++ name)
  | .bareStar => some "*"
  | .doubleStar name => some ("**" ++ name)

/-- What follows in the order of the language, if the entry may stand here. -/
def next? : Phase → Entry → Option Phase
  | .positional, .plain _ => some .positional
  | .positional, .slash => some .positional
  | .positional, .star _ => some .keywordOnly
  | .positional, .bareStar => some .afterBareStar
  | .positional, .doubleStar _ => some .closed
  | .afterBareStar, .plain _ => some .keywordOnly
  | .keywordOnly, .plain _ => some .keywordOnly
  | .keywordOnly, .doubleStar _ => some .closed
  | _, _ => none

/-- Parameters, with a `/` among them or behind them, then `*name`, or `*` and at least one
parameter, with the keyword-only parameters, and `**name` at the end. All of it may be missing. -/
def inOrder (es : List Entry) : Bool :=
  (es.foldlM next? .positional).any (· != .afterBareStar)

/-- The entries between parentheses. -/
def shown (es : List Entry) : String := "(" ++ ", ".intercalate (es.filterMap text?) ++ ")"

theorem exists_phase_of_inOrder {es : List Entry} (h : inOrder es = true) :
    ∃ phase, es.foldlM next? .positional = some phase ∧ phase ≠ .afterBareStar := by
  rw [inOrder, Option.any_eq_true] at h
  obtain ⟨phase, hphase, hne⟩ := h
  exact ⟨phase, hphase, bne_iff_ne.mp hne⟩

end Entry

namespace Node

/-- The name behind stars. -/
def starred? (n : Node) : Option String := n.named.head?.map (·.label.text)

/-- A parameter with a type: what stands before the type. -/
def typedEntry? (inner : Node) : Option Entry :=
  match inner.label.kind with
  | .identifier => some (.plain inner.label.text)
  | .listSplatPattern => inner.starred?.map .star
  | .dictionarySplatPattern => inner.starred?.map .doubleStar
  | _ => none

/-- The entry that a node of a parameter list is; none for what the grammar does not have there. -/
def entry? (n : Node) : Option Entry :=
  match n.label.kind with
  | .identifier | .tuplePattern => some (.plain n.label.text)
  | .defaultParameter | .typedDefaultParameter => (n.child? .name).map (.plain ·.label.text)
  | .typedParameter => n.named.head?.bind typedEntry?
  | .listSplatPattern => n.starred?.map .star
  | .dictionarySplatPattern => n.starred?.map .doubleStar
  | .keywordSeparator => some .bareStar
  | .other name => if name = "positional_separator" then some .slash else none
  | _ => none

/-- The entries of the parameter list of a definition or a lambda. Without a list there are no
parameters. -/
def entries? (n : Node) : Option (List Entry) :=
  match n.child? .parameters with
  | some list => list.named.mapM entry?
  | none => some []

theorem forall₂_entry?_of_mapM {cs : List Node} {es : List Entry} (h : cs.mapM entry? = some es) :
    List.Forall₂ (fun c e => c.entry? = some e) cs es := by
  induction cs generalizing es with
  | nil =>
    cases h
    exact List.Forall₂.nil
  | cons c cs ih =>
    simp only [List.mapM_cons, Option.bind_eq_bind, Option.bind_eq_some_iff] at h
    obtain ⟨e, he, rest, hrest, heq⟩ := h
    cases heq
    exact List.Forall₂.cons he (ih hrest)

end Node

end UnitAtlas.Syntax
