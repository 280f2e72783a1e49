-- What parameter lists declare. The entries are read one by one; as long as they come in the order
-- of the language, each adds its own text to the end of what is shown of the names so far.
import UnitAtlas.Proofs.Draft.Parameters
import UnitAtlas.Proofs.Reading.Nodes
import UnitAtlas.Proofs.Syntax.Signatures

namespace UnitAtlas.Reading

open Syntax

/-! ## Entries -/

/-- What an entry declares. Its default value may be any, or none. -/
inductive Declares : Entry → Parameter → Prop
  | plain (name : String) (default : Option Draft) :
      Declares (.plain name) (.single (some name) default)
  | slash : Declares .slash .nothing
  | star (name : String) : Declares (.star name) (.varArgs name)
  | bareStar : Declares .bareStar .keywordsOnly
  | doubleStar (name : String) : Declares (.doubleStar name) (.varKeywords name)

section Entries

variable {n : Node} {e : Entry}

theorem starredName_ofNode {name : String} (h : n.starred? = some name) :
    starredName (ofNode n) = name := by
  obtain ⟨c, hc, rfl⟩ := Option.map_eq_some_iff.mp h
  rw [starredName, named_ofNode, List.head?_map, hc, Option.map_some, Option.map_some, text_ofNode]
  rfl

theorem declares_star (h : n.starred?.map .star = some e) :
    Declares e (.varArgs (starredName (ofNode n))) := by
  obtain ⟨name, hname, rfl⟩ := Option.map_eq_some_iff.mp h
  rw [starredName_ofNode hname]
  exact .star name

theorem declares_doubleStar (h : n.starred?.map .doubleStar = some e) :
    Declares e (.varKeywords (starredName (ofNode n))) := by
  obtain ⟨name, hname, rfl⟩ := Option.map_eq_some_iff.mp h
  rw [starredName_ofNode hname]
  exact .doubleStar name

theorem declares_typedParameter (h : n.typedEntry? = some e) :
    Declares e (typedParameter (ofNode n)) := by
  unfold Node.typedEntry? at h
  unfold typedParameter
  rw [kind_ofNode]
  split at h
  · rename_i hkind
    cases h
    rw [hkind, text_ofNode]
    exact .plain _ none
  · rename_i hkind
    rw [hkind]
    exact declares_star h
  · rename_i hkind
    rw [hkind]
    exact declares_doubleStar h
  · cases h

theorem declares_defaultParameter (h : (n.child? .name).map (Entry.plain ·.label.text) = some e) :
    Declares e (defaultParameter (ofNode n)) := by
  obtain ⟨c, hc, rfl⟩ := Option.map_eq_some_iff.mp h
  rw [defaultParameter, field?_ofNode, hc, Option.map_some, Option.map_some, text_ofNode]
  exact .plain _ _

/-- Each entry is read as what it declares. -/
theorem declares_parameter (h : n.entry? = some e) : Declares e (parameter (ofNode n)) := by
  unfold Node.entry? at h
  unfold parameter
  rw [kind_ofNode]
  split at h
  · rename_i hkind
    cases h
    rw [hkind, text_ofNode]
    exact .plain _ none
  · rename_i hkind
    cases h
    rw [hkind, text_ofNode]
    exact .plain _ none
  · rename_i hkind
    rw [hkind]
    exact declares_defaultParameter h
  · rename_i hkind
    rw [hkind]
    exact declares_defaultParameter h
  · rename_i hkind
    obtain ⟨inner, hinner, hentry⟩ := Option.bind_eq_some_iff.mp h
    rw [hkind, named_ofNode, List.head?_map, hinner, Option.map_some]
    exact declares_typedParameter hentry
  · rename_i hkind
    rw [hkind]
    exact declares_star h
  · rename_i hkind
    rw [hkind]
    exact declares_doubleStar h
  · rename_i hkind
    cases h
    rw [hkind]
    exact .bareStar
  · rename_i hkind
    rw [hkind]
    split at h <;> cases h
    exact .slash
  · cases h

end Entries

/-! ## Lists of entries -/

/-- What is declared so far, in each phase of a list. -/
@[simp] def Fits : Phase → Declaration → Prop
  | .positional, d => d.keywordsOnly = false ∧ d.names = { positional := d.names.positional }
  | .afterBareStar, d => d.keywordsOnly = true ∧ d.names = { positional := d.names.positional }
  | .keywordOnly, d => d.keywordsOnly = true ∧ d.names.varKeywords = none ∧
      (d.names.varArgs = none → d.names.kwOnly ≠ [])
  | .closed, _ => True

/-- A bare `*` is shown as soon as a name follows it. -/
@[simp] def owed : Phase → List String
  | .afterBareStar => ["*"]
  | _ => []

section Lists

variable {phase phase' : Phase} {d : Declaration}

/-- An entry adds its text behind everything else. -/
theorem Fits.add {e : Entry} {p : Parameter} (h : Fits phase d)
    (hnext : e.next? phase = some phase') (hp : Declares e p) :
    Fits phase' (d.add p) ∧
      (d.add p).names.shown ++ owed phase' = d.names.shown ++ owed phase ++ e.text?.toList := by
  obtain ⟨⟨positional, kwOnly, varArgs, varKeywords⟩, defaults, keywordsOnly⟩ := d
  cases phase with
  | positional =>
    obtain ⟨rfl, hnames⟩ := h
    cases hnames
    cases hp <;> cases hnext <;>
      simp [Declaration.add, Declaration.addName, ParameterNames.shown, ParameterNames.separator,
        Entry.text?]
  | afterBareStar =>
    obtain ⟨rfl, hnames⟩ := h
    cases hnames
    cases hp <;> cases hnext
    simp [Declaration.add, Declaration.addName, ParameterNames.shown, ParameterNames.separator,
      Entry.text?]
  | keywordOnly =>
    obtain ⟨rfl, rfl, hstar⟩ := h
    cases hp with
    | plain name default =>
      cases hnext
      -- One more name behind the star leaves the star as it is shown.
      rcases varArgs with _ | rest
      · have hne : kwOnly ≠ [] := hstar rfl
        simp [Declaration.add, Declaration.addName, ParameterNames.shown,
          ParameterNames.separator, Entry.text?, hne]
      · simp [Declaration.add, Declaration.addName, ParameterNames.shown,
          ParameterNames.separator, Entry.text?]
    | doubleStar name =>
      cases hnext
      simp [Declaration.add, ParameterNames.shown, ParameterNames.separator, Entry.text?]
    | slash | star _ | bareStar => cases hnext
  | closed => cases hp <;> cases hnext

/-- So do all entries of a list. -/
theorem Fits.foldl {es : List Entry} {ps : List Parameter} (h : Fits phase d)
    (hes : es.foldlM Entry.next? phase = some phase') (hps : List.Forall₂ Declares es ps) :
    (ps.foldl Declaration.add d).names.shown ++ owed phase' =
      d.names.shown ++ owed phase ++ es.filterMap Entry.text? := by
  induction hps generalizing phase d with
  | nil =>
    cases hes
    rw [List.filterMap_nil, List.append_nil]
    rfl
  | @cons e p es ps hp _ ih =>
    rw [List.foldlM_cons] at hes
    obtain ⟨middle, hnext, hes⟩ := Option.bind_eq_some_iff.mp hes
    obtain ⟨hfits, hshown⟩ := h.add hnext hp
    rw [List.foldl_cons, ih hfits hes, hshown, List.append_assoc]
    cases htext : e.text? with
    | none => rw [List.filterMap_cons_none htext, Option.toList_none, List.nil_append]
    | some text => rw [List.filterMap_cons_some htext, Option.toList_some, List.singleton_append]

end Lists

/-! ## Definitions and lambdas -/

/-- The names that the parameter list of a definition or a lambda declares. -/
def declaredNames (n : Node) : ParameterNames :=
  (Declaration.ofList ((ofNode n).place.field? .parameters)).names

theorem shown_declaredNames {n : Node} {es : List Entry} (h : n.entries? = some es)
    (horder : Entry.inOrder es = true) :
    (declaredNames n).shown = es.filterMap Entry.text? := by
  obtain ⟨phase, hes, hphase⟩ := Entry.exists_phase_of_inOrder horder
  have howed : owed phase = [] := by cases phase <;> first | rfl | exact absurd rfl hphase
  unfold Node.entries? at h
  rw [declaredNames, field?_ofNode]
  split at h
  · rename_i list hlist
    have hps : List.Forall₂ Declares es ((ofNode list).place.named.map parameter) := by
      rw [named_ofNode, List.map_map, List.forall₂_map_right_iff]
      exact (Node.forall₂_entry?_of_mapM h).flip.imp fun _ _ => declares_parameter
    have hstart : Fits .positional {} := ⟨rfl, rfl⟩
    have hshown := hstart.foldl hes hps
    rw [howed, List.append_nil] at hshown
    rw [hlist]
    exact hshown
  · rename_i hlist
    cases h
    rw [hlist]
    rfl

end UnitAtlas.Reading
