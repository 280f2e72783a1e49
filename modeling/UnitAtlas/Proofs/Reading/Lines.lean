-- The code of a source on its lines. Every definition is on one line from its values to the store
-- under its name, what comes after it starts a later one, and classes are built on the lines of
-- class definitions only.
import UnitAtlas.Proofs.Draft.Written
import UnitAtlas.Proofs.Reading.DefinedUnits
import UnitAtlas.Proofs.Syntax.Layout

namespace UnitAtlas

open Syntax Opcode

/-! ## Single parts -/

namespace Draft

variable {line after : UInt32} {q : Draft} {ps : List Draft} {es : List Emission}

theorem Written.line_inv {n : UInt32} (h : Written line (.line n :: ps) es after) :
    Written n ps es after := by
  cases h with
  | line _ _ h => exact h
  | silent hq _ => exact hq.elim
  | write hq _ _ => exact hq.2.elim

/-- A part that writes one instruction, behind other parts. -/
theorem Along.snoc_inv {R : Draft → Emission → Prop} (h : Along R line (ps ++ [q]) es after)
    (hsilent : ¬ q.MayBeSilent) (hline : q.line? = none) :
    ∃ fs e middle, es = fs ++ [e] ∧ Along R line ps fs middle ∧ R q e := by
  obtain ⟨fs, gs, middle, rfl, hps, hq⟩ := h.split
  cases hq with
  | line _ n _ => cases hline
  | silent hq _ => exact absurd hq hsilent
  | @write _ _ e _ _ _ hq _ hrest =>
    cases hrest
    exact ⟨fs, e, after, rfl, hps, hq⟩

theorem line?_of_isCode (h : q.IsCode) : q.line? = none := by
  cases q <;> first | rfl | exact h.elim

theorem startLines_of_isCode (h : ∀ q ∈ ps, q.IsCode) : startLines ps = [] :=
  List.filterMap_eq_nil_iff.mpr fun q hq => line?_of_isCode (h q hq)

end Draft

namespace Reading

open Draft

/-! ## Definitions -/

/-- The definition can be taken apart. -/
def HasParts (d : Definition) : Prop :=
  ∃ values shape body makes, DefinitionParts d values shape body makes

/-- The parts of a definition after the start of its line. -/
theorem DefinitionParts.code {d : Definition} {values makes : List Draft} {shape : UnitShape}
    {body : Draft} (h : DefinitionParts d values shape body makes) :
    ∃ code, (definitionDraft d).parts = .line d.statement.label.line :: code ∧
      startLines code = [] ∧ (d.isClass = false → .plain .buildClass ∉ code) := by
  refine ⟨_, h.parts, ?_, ?_⟩
  · have hmakes : startLines makes = [] := by
      rcases h.makes with ⟨-, rfl⟩ | ⟨-, n, rfl⟩ <;> rfl
    have hcalls : startLines (List.replicate d.decorators.length (.counted .callFunction 1)) =
        [] := List.filterMap_replicate_of_none rfl
    rw [startLines_append, startLines_of_isCode h.values, List.nil_append]
    show startLines (makes ++ _) = []
    rw [startLines_append, startLines_append, hmakes, hcalls]
    rfl
  · intro hclass hmem
    rcases List.mem_append.mp hmem with hmem | hmem
    · exact h.values _ hmem rfl
    · rcases h.makes with ⟨hclass', -⟩ | ⟨-, n, rfl⟩
      · rw [hclass] at hclass'
        cases hclass'
      · simp [List.mem_replicate, store] at hmem

theorem HasParts.startLines {d : Definition} (h : HasParts d) :
    startLines (definitionDraft d).parts = [d.statement.label.line] := by
  obtain ⟨values, shape, body, makes, hparts⟩ := h
  obtain ⟨code, hcode, hlines, -⟩ := hparts.code
  rw [hcode, startLines_line, hlines]

section Written

variable {d : Definition} {line after : UInt32} {es : List Emission}

/-- All of a definition is on the line that it starts. -/
theorem HasParts.lines (h : HasParts d)
    (hwritten : Written line (definitionDraft d).parts es after) :
    after = d.statement.label.line ∧ ∀ e ∈ es, e.line = d.statement.label.line := by
  obtain ⟨values, shape, body, makes, hparts⟩ := h
  obtain ⟨code, hcode, hlines, -⟩ := hparts.code
  rw [hcode] at hwritten
  exact hwritten.line_inv.of_startLines_eq_nil hlines

/-- Only a class builds one. -/
theorem HasParts.isClass_of_buildClass (h : HasParts d)
    (hwritten : Written line (definitionDraft d).parts es after) {e : Emission} (he : e ∈ es)
    (hop : e.op = Plain.buildClass.byte) : d.isClass = true := by
  obtain ⟨values, shape, body, makes, hparts⟩ := h
  obtain ⟨code, hcode, -, hnone⟩ := hparts.code
  rw [hcode] at hwritten
  have hmem := hwritten.line_inv.buildClass_mem he hop
  by_contra hclass
  exact hnone (by simpa using hclass) hmem

/-- A definition ends with the store under its name. -/
theorem DefinitionParts.exists_store {values makes : List Draft} {shape : UnitShape} {body : Draft}
    (h : DefinitionParts d values shape body makes)
    (hwritten : Written line (definitionDraft d).parts es after) :
    ∃ fs store middle, es = fs ++ [store] ∧ (Draft.store d.name).Writes store ∧
      Written d.statement.label.line (values ++ .unit shape body ::
        (makes ++ List.replicate d.decorators.length (.counted .callFunction 1))) fs middle := by
  rw [h.parts] at hwritten
  have hcode := hwritten.line_inv
  rw [← List.append_assoc makes, ← List.cons_append, ← List.append_assoc values] at hcode
  obtain ⟨fs, store, middle, rfl, hfront, hstore⟩ := hcode.snoc_inv id rfl
  exact ⟨fs, store, middle, rfl, hstore, hfront⟩

/-- What stands before the store of a class is what makes the class, or the call of its outermost
decorator. -/
theorem HasParts.before_store (h : HasParts d) (hclass : d.isClass = true)
    (hwritten : Written line (definitionDraft d).parts es after) :
    ∃ fs e store, es = fs ++ [e, store] ∧ (Draft.store d.name).Writes store ∧
      (if d.decorators = [] then Draft.plain .buildClass
        else .counted .callFunction 1).Writes e := by
  obtain ⟨values, shape, body, makes, hparts⟩ := h
  obtain ⟨gs, store, middle, rfl, hstore, hfront⟩ := hparts.exists_store hwritten
  obtain ⟨-, rfl⟩ | ⟨hfunction, -⟩ := hparts.makes
  · rcases hdecorators : d.decorators with _ | ⟨first, rest⟩
    · have hplain : Written d.statement.label.line ((values ++ [Draft.unit shape body,
          Draft.counted .makeFunction 0, Draft.counted .callFunction 0]) ++
            [Draft.plain .buildClass]) gs middle := by
        simpa [hdecorators] using hfront
      obtain ⟨fs, e, -, rfl, -, he⟩ := hplain.snoc_inv id rfl
      rw [if_pos rfl]
      exact ⟨fs, e, store, List.append_assoc fs [e] [store], hstore, he⟩
    · rw [hdecorators, List.length_cons, List.replicate_succ', ← List.append_assoc,
        ← List.cons_append, ← List.append_assoc] at hfront
      obtain ⟨fs, e, -, rfl, -, he⟩ := hfront.snoc_inv id rfl
      rw [if_neg (List.cons_ne_nil first rest)]
      exact ⟨fs, e, store, List.append_assoc fs [e] [store], hstore, he⟩
  · rw [hclass] at hfunction
    cases hfunction

end Written

/-! ## Drawn code -/

section Draws

variable {ps : List Draft} {is : List Item}

/-- The definitions that are drawn can be taken apart when the code can be assembled. -/
theorem Draws.hasParts (h : Draws ps is)
    (hfits : ∀ d, .definition d ∈ is →
      d.node.fits = true ∧ d.node.label.kind.isDefinition = true)
    (hwhole : ∀ q ∈ ps, q.Whole) : ∀ d, .definition d ∈ is → HasParts d := by
  induction h with
  | nil =>
    intro d hd
    cases hd
  | code _ _ ih => exact ih hfits (List.forall_mem_cons.mp hwhole).2
  | start l _ ih =>
    intro d hd
    rcases List.mem_cons.mp hd with hd | hd
    · cases hd
    · exact ih (fun d hd => hfits d (List.mem_cons_of_mem _ hd))
        (List.forall_mem_cons.mp hwhole).2 d hd
  | pass l _ ih =>
    intro d hd
    rcases List.mem_cons.mp hd with hd | hd
    · cases hd
    · exact ih (fun d hd => hfits d (List.mem_cons_of_mem _ hd)) hwhole d hd
  | definition e _ _ ih =>
    obtain ⟨hown, hrest⟩ := List.forall_mem_append.mp hwhole
    intro d hd
    rcases List.mem_cons.mp hd with hd | hd
    · cases hd
      obtain ⟨hfit, hkind⟩ := hfits _ List.mem_cons_self
      exact exists_definitionParts hfit hkind (whole_iff_parts.mpr hown)
    · exact ih (fun d hd => hfits d (List.mem_cons_of_mem _ hd)) hrest d hd

/-- The lines that drawn code starts are lines of the items. -/
theorem Draws.startLines (h : Draws ps is) (hparts : ∀ d, .definition d ∈ is → HasParts d) :
    (startLines ps).Sublist (is.map Item.line) := by
  induction h with
  | nil => exact List.Sublist.slnil
  | code hq _ ih =>
    rw [Draft.startLines, List.filterMap_cons_none (line?_of_isCode hq)]
    exact ih hparts
  | start l _ ih =>
    rw [startLines_line, List.map_cons]
    exact (ih fun d hd => hparts d (List.mem_cons_of_mem _ hd)).cons_cons _
  | pass l _ ih =>
    rw [List.map_cons]
    exact (ih fun d hd => hparts d (List.mem_cons_of_mem _ hd)).cons _
  | definition d _ _ ih =>
    rw [startLines_append, (hparts d List.mem_cons_self).startLines, List.map_cons]
    exact (ih fun d hd => hparts d (List.mem_cons_of_mem _ hd)).cons_cons _

/-- Where a class is built stands a class definition. -/
theorem Draws.exists_class (h : Draws ps is) (hparts : ∀ d, .definition d ∈ is → HasParts d)
    {line after : UInt32} {es : List Emission} (hwritten : Written line ps es after)
    {e : Emission} (he : e ∈ es) (hop : e.op = Plain.buildClass.byte) :
    ∃ d, .definition d ∈ is ∧ d.isClass = true ∧ e.line = d.statement.label.line := by
  induction h generalizing line es with
  | nil =>
    cases hwritten
    cases he
  | @code q ps is hq _ ih =>
    have hwritten : Written line ([q] ++ ps) es after := hwritten
    obtain ⟨fs, gs, middle, rfl, hfirst, hrest⟩ := hwritten.split
    rcases List.mem_append.mp he with he | he
    · have hmem := Written.buildClass_mem hfirst he hop
      rw [List.mem_singleton] at hmem
      subst hmem
      exact absurd rfl hq
    · exact ih hparts hrest he
  | @start l ps is _ ih =>
    obtain ⟨d, hd, hclass, hline⟩ :=
      ih (fun d hd => hparts d (List.mem_cons_of_mem _ hd)) hwritten.line_inv he
    exact ⟨d, List.mem_cons_of_mem _ hd, hclass, hline⟩
  | pass l _ ih =>
    obtain ⟨d, hd, hclass, hline⟩ :=
      ih (fun d hd => hparts d (List.mem_cons_of_mem _ hd)) hwritten he
    exact ⟨d, List.mem_cons_of_mem _ hd, hclass, hline⟩
  | @definition d ps is _ _ ih =>
    obtain ⟨fs, gs, middle, rfl, hown, hrest⟩ := hwritten.split
    have hd := hparts d List.mem_cons_self
    rcases List.mem_append.mp he with he | he
    · exact ⟨d, List.mem_cons_self, hd.isClass_of_buildClass hown he hop, (hd.lines hown).2 e he⟩
    · obtain ⟨c, hc, hclass, hline⟩ :=
        ih (fun d hd => hparts d (List.mem_cons_of_mem _ hd)) hrest he
      exact ⟨c, List.mem_cons_of_mem _ hc, hclass, hline⟩

/-- The code around a definition. -/
theorem Draws.split {before after : List Item} {d : Definition}
    (h : Draws ps (before ++ .definition d :: after)) :
    ∃ earlier later, ps = earlier ++ ((definitionDraft d).parts ++ later) ∧
      ((∀ e, .definition e ∈ before → HasParts e) →
        (Draft.startLines earlier).Sublist (before.map Item.line)) ∧
      Draws later after ∧ ∀ l, d.next = some l → later.head? = some (.line l.line) := by
  generalize hitems : before ++ .definition d :: after = is at h
  induction h generalizing before with
  | nil => simp at hitems
  | @code q ps is hq _ ih =>
    obtain ⟨earlier, later, rfl, hlines, hlater⟩ := ih hitems
    refine ⟨q :: earlier, later, rfl, fun hparts => ?_, hlater⟩
    rw [Draft.startLines, List.filterMap_cons_none (line?_of_isCode hq)]
    exact hlines hparts
  | @start l ps is _ ih =>
    rcases before with _ | ⟨i, before⟩
    · cases hitems
    · obtain ⟨rfl, htail⟩ := List.cons_eq_cons.mp hitems
      obtain ⟨earlier, later, rfl, hlines, hlater⟩ := ih htail
      refine ⟨.line l.line :: earlier, later, rfl, fun hparts => ?_, hlater⟩
      rw [startLines_line, List.map_cons]
      exact (hlines fun e he => hparts e (List.mem_cons_of_mem _ he)).cons_cons _
  | @pass l ps is _ ih =>
    rcases before with _ | ⟨i, before⟩
    · cases hitems
    · obtain ⟨rfl, htail⟩ := List.cons_eq_cons.mp hitems
      obtain ⟨earlier, later, rfl, hlines, hlater⟩ := ih htail
      refine ⟨earlier, later, rfl, fun hparts => ?_, hlater⟩
      exact (hlines fun e he => hparts e (List.mem_cons_of_mem _ he)).cons _
  | @definition c ps is hnext hdraws ih =>
    rcases before with _ | ⟨i, before⟩
    · cases hitems
      exact ⟨[], ps, rfl, fun _ => List.Sublist.slnil, hdraws, hnext⟩
    · obtain ⟨rfl, htail⟩ := List.cons_eq_cons.mp hitems
      obtain ⟨earlier, later, rfl, hlines, hlater⟩ := ih htail
      refine ⟨(definitionDraft c).parts ++ earlier, later, by rw [List.append_assoc],
        fun hparts => ?_, hlater⟩
      rw [startLines_append, (hparts c List.mem_cons_self).startLines, List.map_cons]
      exact (hlines fun e he => hparts e (List.mem_cons_of_mem _ he)).cons_cons _

end Draws

end Reading

end UnitAtlas
