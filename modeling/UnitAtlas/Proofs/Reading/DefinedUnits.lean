-- The units of a source and its definitions. A unit whose code draws the definitions below a node
-- has one unit for each of them, in the same order, among the nearest ones that are no lambdas.
import UnitAtlas.Proofs.Reading.DefinitionUnits
import UnitAtlas.Proofs.Unit.Definitions

namespace UnitAtlas.Reading

open Syntax Draft CodeUnit

variable {filename : String}

/-! ## Units of lambdas -/

/-- The units of code that defines nothing are lambdas, and there are only lambdas below them. -/
theorem nearest_of_isCode {u : CodeUnit} {shape : UnitShape} {body : Draft}
    (h : body.toUnit filename shape = .ok u) (hbody : body.IsCode) : u.nearest = [] := by
  induction u using CodeUnit.induction generalizing shape body with
  | unit u ih =>
    rw [nearest_eq]
    apply nearestAmong_eq_nil
    intro v hv
    obtain ⟨inner, code, hpart, hmade⟩ := exists_of_mem_nested h hv
    obtain ⟨hname, hcode⟩ := hbody.parts _ hpart
    refine ⟨?_, ih v hv hmade hcode⟩
    rw [isLambda_of_toUnit hmade, hname, beq_self_eq_true]

/-- A list of units made of parts. -/
def Made (filename : String) (ps : List Draft) (us : List CodeUnit) : Prop :=
  List.Forall₂ (fun p v => p.2.toUnit filename p.1 = .ok v) (ps.filterMap unit?) us

theorem made_of_toUnit {shape : UnitShape} {body : Draft} {u : CodeUnit}
    (h : body.toUnit filename shape = .ok u) : Made filename body.parts u.nested :=
  nested_of_toUnit h

theorem made_cons_unit {shape : UnitShape} {body : Draft} {ps : List Draft} {us : List CodeUnit} :
    Made filename (.unit shape body :: ps) us ↔
      ∃ v vs, body.toUnit filename shape = .ok v ∧ Made filename ps vs ∧ us = v :: vs :=
  List.forall₂_cons_left_iff

theorem made_cons_of_unit?_eq_none {q : Draft} (hq : q.unit? = none) {ps : List Draft}
    {us : List CodeUnit} : Made filename (q :: ps) us ↔ Made filename ps us := by
  rw [Made, Made, List.filterMap_cons_none hq]

/-- A part makes one unit, or none. -/
theorem unit?_eq_none_or (q : Draft) : q.unit? = none ∨ ∃ shape body, q = .unit shape body := by
  cases q with
  | unit shape body => exact Or.inr ⟨shape, body, rfl⟩
  | _ => exact Or.inl rfl

theorem Made.split {ps qs : List Draft} {us : List CodeUnit} (h : Made filename (ps ++ qs) us) :
    ∃ vs ws, us = vs ++ ws ∧ Made filename ps vs ∧ Made filename qs ws := by
  induction ps generalizing us with
  | nil => exact ⟨[], us, rfl, List.Forall₂.nil, h⟩
  | cons q ps ih =>
    rw [List.cons_append] at h
    rcases unit?_eq_none_or q with hq | ⟨shape, body, rfl⟩
    · rw [made_cons_of_unit?_eq_none hq] at h
      obtain ⟨vs, ws, hus, hps, hqs⟩ := ih h
      exact ⟨vs, ws, hus, (made_cons_of_unit?_eq_none hq).mpr hps, hqs⟩
    · obtain ⟨v, us, hv, hus, rfl⟩ := made_cons_unit.mp h
      obtain ⟨vs, ws, rfl, hps, hqs⟩ := ih hus
      exact ⟨v :: vs, ws, rfl, made_cons_unit.mpr ⟨v, vs, hv, hps, rfl⟩, hqs⟩

/-- A unit of a part that defines nothing does not count. -/
theorem nearestAmong_cons_of_isCode {shape : UnitShape} {body : Draft} {v : CodeUnit}
    (hv : body.toUnit filename shape = .ok v) (h : (Draft.unit shape body).IsCode) (next : Nat)
    (vs : List CodeUnit) : nearestAmong next (v :: vs) = nearestAmong (next + 1) vs := by
  have hlambda : v.isLambda = true := by rw [isLambda_of_toUnit hv, h.1, beq_self_eq_true]
  rw [nearestAmong, if_pos hlambda, nearest_of_isCode hv h.2]
  rfl

theorem Made.nearest_of_isCode {ps : List Draft} {us : List CodeUnit} (h : Made filename ps us)
    (hps : ∀ q ∈ ps, q.IsCode) (next : Nat) : nearestAmong next us = [] := by
  induction ps generalizing us next with
  | nil =>
    cases h
    rfl
  | cons q ps ih =>
    obtain ⟨hq, hrest⟩ := List.forall_mem_cons.mp hps
    rcases unit?_eq_none_or q with hnone | ⟨shape, body, rfl⟩
    · exact ih ((made_cons_of_unit?_eq_none hnone).mp h) hrest next
    · obtain ⟨v, vs, hv, hvs, rfl⟩ := made_cons_unit.mp h
      exact (nearestAmong_cons_of_isCode hv hq next vs).trans (ih hvs hrest (next + 1))

/-! ## Units of definitions -/

/-- The unit is what a definition becomes. -/
def Makes (filename : String) (d : Definition) (u : CodeUnit) : Prop :=
  ∃ values shape body makes, DefinitionParts d values shape body makes ∧
    body.toUnit filename shape = .ok u

/-- What fits is named otherwise than lambdas are. -/
theorem name_ne_lambdaName {d : Definition} (hfits : d.node.fits = true)
    (hkind : d.node.label.kind.isDefinition = true) : d.name ≠ lambdaName := by
  intro hname
  have hsign : '<' ∈ d.name.toList := by
    rw [hname]
    decide
  rw [Definition.name] at hsign
  rcases hchild : d.node.child? .name with _ | c
  · rw [hchild] at hsign
    exact absurd hsign (by decide)
  · rw [hchild] at hsign
    exact (Node.suitesFit_of_fits hfits).name hkind c hchild hsign

theorem Makes.isLambda {d : Definition} {u : CodeUnit} (h : Makes filename d u)
    (hfits : d.node.fits = true) (hkind : d.node.label.kind.isDefinition = true) :
    u.isLambda = false := by
  obtain ⟨values, shape, body, makes, hparts, hmade⟩ := h
  rw [isLambda_of_toUnit hmade, hparts.name]
  simpa using name_ne_lambdaName hfits hkind

/-- The units of a definition's own code: those of its values, and what it becomes. -/
theorem Made.of_definition {d : Definition} (hfits : d.node.fits = true)
    (hkind : d.node.label.kind.isDefinition = true) {us : List CodeUnit}
    (h : Made filename (definitionDraft d).parts us) (hwhole : (definitionDraft d).Whole) :
    ∃ values vs v, us = vs ++ [v] ∧ (∀ q ∈ values, q.IsCode) ∧ Made filename values vs ∧
      Makes filename d v := by
  obtain ⟨values, shape, body, makes, hparts⟩ := exists_definitionParts hfits hkind hwhole
  rw [hparts.parts, made_cons_of_unit?_eq_none rfl] at h
  obtain ⟨vs, ws, rfl, hvalues, hrest⟩ := h.split
  obtain ⟨v, xs, hv, hxs, rfl⟩ := made_cons_unit.mp hrest
  have hnone : (makes ++ (List.replicate d.decorators.length (Draft.counted .callFunction 1) ++
      [Draft.store d.name])).filterMap unit? = [] := by
    rw [List.filterMap_append, List.filterMap_append, List.filterMap_replicate_of_none rfl]
    rcases hparts.makes with ⟨-, rfl⟩ | ⟨-, n, rfl⟩ <;> rfl
  rw [Made, hnone, List.forall₂_nil_left_iff] at hxs
  subst hxs
  exact ⟨values, vs, v, rfl, hparts.values, hvalues, values, shape, body, makes, hparts, hv⟩

/-- What is drawn from items has one near unit for each definition, made of it. -/
theorem Made.of_draws {ps : List Draft} {is : List Item} (hdraws : Draws ps is)
    (hfits : ∀ d, .definition d ∈ is →
      d.node.fits = true ∧ d.node.label.kind.isDefinition = true)
    (hwhole : ∀ q ∈ ps, q.Whole) {us : List CodeUnit} (h : Made filename ps us) (next : Nat) :
    List.Forall₂ (fun d b => ∃ j v, b = [next + j] ∧ us[j]? = some v ∧ Makes filename d v)
      (is.filterMap Item.definition?) (nearestAmong next us) := by
  induction hdraws generalizing us next with
  | nil =>
    cases h
    exact List.Forall₂.nil
  | @code q ps is hq _ ih =>
    obtain ⟨-, hrest⟩ := List.forall_mem_cons.mp hwhole
    rcases unit?_eq_none_or q with hnone | ⟨shape, body, rfl⟩
    · exact ih hfits hrest ((made_cons_of_unit?_eq_none hnone).mp h) next
    · obtain ⟨v, vs, hv, hvs, rfl⟩ := made_cons_unit.mp h
      rw [nearestAmong_cons_of_isCode hv hq]
      refine (ih hfits hrest hvs (next + 1)).imp ?_
      rintro d b ⟨j, w, rfl, hw, hmakes⟩
      exact ⟨j + 1, w, by rw [Nat.add_assoc, Nat.add_comm 1], hw, hmakes⟩
  | start l _ ih =>
    obtain ⟨-, hrest⟩ := List.forall_mem_cons.mp hwhole
    exact ih (fun d hd => hfits d (List.mem_cons_of_mem _ hd)) hrest
      ((made_cons_of_unit?_eq_none rfl).mp h) next
  | pass l _ ih => exact ih (fun d hd => hfits d (List.mem_cons_of_mem _ hd)) hwhole h next
  | @definition d ps is _ _ ih =>
    obtain ⟨hown, hrest⟩ := List.forall_mem_append.mp hwhole
    obtain ⟨hfit, hkind⟩ := hfits d List.mem_cons_self
    obtain ⟨vs, ws, rfl, hvs, hws⟩ := h.split
    obtain ⟨values, before, v, rfl, hcode, hvalues, hmakes⟩ :=
      hvs.of_definition hfit hkind (whole_iff_parts.mpr hown)
    rw [nearestAmong_append, nearestAmong_append, hvalues.nearest_of_isCode hcode,
      nearestAmong_cons_of_not_isLambda (hmakes.isLambda hfit hkind), List.filterMap_cons]
    refine List.Forall₂.cons ⟨before.length, v, rfl, by simp, hmakes⟩ ?_
    refine (ih (fun d hd => hfits d (List.mem_cons_of_mem _ hd)) hrest hws _).imp ?_
    rintro d b ⟨j, w, rfl, hw, hmakes⟩
    refine ⟨(before ++ [v]).length + j, w, by rw [Nat.add_assoc], ?_, hmakes⟩
    rw [List.getElem?_append_right (Nat.le_add_right _ _), Nat.add_sub_cancel_left, hw]

/-! ## Level by level -/

/-- The code of the unit draws what is defined below the node. -/
def Holds (filename : String) (n : Node) (u : CodeUnit) : Prop :=
  (∀ c ∈ n.children, c.fits = true) ∧ ∃ (shape : UnitShape) (body : Draft),
    body.toUnit filename shape = .ok u ∧ Draws body.parts (Node.itemsAmong n.children)

theorem Makes.holds {d : Definition} {u : CodeUnit} (h : Makes filename d u)
    (hfits : d.node.fits = true) : Holds filename d.node u := by
  obtain ⟨values, shape, body, makes, hparts, hmade⟩ := h
  exact ⟨(Node.fits_iff.mp hfits).2, shape, body, hmade, hparts.draws⟩

theorem holds_of_unitOf {root : Node} {u : CodeUnit} (hsource : root.isSource = true)
    (h : unitOf filename root = .ok u) : Holds filename root u :=
  ⟨(Node.isSource_iff.mp hsource).2, moduleShape, _, h,
    draws_moduleDraft hsource (whole_of_toUnit h)⟩

/-- The near units of such a unit are made of the definitions, one of each, in order. -/
theorem Holds.nearest {n : Node} {u : CodeUnit} (h : Holds filename n u) :
    List.Forall₂ (fun d b => d.node.fits = true ∧ ∃ j v, b = [j] ∧ u.nested[j]? = some v ∧
      Makes filename d v) n.definitions u.nearest := by
  obtain ⟨hchildren, shape, body, hmade, hdraws⟩ := h
  have hfits : ∀ d, .definition d ∈ Node.itemsAmong n.children →
      d.node.fits = true ∧ d.node.label.kind.isDefinition = true :=
    fun d => Node.fits_of_mem_itemsAmong hchildren
  have hwhole := whole_iff_parts.mp (whole_of_toUnit hmade)
  have hnear := (made_of_toUnit hmade).of_draws hdraws hfits hwhole 0
  rw [nearest_eq]
  have hmem : ∀ d ∈ n.definitions, d.node.fits = true := by
    intro d hd
    obtain ⟨i, hi, hdefinition⟩ := List.mem_filterMap.mp hd
    cases i with
    | start l => cases hdefinition
    | definition e =>
      cases hdefinition
      exact (hfits _ hi).1
  refine (List.forall₂_and_left _ _).mpr ⟨hmem, hnear.imp ?_⟩
  rintro d b ⟨j, v, rfl, hv, hmakes⟩
  exact ⟨j, v, by rw [Nat.zero_add], hv, hmakes⟩

/-- At each place there is a definition and a unit made of it, inside the unit of what is around
the definition; or there is neither. What each definition and its unit have from those around them
is kept on the way there. -/
theorem Holds.definedAt?_keeps {R : Node → CodeUnit → Prop}
    (hR : ∀ (m : Node) (p v : CodeUnit) (d : Definition), Holds filename m p → R m p →
      d ∈ m.definitions → Makes filename d v → R d.node v)
    {n : Node} {u : CodeUnit} (h : Holds filename n u) (hr : R n u) (a : List Nat) :
    (u.definedAt? a = none ∧ n.definitionAt? a = none) ∨
      ∃ d m p b j v, n.definitionAt? a = some d ∧ d ∈ m.definitions ∧ Holds filename m p ∧
        R m p ∧ u.definedAt? a = some (b ++ [j]) ∧ u.at? b = some p ∧ p.nested[j]? = some v ∧
        Makes filename d v := by
  induction a generalizing n u with
  | nil => exact Or.inl ⟨rfl, rfl⟩
  | cons i rest ih =>
    have hnear := h.nearest
    rw [CodeUnit.definedAt?, Node.definitionAt?]
    rcases hd : n.definitions[i]? with _ | d
    · left
      rw [List.getElem?_eq_none_iff] at hd
      rw [List.getElem?_eq_none (by rw [← hnear.length_eq]; exact hd)]
      exact ⟨rfl, rfl⟩
    · obtain ⟨hlt, rfl⟩ := List.getElem?_eq_some_iff.mp hd
      have hlt' : i < u.nearest.length := by rw [← hnear.length_eq]; exact hlt
      obtain ⟨hfits, j, v, hb, hv, hmakes⟩ := hnear.get hlt hlt'
      rw [List.get_eq_getElem] at hb
      rw [List.getElem?_eq_getElem hlt', hb, Option.bind_some, Option.bind_some]
      have hmem : n.definitions[i] ∈ n.definitions := List.getElem_mem hlt
      cases rest with
      | nil => exact Or.inr ⟨_, n, u, [], j, v, rfl, hmem, h, hr, rfl, rfl, hv, hmakes⟩
      | cons k rest =>
        rw [at?_singleton, hv]
        rcases ih (hmakes.holds hfits) (hR n u v _ h hr hmem hmakes) with ⟨hnone, hnone'⟩ |
          ⟨d, m, p, b, l, w, hd, hmem, hp, hrp, ha, hb, hw, hmakes⟩
        · exact Or.inl ⟨by simp [hnone], by simpa using hnone'⟩
        · refine Or.inr ⟨d, m, p, j :: b, l, w, by simpa using hd, hmem, hp, hrp, by simp [ha], ?_,
            hw, hmakes⟩
          rw [at?_cons, hv]
          exact hb

theorem Holds.definedAt? {n : Node} {u : CodeUnit} (h : Holds filename n u) (a : List Nat) :
    (u.definedAt? a = none ∧ n.definitionAt? a = none) ∨
      ∃ d m p b j v, n.definitionAt? a = some d ∧ d ∈ m.definitions ∧ Holds filename m p ∧
        u.definedAt? a = some (b ++ [j]) ∧ u.at? b = some p ∧ p.nested[j]? = some v ∧
        Makes filename d v := by
  rcases h.definedAt?_keeps (R := fun _ _ => True) (fun _ _ _ _ _ _ _ _ => trivial) trivial a with
    hnone | ⟨d, m, p, b, j, v, hd, hmem, hp, -, hrest⟩
  · exact Or.inl hnone
  · exact Or.inr ⟨d, m, p, b, j, v, hd, hmem, hp, hrest⟩

end UnitAtlas.Reading
