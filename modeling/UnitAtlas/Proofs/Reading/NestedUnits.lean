-- The units directly inside another one: those of definitions, made of the definitions below a node
-- in their order, and those of lambdas, which have only lambdas inside them. What is drawn on lines
-- that never go back is written on such lines, in all units.
import UnitAtlas.Proofs.Bytecode.Breakpoints
import UnitAtlas.Proofs.Reading.Lines

namespace UnitAtlas.Reading

open Syntax Draft CodeUnit LineTable

variable {filename : String}

/-! ## Units of code that defines nothing -/

/-- The unit is made of code that defines nothing. -/
def OfCode (filename : String) (v : CodeUnit) : Prop :=
  ∃ shape body, (Draft.unit shape body).IsCode ∧ body.toUnit filename shape = .ok v

namespace OfCode

variable {v : CodeUnit}

theorem isLambda (h : OfCode filename v) : v.isLambda = true := by
  obtain ⟨shape, body, hcode, hmade⟩ := h
  rw [isLambda_of_toUnit hmade, hcode.1, beq_self_eq_true]

theorem nested (h : OfCode filename v) : ∀ w ∈ v.nested, OfCode filename w := by
  obtain ⟨shape, body, hcode, hmade⟩ := h
  intro w hw
  obtain ⟨inner, code, hpart, hinner⟩ := exists_of_mem_nested hmade hw
  exact ⟨inner, code, hcode.2.parts _ hpart, hinner⟩

theorem throughout (h : OfCode filename v) : v.Throughout (OfCode filename) := by
  induction v using CodeUnit.induction with
  | unit v ih => exact throughout_iff.mpr ⟨h, fun w hw => ih w hw (h.nested w hw)⟩

/-- All of such a unit is on one line. -/
theorem exists_writtenIn (h : OfCode filename v) :
    ∃ ps a, WrittenIn ps v a ∧ ∀ e ∈ a.emitted.toList, e.line = v.info.firstLine := by
  obtain ⟨shape, body, hcode, hmade⟩ := h
  obtain ⟨a, hwritten⟩ := Draft.exists_writtenIn hmade
  obtain ⟨after, hlines⟩ := hwritten.written
  exact ⟨_, a, hwritten, (hlines.of_startLines_eq_nil (startLines_of_isCode hcode.2.parts)).2⟩

end OfCode

theorem Made.ofCode {ps : List Draft} {us : List CodeUnit} (h : Made filename ps us)
    (hps : ∀ q ∈ ps, q.IsCode) : ∀ v ∈ us, OfCode filename v := by
  intro v hv
  obtain ⟨i, hi, rfl⟩ := List.getElem_of_mem hv
  have hi' : i < (ps.filterMap unit?).length := by rw [h.length_eq]; exact hi
  obtain ⟨part, hpart, hunit⟩ := List.mem_filterMap.mp (List.getElem_mem hi')
  have hmade := h.get hi' hi
  cases part <;> try cases hunit
  rename_i shape body
  have hpair : (ps.filterMap unit?)[i] = (shape, body) := (Option.some.inj hunit).symm
  refine ⟨shape, body, hps _ hpart, ?_⟩
  simpa only [List.get_eq_getElem, hpair] using hmade

/-! ## The units of definitions, in order -/

/-- The units directly inside that are no lambdas. -/
def definedUnits (us : List CodeUnit) : List CodeUnit := us.filter fun v => !v.isLambda

theorem definedUnits_append (us vs : List CodeUnit) :
    definedUnits (us ++ vs) = definedUnits us ++ definedUnits vs := List.filter_append ..

theorem definedUnits_singleton {v : CodeUnit} (h : v.isLambda = false) : definedUnits [v] = [v] := by
  rw [definedUnits, List.filter_cons_of_pos (by rw [h]; rfl), List.filter_nil]

theorem definedUnits_of_ofCode {us : List CodeUnit} (h : ∀ v ∈ us, OfCode filename v) :
    definedUnits us = [] := by
  rw [definedUnits, List.filter_eq_nil_iff]
  intro v hv
  rw [(h v hv).isLambda]
  decide

/-- What is drawn from items has the units of their definitions, and units of lambdas. -/
theorem Made.defined {ps : List Draft} {is : List Item} (hdraws : Draws ps is)
    (hfits : ∀ d, .definition d ∈ is →
      d.node.fits = true ∧ d.node.label.kind.isDefinition = true)
    (hwhole : ∀ q ∈ ps, q.Whole) {us : List CodeUnit} (h : Made filename ps us) :
    List.Forall₂ (Makes filename) (is.filterMap Item.definition?) (definedUnits us) ∧
      ∀ v ∈ us, v.isLambda = true → OfCode filename v := by
  induction hdraws generalizing us with
  | nil =>
    cases h
    exact ⟨List.Forall₂.nil, nofun⟩
  | @code q ps is hq _ ih =>
    obtain ⟨-, hrest⟩ := List.forall_mem_cons.mp hwhole
    have h : Made filename ([q] ++ ps) us := h
    obtain ⟨vs, ws, rfl, hvs, hws⟩ := h.split
    have hcode := hvs.ofCode (List.forall_mem_singleton.mpr hq)
    obtain ⟨hdefined, hlambdas⟩ := ih hfits hrest hws
    refine ⟨?_, List.forall_mem_append.mpr ⟨fun v hv _ => hcode v hv, hlambdas⟩⟩
    rw [definedUnits_append, definedUnits_of_ofCode hcode]
    exact hdefined
  | start l _ ih =>
    obtain ⟨-, hrest⟩ := List.forall_mem_cons.mp hwhole
    exact ih (fun d hd => hfits d (List.mem_cons_of_mem _ hd)) hrest
      ((made_cons_of_unit?_eq_none rfl).mp h)
  | pass l _ ih => exact ih (fun d hd => hfits d (List.mem_cons_of_mem _ hd)) hwhole h
  | @definition d ps is _ _ ih =>
    obtain ⟨hown, hrest⟩ := List.forall_mem_append.mp hwhole
    obtain ⟨hfit, hkind⟩ := hfits d List.mem_cons_self
    obtain ⟨vs, ws, rfl, hvs, hws⟩ := h.split
    obtain ⟨values, before, v, rfl, hcode, hvalues, hmakes⟩ :=
      hvs.of_definition hfit hkind (whole_iff_parts.mpr hown)
    have hbefore := hvalues.ofCode hcode
    have hlambda := hmakes.isLambda hfit hkind
    obtain ⟨hdefined, hlambdas⟩ :=
      ih (fun d hd => hfits d (List.mem_cons_of_mem _ hd)) hrest hws
    constructor
    · rw [definedUnits_append, definedUnits_append, definedUnits_of_ofCode hbefore,
        definedUnits_singleton hlambda]
      exact List.Forall₂.cons hmakes hdefined
    · simp only [List.forall_mem_append, List.forall_mem_singleton]
      refine ⟨⟨fun v hv _ => hbefore v hv, ?_⟩, hlambdas⟩
      rw [hlambda]
      exact nofun

section Holds

variable {n : Node} {u : CodeUnit}

theorem Holds.fits_of_mem (h : Holds filename n u) : ∀ d, .definition d ∈ Node.itemsAmong n.children →
    d.node.fits = true ∧ d.node.label.kind.isDefinition = true :=
  fun _ => Node.fits_of_mem_itemsAmong h.1

/-- The units directly inside that are no lambdas are made of the definitions, one of each. -/
theorem Holds.defined (h : Holds filename n u) :
    List.Forall₂ (Makes filename) n.definitions (definedUnits u.nested) := by
  obtain ⟨-, shape, body, hmade, hdraws⟩ := id h
  have hwhole := whole_iff_parts.mp (whole_of_toUnit hmade)
  exact ((made_of_toUnit hmade).defined hdraws h.fits_of_mem hwhole).1

/-- All other units directly inside are made of code that defines nothing. -/
theorem Holds.ofCode_of_isLambda (h : Holds filename n u) {v : CodeUnit} (hv : v ∈ u.nested)
    (hlambda : v.isLambda = true) : OfCode filename v := by
  obtain ⟨-, shape, body, hmade, hdraws⟩ := id h
  have hwhole := whole_iff_parts.mp (whole_of_toUnit hmade)
  exact ((made_of_toUnit hmade).defined hdraws h.fits_of_mem hwhole).2 v hv hlambda

/-- The code of each definition can be assembled. -/
theorem Holds.whole_of_mem (h : Holds filename n u) {d : Definition} (hd : d ∈ n.definitions) :
    (definitionDraft d).Whole := by
  obtain ⟨-, shape, body, hmade, hdraws⟩ := h
  obtain ⟨before, after, hitems⟩ := List.append_of_mem (Node.mem_definitions.mp hd)
  rw [hitems] at hdraws
  obtain ⟨earlier, later, hps, -⟩ := hdraws.split
  refine whole_iff_parts.mpr fun q hq => whole_iff_parts.mp (whole_of_toUnit hmade) q ?_
  rw [hps]
  exact List.mem_append_right _ (List.mem_append_left _ hq)

theorem Holds.exists_definition (h : Holds filename n u) {v : CodeUnit} (hv : v ∈ u.nested)
    (hlambda : v.isLambda = false) : ∃ d ∈ n.definitions, Makes filename d v := by
  have hmem : v ∈ definedUnits u.nested := List.mem_filter.mpr ⟨hv, by rw [hlambda]; rfl⟩
  obtain ⟨i, hi, rfl⟩ := List.getElem_of_mem hmem
  have hi' : i < n.definitions.length := by rw [h.defined.length_eq]; exact hi
  exact ⟨_, List.get_mem _ ⟨i, hi'⟩, h.defined.get hi' hi⟩

/-- What holds of any two definitions in order passes to the units directly inside. -/
theorem Holds.pairwise (h : Holds filename n u) {S : Definition → Definition → Prop}
    {R : CodeUnit → CodeUnit → Prop} (hS : n.definitions.Pairwise S)
    (hR : ∀ d e v w, d ∈ n.definitions → e ∈ n.definitions → S d e → Makes filename d v →
      Makes filename e w → R v w) :
    u.nested.Pairwise fun v w => v.isLambda = false → w.isLambda = false → R v w := by
  have hforall := h.defined
  have hdefined : (definedUnits u.nested).Pairwise R := by
    rw [List.pairwise_iff_getElem] at hS ⊢
    intro i j hi hj hij
    have hi' : i < n.definitions.length := by rw [hforall.length_eq]; exact hi
    have hj' : j < n.definitions.length := by rw [hforall.length_eq]; exact hj
    exact hR _ _ _ _ (List.getElem_mem hi') (List.getElem_mem hj') (hS i j hi' hj' hij)
      (hforall.get hi' hi) (hforall.get hj' hj)
  rw [definedUnits, List.pairwise_filter] at hdefined
  refine hdefined.imp ?_
  intro v w hvw hv hw
  exact hvw (by rw [hv]; rfl) (by rw [hw]; rfl)

end Holds

/-! ## Units on their lines -/

/-- The unit holds what is defined below the node, whose lines are in order from its first on. -/
structure LiesOn (filename : String) (n : Node) (u : CodeUnit) : Prop where
  holds : Holds filename n u
  ordered : n.OrderedFrom u.info.firstLine

/-- A unit starts at the line of its definition. -/
theorem Makes.firstLine {d : Definition} {v : CodeUnit} (h : Makes filename d v) :
    v.info.firstLine = d.line := by
  obtain ⟨values, shape, body, makes, hparts, hmade⟩ := h
  rw [(info_of_toUnit hmade).2, hparts.firstLine]
  rfl

namespace LiesOn

variable {n : Node} {u : CodeUnit}

theorem inward (h : LiesOn filename n u) {d : Definition} (hd : d ∈ n.definitions) {v : CodeUnit}
    (hv : Makes filename d v) : LiesOn filename d.node v := by
  refine ⟨hv.holds (h.holds.fits_of_mem d (Node.mem_definitions.mp hd)).1, ?_⟩
  rw [hv.firstLine]
  exact h.ordered.inward hd

/-- Below such a unit there are such units and units of lambdas only. What each definition has
from the node around it, they all have. -/
theorem throughout {Q : Node → Prop} (hQ : ∀ m : Node, (∀ c ∈ m.children, c.fits = true) → Q m →
      ∀ d ∈ m.definitions, Q d.node) (h : LiesOn filename n u) (hn : Q n) :
    u.Throughout fun p => (∃ m, LiesOn filename m p ∧ Q m) ∨ OfCode filename p := by
  induction u using CodeUnit.induction generalizing n with
  | unit u ih =>
    refine throughout_iff.mpr ⟨Or.inl ⟨n, h, hn⟩, ?_⟩
    intro v hv
    rcases hlambda : v.isLambda with _ | _
    · obtain ⟨d, hd, hmakes⟩ := h.holds.exists_definition hv hlambda
      exact ih v hv (h.inward hd hmakes) (hQ n h.ordered.fits hn d hd)
    · exact (h.holds.ofCode_of_isLambda hv hlambda).throughout.imp fun _ => Or.inr

/-- The same at each place: the definition there, and the unit made of it. -/
theorem definedAt?_keeps {Q : Node → Prop} (hQ : ∀ m : Node, (∀ c ∈ m.children, c.fits = true) →
      Q m → ∀ d ∈ m.definitions, Q d.node) (h : LiesOn filename n u) (hn : Q n) {a : List Nat}
    {d : Definition} (hd : n.definitionAt? a = some d) : ∃ m p b j v, d ∈ m.definitions ∧
      LiesOn filename m p ∧ Q m ∧ u.definedAt? a = some (b ++ [j]) ∧ u.at? b = some p ∧
      p.nested[j]? = some v ∧ Makes filename d v := by
  rcases h.holds.definedAt?_keeps (R := fun m p => m.OrderedFrom p.info.firstLine ∧ Q m)
    (fun m p v d hp ho hd hv => ⟨(LiesOn.inward ⟨hp, ho.1⟩ hd hv).ordered,
      hQ m ho.1.fits ho.2 d hd⟩) ⟨h.ordered, hn⟩ a with
    ⟨-, hnone⟩ | ⟨e, m, p, b, j, v, he, hmem, hp, ⟨ho, hm⟩, ha, hb, hv, hmakes⟩
  · rw [hd] at hnone
    cases hnone
  · rw [hd] at he
    cases he
    exact ⟨m, p, b, j, v, hmem, ⟨hp, ho⟩, hm, ha, hb, hv, hmakes⟩

theorem definedAt? (h : LiesOn filename n u) {a : List Nat} {d : Definition}
    (hd : n.definitionAt? a = some d) : ∃ m p b j v, d ∈ m.definitions ∧ LiesOn filename m p ∧
      u.definedAt? a = some (b ++ [j]) ∧ u.at? b = some p ∧ p.nested[j]? = some v ∧
      Makes filename d v := by
  obtain ⟨m, p, b, j, v, hmem, hp, -, hrest⟩ := h.definedAt?_keeps (Q := fun _ => True)
    (fun _ _ _ _ _ => trivial) trivial hd
  exact ⟨m, p, b, j, v, hmem, hp, hrest⟩

/-- At each address there is the unit of a lambda, or a unit whose definitions all have places: they
lead to units directly inside it. -/
theorem exists_places (h : LiesOn filename n u) {b : List Nat} {p : CodeUnit}
    (hp : u.at? b = some p) : OfCode filename p ∨ ∃ m, LiesOn filename m p ∧
      ∀ d ∈ m.definitions, ∃ a k, n.definitionAt? a = some d ∧
        u.definedAt? a = some (b ++ [k]) := by
  induction b generalizing n u with
  | nil =>
    cases hp
    refine Or.inr ⟨n, h, fun d hd => ?_⟩
    obtain ⟨i, hi, rfl⟩ := List.getElem_of_mem hd
    have hi' : i < p.nearest.length := by rw [← h.holds.nearest.length_eq]; exact hi
    obtain ⟨-, k, v, hk, -⟩ := h.holds.nearest.get hi hi'
    rw [List.get_eq_getElem] at hk
    refine ⟨[i], k, ?_, ?_⟩
    · rw [Node.definitionAt?, List.getElem?_eq_getElem hi]
      rfl
    · rw [CodeUnit.definedAt?, List.getElem?_eq_getElem hi', hk]
      rfl
  | cons j rest ih =>
    obtain ⟨v, hv, hp⟩ := Option.bind_eq_some_iff.mp hp
    have hmem := List.mem_of_getElem? hv
    rcases hlambda : v.isLambda with _ | _
    · -- The unit on the way is made of a definition, so its address is near.
      have hnear : [j] ∈ u.nearest := by
        have hamong := mem_nearestAmong hv hlambda 0
        rwa [Nat.zero_add, ← nearest_eq] at hamong
      obtain ⟨i, hi', hij⟩ := List.getElem_of_mem hnear
      have hi : i < n.definitions.length := by rw [h.holds.nearest.length_eq]; exact hi'
      obtain ⟨-, k, w, hk, hw, hmakes⟩ := h.holds.nearest.get hi hi'
      rw [List.get_eq_getElem, hij] at hk
      cases hk
      rw [hv] at hw
      cases hw
      rcases ih (h.inward (List.getElem_mem hi) hmakes) hp with hcode | ⟨m, hm, hplaces⟩
      · exact Or.inl hcode
      · refine Or.inr ⟨m, hm, fun d hd => ?_⟩
        obtain ⟨a, k, ha, hk⟩ := hplaces d hd
        have hne : a.isEmpty = false := by
          cases a with
          | nil => cases ha
          | cons => rfl
        refine ⟨i :: a, k, ?_, ?_⟩
        · rw [Node.definitionAt?, List.getElem?_eq_getElem hi, Option.bind_some, hne]
          exact ha
        · rw [CodeUnit.definedAt?, List.getElem?_eq_getElem hi', hij, Option.bind_some, hne,
            at?_singleton, hv]
          simp [hk]
    · exact Or.inl ((h.holds.ofCode_of_isLambda hmem hlambda).throughout rest p hp)

end LiesOn

/-! ## The code of such a unit -/

/-- The code of a unit that holds what is defined below a node. -/
structure Listing (n : Node) (u : CodeUnit) (ps : List Draft) (a : Assembler) : Prop where
  written : WrittenIn ps u a
  draws : Draws ps (Node.itemsAmong n.children)
  parts : ∀ d, .definition d ∈ Node.itemsAmong n.children → HasParts d

theorem Holds.exists_listing {n : Node} {u : CodeUnit} (h : Holds filename n u) :
    ∃ ps a, Listing n u ps a := by
  obtain ⟨-, shape, body, hmade, hdraws⟩ := id h
  obtain ⟨a, hwritten⟩ := exists_writtenIn hmade
  exact ⟨_, a, hwritten, hdraws,
    hdraws.hasParts h.fits_of_mem (whole_iff_parts.mp (whole_of_toUnit hmade))⟩

namespace Listing

variable {n : Node} {u : CodeUnit} {ps : List Draft} {a : Assembler}

theorem sublist_startLines (h : Listing n u ps a) (hfits : ∀ c ∈ n.children, c.fits = true) :
    (startLines ps).Sublist (Node.linesAmong n.children) :=
  (h.draws.startLines h.parts).trans
    ((Item.sublist_map_line _).trans (Node.sublist_linesAmong hfits))

/-- The code of a definition among the code around it: `later` is drawn from the items `after` it. -/
structure Around (n : Node) (d : Definition) (a : Assembler) (front own behind : List Emission)
    (later : List Draft) (after : List Item) : Prop where
  items : ∃ before, Node.itemsAmong n.children = before ++ .definition d :: after
  emitted : a.emitted.toList = front ++ (own ++ behind)
  own : ∃ line, Written line (definitionDraft d).parts own d.statement.label.line
  behind : ∃ last, Written d.statement.label.line later behind last
  starts : (startLines later).Sublist (after.map Item.line)
  next : ∀ l, d.next = some l → later.head? = some (.line l.line)

theorem around_of_split (h : Listing n u ps a) {d : Definition} {before after : List Item}
    (hitems : Node.itemsAmong n.children = before ++ .definition d :: after)
    {front own behind : List Emission} {later : List Draft} {line middle last : UInt32}
    (hes : a.emitted.toList = front ++ (own ++ behind))
    (hown : Written line (definitionDraft d).parts own middle)
    (hbehind : Written middle later behind last) (hlater : Draws later after)
    (hnext : ∀ l, d.next = some l → later.head? = some (.line l.line)) :
    Around n d a front own behind later after := by
  obtain ⟨rfl, -⟩ := (h.parts d (by simp [hitems])).lines hown
  refine ⟨⟨before, hitems⟩, hes, ⟨_, hown⟩, ⟨_, hbehind⟩, ?_, hnext⟩
  exact hlater.startLines fun e he => h.parts e (by simp [hitems, he])

theorem around (h : Listing n u ps a) {d : Definition} (hd : d ∈ n.definitions) :
    ∃ front own behind later after, Around n d a front own behind later after := by
  obtain ⟨before, after, hitems⟩ := List.append_of_mem (Node.mem_definitions.mp hd)
  have hdraws := h.draws
  rw [hitems] at hdraws
  obtain ⟨earlier, later, hps, -, hlater, hnext⟩ := hdraws.split
  obtain ⟨last, hwritten⟩ := h.written.written
  rw [hps] at hwritten
  obtain ⟨front, rest, line, hes, -, hrest⟩ := hwritten.split
  obtain ⟨own, behind, middle, rfl, hown, hbehind⟩ := hrest.split
  exact ⟨front, own, behind, later, after,
    h.around_of_split hitems hes hown hbehind hlater hnext⟩

/-- Every definition has code on its line. -/
theorem exists_emission (h : Listing n u ps a) {d : Definition} (hd : d ∈ n.definitions) :
    ∃ e ∈ a.emitted.toList, e.line = d.statement.label.line := by
  obtain ⟨front, own, behind, later, after, haround⟩ := h.around hd
  obtain ⟨line, hown⟩ := haround.own
  have hlines := ((h.parts d (Node.mem_definitions.mp hd)).lines hown).2
  obtain ⟨values, shape, body, makes, hparts⟩ := h.parts d (Node.mem_definitions.mp hd)
  obtain ⟨fs, store, -, rfl, -, -⟩ := hparts.exists_store hown
  refine ⟨store, ?_, hlines store (by simp)⟩
  rw [haround.emitted]
  simp

/-- The lines of the instructions never go back either. -/
theorem sorted (h : Listing n u ps a) (ho : n.OrderedFrom u.info.firstLine) :
    (u.info.firstLine :: a.emitted.toList.map (·.line)).Pairwise (· ≤ ·) := by
  obtain ⟨after, hlines⟩ := h.written.written
  exact hlines.sorted (ho.sorted.sublist ((h.sublist_startLines ho.fits).cons_cons _))

/-- An instruction stands on the first line or on one of a node below. -/
theorem mem_lines (h : Listing n u ps a) (hfits : ∀ c ∈ n.children, c.fits = true) {e : Emission}
    (he : e ∈ a.emitted.toList) : e.line ∈ u.info.firstLine :: Node.linesAmong n.children := by
  obtain ⟨after, hlines⟩ := h.written.written
  exact ((h.sublist_startLines hfits).cons_cons _).subset (hlines.mem_lines he)

end Listing

/-! ## The spans of units -/

/-- The unit of a lambda is on the line of the lambda. -/
theorem OfCode.resolveSpan {v : CodeUnit} (h : OfCode filename v) :
    resolveSpan v = .ok ⟨v.info.firstLine.toNat, v.info.firstLine.toNat⟩ := by
  obtain ⟨ps, a, hwritten, hlines⟩ := h.exists_writtenIn
  obtain ⟨s, hs, hfirst, -, x, hx, hlast⟩ := Assembler.exists_span_of_tableOf hwritten.table
  have hx : x = v.info.firstLine := by
    rcases List.mem_cons.mp hx with rfl | hx
    · rfl
    · obtain ⟨e, he, rfl⟩ := List.mem_map.mp hx
      exact hlines e he
  obtain ⟨first, last⟩ := s
  obtain rfl : first = _ := hfirst
  obtain rfl : last = _ := hlast
  rw [hs, hx]

namespace LiesOn

variable {n : Node} {u v : CodeUnit}

/-- The span of a unit ends on its first line or on a line of a node below, and it reaches all
definitions below. -/
theorem exists_span (h : LiesOn filename n u) :
    ∃ s, resolveSpan u = .ok s ∧ s.first = u.info.firstLine.toNat ∧
      (∃ x ∈ u.info.firstLine :: Node.linesAmong n.children, s.last = x.toNat) ∧
      ∀ d ∈ n.definitions, d.line.toNat ≤ s.last := by
  obtain ⟨ps, a, hlisting⟩ := h.holds.exists_listing
  obtain ⟨s, hs, hspan⟩ := Assembler.exists_span_of_tableOf hlisting.written.table
  refine ⟨s, hs, hspan.first, ?_, ?_⟩
  · obtain ⟨x, hx, hlast⟩ := hspan.last
    rcases List.mem_cons.mp hx with rfl | hx
    · exact ⟨_, List.mem_cons_self, hlast⟩
    · obtain ⟨e, he, rfl⟩ := List.mem_map.mp hx
      exact ⟨e.line, hlisting.mem_lines h.ordered.fits he, hlast⟩
  · intro d hd
    obtain ⟨e, he, hline⟩ := hlisting.exists_emission hd
    rw [h.ordered.line_eq hd, ← hline]
    exact hspan.le_last e.line (List.mem_cons_of_mem _ (List.mem_map_of_mem he))

/-- The span of a definition starts where the definition does and ends on a line of a node in it. -/
theorem exists_span_of_makes (h : LiesOn filename n u) {d : Definition} (hd : d ∈ n.definitions)
    (hv : Makes filename d v) : ∃ s, resolveSpan v = .ok s ∧ s.first = d.line.toNat ∧
      ∃ x ∈ d.node.lines, s.last ≤ x.toNat := by
  obtain ⟨s, hs, hfirst, ⟨x, hx, hlast⟩, -⟩ := (h.inward hd hv).exists_span
  rw [hv.firstLine] at hfirst hx
  refine ⟨s, hs, hfirst, ?_⟩
  rw [hlast, Node.lines_eq]
  rcases List.mem_cons.mp hx with rfl | hx
  · refine ⟨d.node.label.line, List.mem_cons_self, UInt32.le_iff_toNat_le.mp ?_⟩
    exact h.ordered.line_le_of_mem hd _ (by rw [Node.lines_eq]; exact List.mem_cons_self)
  · exact ⟨x, List.mem_cons_of_mem _ hx, Nat.le_refl _⟩

/-- Definitions that stand apart have spans one behind the other. -/
theorem pairwise_spans (h : LiesOn filename n u) (hapart : n.definesApart = true) :
    u.nested.Pairwise fun v w => v.isLambda = false → w.isLambda = false →
      ∃ s t, resolveSpan v = .ok s ∧ resolveSpan w = .ok t ∧ s.last < t.first := by
  refine h.holds.pairwise (h.ordered.apart hapart) ?_
  intro d e v w hd he hlines hv hw
  obtain ⟨s, hs, -, x, hx, hlast⟩ := h.exists_span_of_makes hd hv
  obtain ⟨t, ht, hfirst, -⟩ := h.exists_span_of_makes he hw
  refine ⟨s, t, hs, ht, ?_⟩
  have hbelow := UInt32.lt_iff_toNat_lt.mp (hlines x hx)
  omega

/-- The first line of a definition is one that the unit around it spans. -/
theorem first_within (h : LiesOn filename n u) (hv : v ∈ u.nested) (hlambda : v.isLambda = false) :
    ∃ s t, resolveSpan u = .ok s ∧ resolveSpan v = .ok t ∧ s.first ≤ t.first ∧
      t.first ≤ s.last := by
  obtain ⟨d, hd, hmakes⟩ := h.holds.exists_definition hv hlambda
  obtain ⟨s, hs, hfirst, -, hreach⟩ := h.exists_span
  obtain ⟨t, ht, hstart, -⟩ := h.exists_span_of_makes hd hmakes
  refine ⟨s, t, hs, ht, ?_, ?_⟩
  · rw [hfirst, hstart]
    exact UInt32.le_iff_toNat_le.mp (h.ordered.first_le_line hd)
  · rw [hstart]
    exact hreach d hd

end LiesOn

end UnitAtlas.Reading
