-- The window of a definition that opens a line of its unit, when a statement on a later line
-- follows it: all code that the definition has there, its decorators, defaults and bases included,
-- up to the store under its name.
import UnitAtlas.Proofs.Draft.Tables
import UnitAtlas.Proofs.Reading.ClassWindows
import UnitAtlas.Proofs.Unit.LineWindow

namespace UnitAtlas

open Syntax LineTable Draft

/-! ## Scopes -/

/-- The node around the definitions below an address: the definition there, or the root if the
address is empty. -/
def Syntax.Node.scopeAt? (root : Node) (a : List Nat) : Option Node :=
  if a.isEmpty then some root else (root.definitionAt? a).map (·.node)

/-- The unit of the definition at an address, or the outermost one if the address is empty. -/
def CodeUnit.scopeAt? (u : CodeUnit) (a : List Nat) : Option CodeUnit :=
  if a.isEmpty then some u else (u.definedAt? a).bind u.at?

namespace Reading

variable {filename : String} {n m : Node} {u p : CodeUnit}

/-- Each scope of the tree has a unit, and that lies on the lines of the scope. -/
theorem LiesOn.scopeAt? (h : LiesOn filename n u) {a : List Nat} (hm : n.scopeAt? a = some m) :
    ∃ b p, u.scopeAt? a = some p ∧ u.at? b = some p ∧ LiesOn filename m p := by
  rcases a with _ | ⟨i, rest⟩
  · cases hm
    exact ⟨[], u, rfl, rfl, h⟩
  · obtain ⟨d, hd, rfl⟩ := Option.map_eq_some_iff.mp hm
    obtain ⟨k, q, b, j, v, hmem, hq, hdefined, hb, hv, hmakes⟩ := h.definedAt? hd
    have hat : u.at? (b ++ [j]) = some v := (CodeUnit.at?_concat hb j).trans hv
    refine ⟨b ++ [j], v, ?_, hat, hq.inward hmem hmakes⟩
    rw [CodeUnit.scopeAt?, List.isEmpty_cons, if_neg (by decide), hdefined, Option.bind_some, hat]

/-- The unit of a definition is at the same place among the units that are no lambdas. -/
theorem Holds.exists_makes (h : Holds filename n u) {before after : List Item} {d : Definition}
    (hitems : Node.itemsAmong n.children = before ++ .definition d :: after) :
    ∃ v, (definedUnits u.nested)[(before.filterMap Item.definition?).length]? = some v ∧
      Makes filename d v := by
  have hdefined := h.defined
  have hdefinitions : n.definitions = before.filterMap Item.definition? ++
      d :: after.filterMap Item.definition? := by
    rw [Node.definitions, hitems, List.filterMap_append]
    rfl
  have hlt : (before.filterMap Item.definition?).length < n.definitions.length := by
    simp [hdefinitions]
  have hlt' := hdefined.length_eq ▸ hlt
  have hmakes := hdefined.get hlt hlt'
  simp only [List.get_eq_getElem, hdefinitions] at hmakes
  rw [List.getElem_append_right (Nat.le_refl _)] at hmakes
  refine ⟨_, List.getElem?_eq_getElem hlt', ?_⟩
  simpa using hmakes

/-! ## The code of a definition in the unit around it -/

/-- `own` is the code of a definition in a unit, and `front` and `behind` are the code around it:
what the draft of the definition writes, and the parts of the unit's draft before and after it. -/
structure CodeOf (filename : String) (d : Definition) (p : CodeUnit) (earlier later : List Draft)
    (front own behind : List Emission) : Prop where
  drawn : ∃ (shape : UnitShape) (body : Draft), body.toUnit filename shape = .ok p ∧
    body.parts = earlier ++ ((definitionDraft d).parts ++ later)
  code : p.info.code = (front ++ (own ++ behind)).flatMap Emission.bytes
  spelled : ∃ line middle after,
    Spelled filename p.tables p.info.firstLine earlier front line ∧
    Spelled filename p.tables line (definitionDraft d).parts own middle ∧
    Spelled filename p.tables middle later behind after

theorem HasParts.exists_concat {d : Definition} (h : HasParts d) :
    ∃ parts, (definitionDraft d).parts = parts ++ [.store d.name] := by
  obtain ⟨values, shape, body, makes, hparts⟩ := h
  refine ⟨.line d.statement.label.line :: (values ++ .unit shape body ::
    (makes ++ List.replicate d.decorators.length (.counted .callFunction 1))), ?_⟩
  simp [hparts.parts]

/-- The code of a definition and the code around it. The lines that are started before it are lines
of what is met before it. -/
theorem LiesOn.exists_codeOf (h : LiesOn filename m p) {before after : List Item} {d : Definition}
    (hitems : Node.itemsAmong m.children = before ++ .definition d :: after) :
    ∃ ps a earlier later front own behind, Listing m p ps a ∧
      CodeOf filename d p earlier later front own behind ∧
      Listing.Around m d a front own behind later after ∧
      (startLines earlier).Sublist (before.map Item.line) := by
  obtain ⟨-, shape, body, hmade, hdraws⟩ := id h.holds
  obtain ⟨a, hwritten, last, hspelled⟩ := exists_spelled hmade
  have hl : Listing m p body.parts a := ⟨hwritten, hdraws,
    hdraws.hasParts h.holds.fits_of_mem (whole_iff_parts.mp (whole_of_toUnit hmade))⟩
  rw [hitems] at hdraws
  obtain ⟨earlier, later, hps, hlines, hlater, hnext⟩ := hdraws.split
  rw [hps] at hspelled
  obtain ⟨front, rest, line, hes, hearlier, hrest⟩ := hspelled.split
  obtain ⟨own, behind, middle, rfl, hown, hbehind⟩ := hrest.split
  refine ⟨_, a, earlier, later, front, own, behind, hl, ⟨⟨shape, body, hmade, hps⟩, ?_,
    line, middle, last, hearlier, hown, hbehind⟩, ?_, ?_⟩
  · rw [hwritten.code, Assembler.code, hes]
  · exact hl.around_of_split hitems hes (Spelled.written hown) (Spelled.written hbehind) hlater hnext
  · exact hlines fun e he => hl.parts e (by simp [hitems, he])

/-- A definition that opens a line has it to itself when a statement on a later line follows. -/
theorem Listing.onItsLine {ps : List Draft} {a : Assembler} (hl : Listing m p ps a)
    (ho : m.OrderedFrom p.info.firstLine) {is : List Instruction} (hu : p.WellFormed is)
    {d : Definition} (hd : d ∈ m.definitions) {front values behind : List Emission}
    {store : Emission} {later : List Draft} {after : List Item}
    (haround : Listing.Around m d a front (values ++ [store]) behind later after)
    (hstore : (Draft.store d.name).Writes store) {l : Label} (hnext : d.next = some l)
    (hline : d.line < l.line)
    (hopens : p.info.firstLine < d.line ∧ (∀ e ∈ front, e.line < d.line) ∨ front = []) :
    ∃ f own e rest, values ++ [store] = f :: own ∧ behind = e :: rest ∧ f.line = d.line ∧
      a.OnItsLine front f own e rest := by
  obtain ⟨-, -, hown, -⟩ := hl.lines_of_around ho hd haround
  have hbelow := haround.below ho hnext hline
  have hes : a.emitted.toList = (front ++ values) ++ store :: behind := by
    simp [haround.emitted]
  obtain ⟨e, rest, rfl⟩ := List.exists_cons_of_ne_nil (hl.behind_ne_nil hu hes hstore)
  obtain ⟨f, own, hcons⟩ := List.exists_cons_of_ne_nil (l := values ++ [store]) (by simp)
  rw [hcons] at hown haround
  obtain ⟨hf, hrest⟩ := List.forall_mem_cons.mp hown
  have hfirst : a.firstLine = p.info.firstLine := hl.written.table.firstLine.symm
  refine ⟨f, own, e, rest, hcons, rfl, hf, haround.emitted, ?_, ?_, ?_, ?_, ?_⟩
  · rw [hfirst, hf]
    exact ho.first_le_line hd
  · rw [hfirst, hf]
    exact hopens.imp_left And.left
  · rw [hf]
    rcases hopens with ⟨-, hfront⟩ | rfl
    · exact hfront
    · exact nofun
  · exact fun x hx => (hrest x hx).trans hf.symm
  · rw [hf]
    exact hbelow e List.mem_cons_self

/-- The window of a definition that opens a line of its unit: it starts with the first instruction of
the definition and ends with the store under its name. -/
theorem LiesOn.window_of_definition (h : LiesOn filename m p) {is : List Instruction}
    (hu : p.WellFormed is) {before after : List Item} {d : Definition}
    (hitems : Node.itemsAmong m.children = before ++ .definition d :: after) {l : Label}
    (hnext : d.next = some l) (hline : d.line < l.line) :
    ∃ v span earlier later front values store behind,
      (definedUnits p.nested)[(before.filterMap Item.definition?).length]? = some v ∧
      resolveSpan v = .ok span ∧
      CodeOf filename d p earlier later front (values ++ [store]) behind ∧
      (startLines earlier).Sublist (before.map Item.line) ∧
      (Draft.store d.name).Tells filename p.tables store ∧
      ((∀ x ∈ p.info.firstLine :: startLines earlier, x < d.line) ∨ front = [] →
        (∀ k, store.operand = some k → k.toNat < 0x10000) →
        span.first < span.last ∨
          ((values ++ [store]).flatMap Emission.bytes).length ≤ LineDeltas.largest →
        Window.extract Window.defaultGlue p v =
          .ok ⟨(front.flatMap Emission.bytes).length,
            ((front ++ values).flatMap Emission.bytes).length⟩) := by
  have hd : d ∈ m.definitions := Node.mem_definitions.mpr (by simp [hitems])
  obtain ⟨v, hv, hmakes⟩ := h.holds.exists_makes hitems
  obtain ⟨ps, a, earlier, later, front, own, behind, hl, hcode, haround, hlines⟩ :=
    h.exists_codeOf hitems
  obtain ⟨line, middle, last, hearlier, hown, -⟩ := hcode.spelled
  obtain ⟨parts, hparts⟩ := (hl.parts d (Node.mem_definitions.mp hd)).exists_concat
  rw [hparts] at hown
  obtain ⟨values, store, -, rfl, -, hwrites, htells⟩ := hown.snoc_inv id rfl
  obtain ⟨span, hspan, hfirst, habove⟩ := h.exists_span_above hl hd hmakes
  refine ⟨v, span, earlier, later, front, values, store, behind, hv, hspan, hcode, hlines,
    htells, ?_⟩
  intro hopens hshort hclose
  have hopens : p.info.firstLine < d.line ∧ (∀ e ∈ front, e.line < d.line) ∨ front = [] := by
    refine hopens.imp_left fun hx => ⟨hx _ List.mem_cons_self, fun e he => hx _ ?_⟩
    exact hearlier.mem_lines he
  obtain ⟨f, rest, e, beyond, hcons, rfl, hf, honline⟩ :=
    hl.onItsLine h.ordered hu hd haround hwrites hnext hline hopens
  -- The store has three bytes, as many as are trimmed.
  have hsize : store.size = Window.defaultGlue := by
    rcases htells with ⟨-, i, x, -, -, hoperand⟩ | ⟨-, i, x, -, -, hoperand⟩ <;>
      exact Emission.size_of_short hoperand (hshort _ hoperand)
  have hlast : span.last ≤ e.line.toNat := by
    refine habove e ?_ (hf ▸ honline.leaves)
    simp [honline.emitted]
  rw [Window.extract_of_tableOf hl.written.table hl.written.code hspan,
    Window.locate_of_onItsLine honline _ (by rw [hfirst, hf])
      (LineTable.first_le_last_of_resolveSpan hspan) hlast ?_, ← hcons]
  · simp only [Bytecode.length_flatMap_bytes, List.map_append, List.sum_append, List.map_cons,
      List.map_nil, List.sum_cons, List.sum_nil, hsize, Except.ok.injEq, ByteRange.mk.injEq,
      true_and]
    omega
  · rwa [← hcons, ← Bytecode.length_flatMap_bytes]

end Reading

end UnitAtlas
