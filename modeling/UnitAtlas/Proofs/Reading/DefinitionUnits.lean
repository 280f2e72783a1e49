-- The code of a definition: the values that it needs first, then its unit, what makes a function
-- or a class of that, a call for each decorator, and the store. The code of the unit draws the
-- definitions in the body.
import UnitAtlas.Proofs.Draft.Shape
import UnitAtlas.Proofs.Reading.CompoundSuites

namespace UnitAtlas.Reading

open Syntax Draft

/-! ## The code of a body -/

section Bodies

variable {cs rest : List Node} {c : Node}

/-- A docstring gives way to other code at its line. -/
theorem draws_docstring {code : Draft} (hcode : code.IsCode) (hdrawn : ∀ c ∈ cs, AllDrawn c)
    (hparts : ∀ c ∈ cs, c.holdsSuite = true → c.label.isPart = true ∧ c.label.kind ≠ .block)
    (hnamed : Node.namedOf cs = c :: rest) (hkind : c.label.kind = .expressionStatement)
    (hwhole : (statements (rest.map ofNode)).Whole) :
    Draws (.line c.label.line ++ code ++ statements (rest.map ofNode)).parts
      (Node.itemsAmong cs) := by
  induction cs with
  | nil => cases hnamed
  | cons x xs ih =>
    obtain ⟨hx, hxs⟩ := List.forall_mem_cons.mp hdrawn
    obtain ⟨hpart, hrest⟩ := List.forall_mem_cons.mp hparts
    rw [Node.itemsAmong]
    by_cases his : x.label.isPart = true
    · rw [Node.namedOf_cons_of_pos his] at hnamed
      obtain ⟨rfl, rfl⟩ := List.cons_eq_cons.mp hnamed
      have hlater := draws_statements hxs hrest hwhole
      have hempty : x.holdsSuite = false := by
        have htakes := (Node.suitesFit_of_fits hx.drawn.fits).takes
        rw [hkind] at htakes
        have hnone := List.map_eq_nil_iff.mp (List.isEmpty_iff.mp htakes)
        refine Bool.eq_false_iff.mpr fun hheld => ?_
        rcases Node.holdsSuite_iff.mp hheld with hblock | hdefinition | ⟨y, hy, hheld⟩
        · rw [hkind] at hblock
          cases hblock
        · rw [hkind] at hdefinition
          cases hdefinition
        · have hmem : y ∈ x.suiteParts := List.mem_filter.mpr ⟨hy, hheld⟩
          rw [hnone] at hmem
          cases hmem
      have hbelow : Thins [] (Node.itemsAmong x.children) := by
        apply Node.thins_itemsAmong
        intro y hy next
        apply Node.thins_of_holdsSuite_eq_false
        refine Bool.eq_false_iff.mpr fun hheld => ?_
        rw [Node.holdsSuite_iff.mpr (Or.inr (Or.inr ⟨y, hy, hheld⟩))] at hempty
        cases hempty
      rw [Node.items_other (by rw [hkind]; rfl) (by rw [hkind]; decide)]
      exact (Draws.line_append _ ((Draws.of_code hcode).of_thins hbelow)).append hlater
    · rw [Node.namedOf_cons_of_neg his] at hnamed
      have hheld : x.holdsSuite = false := Bool.eq_false_iff.mpr fun hheld => his (hpart hheld).1
      exact (ih hxs hrest hnamed).of_thins
        ((Node.thins_of_holdsSuite_eq_false hheld _).append (Thins.refl _))

/-- A suite has a docstring when its first statement is a string alone. -/
theorem docstring_eq_some {rs : List Reading} {doc : String} (h : docstring rs = some doc) :
    ∃ first rest inner, rs = first :: rest ∧ first.kind = .expressionStatement ∧
      first.place.named = [inner] ∧ (inner.kind = .string ∨ inner.kind = .concatenatedString) := by
  unfold docstring at h
  split at h
  · cases h
  · rename_i first rest
    split at h
    · rename_i inner hkind hnamed
      split at h
      · rename_i hinner
        exact ⟨first, rest, inner, rfl, hkind, hnamed, hinner⟩
      · cases h
    · cases h

/-- A suite without a docstring is run as it is. -/
theorem draws_suiteStatements {n : Node} (hfit : n.SuitesFit .block)
    (h : ∀ c ∈ n.children, AllDrawn c) (hwhole : (statements (ofNode n).place.named).Whole) :
    Draws (statements (ofNode n).place.named).parts (Node.itemsAmong n.children) :=
  draws_block hfit h hwhole

/-- In a suite with a docstring, other code stands in its place. -/
theorem draws_afterDocstring {n : Node} (hfit : n.SuitesFit .block)
    (h : ∀ c ∈ n.children, AllDrawn c) {doc : String}
    (hdoc : docstring (ofNode n).place.named = some doc) {code : Draft} (hcode : code.IsCode)
    (hwhole : (statements (ofNode n).place.named.tail).Whole) :
    Draws (firstStatementLine (ofNode n).place.named ++ code ++
      statements (ofNode n).place.named.tail).parts (Node.itemsAmong n.children) := by
  have hparts : ∀ c ∈ n.children, c.holdsSuite = true →
      c.label.isPart = true ∧ c.label.kind ≠ .block := by
    intro c hc hheld
    have hmem : c ∈ n.suiteParts := List.mem_filter.mpr ⟨hc, hheld⟩
    exact ⟨hfit.isPart hmem, hfit.kind_ne_block hmem⟩
  obtain ⟨first, rest, -, hfirst, hkind, -, -⟩ := docstring_eq_some hdoc
  rw [hfirst] at hwhole ⊢
  rw [named_ofNode] at hfirst
  obtain ⟨c, cs, hnamed, rfl, rfl⟩ := List.map_eq_cons_iff.mp hfirst
  rw [kind_ofNode] at hkind
  show Draws (.line (ofNode c).line ++ code ++ statements (cs.map ofNode)).parts _
  rw [line_ofNode]
  exact draws_docstring hcode h hparts hnamed hkind hwhole

theorem draws_namespaceSuite {n : Node} (hfit : n.SuitesFit .block)
    (h : ∀ c ∈ n.children, AllDrawn c) (hwhole : (namespaceSuite (ofNode n).place.named).Whole) :
    Draws (namespaceSuite (ofNode n).place.named).parts (Node.itemsAmong n.children) := by
  unfold namespaceSuite at hwhole ⊢
  split at hwhole
  · rename_i doc hdoc
    have hcode : (.literal (.str doc) ++ .store "__doc__" : Draft).IsCode := by simp [store]
    have hdraws := draws_afterDocstring hfit h hdoc hcode hwhole.2
    simpa only [parts_append, List.append_assoc] using hdraws
  · exact draws_suiteStatements hfit h hwhole

end Bodies

/-! ## The parts of a definition -/

/-- The code of a definition: its line, the values that it needs, its unit, what makes a function
or a class of that, the calls of its decorators, and the store under its name. -/
structure DefinitionParts (d : Definition) (values : List Draft) (shape : UnitShape) (body : Draft)
    (makes : List Draft) : Prop where
  parts : (definitionDraft d).parts = .line d.statement.label.line :: (values ++
    .unit shape body :: (makes ++ (List.replicate d.decorators.length (.counted .callFunction 1) ++
      [.store d.name])))
  values : ∀ q ∈ values, q.IsCode
  name : shape.name = d.name
  firstLine : shape.firstLine = UInt32.ofNat (d.row + 1)
  parameters : d.isClass = false → shape.parameters =
    (Declaration.ofList ((ofNode d.node).place.field? .parameters)).names
  returns : body.Returns
  draws : Draws body.parts (Node.itemsAmong d.node.children)
  makes : d.isClass = true ∧
      makes = [.counted .makeFunction 0, .counted .callFunction 0, .plain .buildClass] ∨
    d.isClass = false ∧ ∃ n, makes = [.counted .makeFunction n]

section Definitions

variable {d : Definition}

theorem parts_applyDecorators (decorators : List Reading) : (applyDecorators decorators).parts =
    List.replicate decorators.length (.counted .callFunction 1) := by
  rw [applyDecorators, parts_all]
  induction decorators with
  | nil => rfl
  | cons r rest ih =>
    rw [List.map_cons, List.flatMap_cons, ih]
    rfl

theorem isCode_decoratorValues (decorators : List Node) :
    (decoratorValues (decorators.map ofNode)).IsCode := by
  refine isCode_all_map fun r hr => ?_
  obtain ⟨n, -, rfl⟩ := List.mem_map.mp hr
  exact closed_operands closed_isCode (below_isCode n)

theorem definitionLine_eq (d : Definition) :
    definitionLine (ofNode d.node).place (d.decorators.map ofNode) =
      UInt32.ofNat (d.row + 1) := by
  have hline : (ofNode d.node).place.line = d.node.label.line := line_ofNode d.node
  rw [definitionLine, Definition.row, hline]
  cases d.decorators with
  | nil => rfl
  | cons n rest =>
    rw [List.map_cons, List.head?_cons, List.head?_cons, Option.map_some, Option.map_some,
      line_ofNode]
    rfl

/-- The name that a definition needs is there. -/
theorem whole_withText_name {use : String → Draft}
    (h : ((ofNode d.node).place.withText .name use).Whole) :
    (ofNode d.node).place.withText .name use = use d.name ∧ (use d.name).Whole := by
  unfold Place.withText at h ⊢
  obtain ⟨r, hr, hwhole⟩ := whole_need.mp h
  rw [hr, need]
  rw [field?_ofNode] at hr
  obtain ⟨c, hc, rfl⟩ := Option.map_eq_some_iff.mp hr
  rw [text_ofNode] at hwhole ⊢
  rw [Definition.name, hc, Option.map_some, Option.getD_some]
  exact ⟨rfl, hwhole⟩

/-- The body that a definition needs is the suite that the grammar gives it. -/
theorem body_of_suitesFit {n : Node} {k : Kind} (hfit : n.SuitesFit k)
    (hk : k.isDefinition = true) : ∃ b ∈ n.suiteParts, b.label.kind = .block ∧
      n.child? .body = some b ∧
      ∀ {ps : List Draft}, Draws ps (Node.itemsAmong b.children) →
        Draws ps (Node.itemsAmong n.children) := by
  have htakes : (n.suiteParts.map fun c => (c.label.kind, c.label.field)) =
      [(.block, some .body)] := by
    have htakes := hfit.takes
    cases k <;> first | exact beq_iff_eq.mp htakes | cases hk
  obtain ⟨b, hparts, hblock, hfield⟩ := Node.suiteParts_eq_singleton htakes
  exact ⟨b, by simp [hparts], hblock, child?_of_singleton hfit hparts hfield rfl,
    draws_of_block hparts hblock⟩

/-- The suite of a definition that fits. -/
theorem exists_suite (hfits : d.node.fits = true)
    (hkind : d.node.label.kind.isDefinition = true) :
    ∃ b, (ofNode d.node).place.field? .body = some (ofNode b) ∧ b.SuitesFit .block ∧
      (∀ c ∈ b.children, AllDrawn c) ∧
      ∀ {ps : List Draft}, Draws ps (Node.itemsAmong b.children) →
        Draws ps (Node.itemsAmong d.node.children) := by
  obtain ⟨b, hb, hblock, hchild, hdraws⟩ := body_of_suitesFit (Node.suitesFit_of_fits hfits) hkind
  have hdrawn := (allDrawn_of_fits hfits).suiteParts b hb
  have hfit := Node.suitesFit_of_fits hdrawn.drawn.fits
  rw [hblock] at hfit
  exact ⟨b, by rw [field?_ofNode, hchild, Option.map_some], hfit, hdrawn.children, hdraws⟩

theorem draws_functionCode {b : Node} (hfit : b.SuitesFit .block)
    (h : ∀ c ∈ b.children, AllDrawn c) {name : String} {line : UInt32} {names : ParameterNames}
    (hwhole : (functionUnit name line names (ofNode b)).Whole) :
    ∃ shape body, functionUnit name line names (ofNode b) = .unit shape body ∧
      shape.name = name ∧ shape.firstLine = line ∧ shape.parameters = names ∧ body.Returns ∧
      Draws body.parts (Node.itemsAmong b.children) := by
  refine ⟨_, _, rfl, rfl, rfl, rfl, rfl, ?_⟩
  refine Draws.append_code ?_ (d := returnNone) (by simp [returnNone])
  obtain ⟨hcode, -⟩ := hwhole
  split at hcode
  · rename_i doc hdoc
    simpa using draws_afterDocstring hfit h hdoc isCode_skip hcode.2
  · exact draws_suiteStatements hfit h hcode

theorem draws_classCode {b : Node} (hfit : b.SuitesFit .block)
    (h : ∀ c ∈ b.children, AllDrawn c) {name : String} {line : UInt32}
    (hwhole : (classUnit name line (ofNode b)).Whole) :
    ∃ shape body, classUnit name line (ofNode b) = .unit shape body ∧
      shape.name = name ∧ shape.firstLine = line ∧ body.Returns ∧
      Draws body.parts (Node.itemsAmong b.children) := by
  refine ⟨_, _, rfl, rfl, rfl, rfl, ?_⟩
  obtain ⟨⟨⟨-, hsuite⟩, -⟩, -⟩ := hwhole
  have hfront : (.load "__name__" ++ .store "__module__" : Draft).IsCode := by simp [load, store]
  have hboth := ((draws_namespaceSuite hfit h hsuite).code_append hfront).append_code
    (d := .plain .loadLocals ++ .plain .returnValue) (by simp)
  simpa only [parts_append, List.append_assoc] using hboth

theorem definitionParts_of_function (hfits : d.node.fits = true)
    (hkind : d.node.label.kind = .functionDefinition) (hwhole : (definitionDraft d).Whole) :
    ∃ values shape body makes, DefinitionParts d values shape body makes := by
  obtain ⟨b, hbody, hfit, hdrawn, hdraws⟩ := exists_suite hfits (by rw [hkind]; rfl)
  have hclass : d.isClass = false := by rw [Definition.isClass, hkind]; rfl
  have hparts : (definitionDraft d).parts = .line d.statement.label.line ::
      (functionDefinition (ofNode d.node).place (d.decorators.map ofNode)).parts := by
    rw [definitionDraft, hclass]
    rfl
  rw [definitionDraft, hclass, if_neg (by decide)] at hwhole
  obtain ⟨hname, hwhole⟩ := whole_withText_name (d := d) hwhole.2
  simp only [hbody, need, definitionLine_eq] at hwhole
  obtain ⟨shape, body, hunit, hshape, hline, hnames, hreturns, hcode⟩ :=
    draws_functionCode hfit hdrawn hwhole.2.1.1.1
  rw [functionDefinition, hname] at hparts
  simp only [hbody, need, definitionLine_eq, hunit, parts_append, parts_unit, parts_counted,
    parts_applyDecorators, List.length_map] at hparts
  refine ⟨(decoratorValues (d.decorators.map ofNode) ++
    (Declaration.ofList ((ofNode d.node).place.field? .parameters)).defaultValues).parts,
    shape, body, [.counted .makeFunction (Declaration.ofList
      ((ofNode d.node).place.field? .parameters)).defaults.length],
    ?_, ?_, hshape, hline, fun _ => hnames, hreturns, hdraws hcode, Or.inr ⟨hclass, _, rfl⟩⟩
  · rw [hparts]
    simp [store]
  · apply IsCode.parts
    refine ⟨isCode_decoratorValues _, ?_⟩
    exact closed_defaultValues closed_isCode (below_isCode d.node).field?

theorem definitionParts_of_class (hfits : d.node.fits = true)
    (hkind : d.node.label.kind = .classDefinition) (hwhole : (definitionDraft d).Whole) :
    ∃ values shape body makes, DefinitionParts d values shape body makes := by
  obtain ⟨b, hbody, hfit, hdrawn, hdraws⟩ := exists_suite hfits (by rw [hkind]; rfl)
  have hclass : d.isClass = true := by rw [Definition.isClass, hkind]; rfl
  have hparts : (definitionDraft d).parts = .line d.statement.label.line ::
      (classDefinition (ofNode d.node).place (d.decorators.map ofNode)).parts := by
    rw [definitionDraft, hclass]
    rfl
  rw [definitionDraft, hclass, if_pos rfl] at hwhole
  obtain ⟨hname, hwhole⟩ := whole_withText_name (d := d) hwhole.2
  simp only [hbody, need, definitionLine_eq] at hwhole
  obtain ⟨shape, body, hunit, hshape, hline, hreturns, hcode⟩ :=
    draws_classCode hfit hdrawn hwhole.2.1.1.1.1.1
  rw [classDefinition, hname] at hparts
  simp only [hbody, need, definitionLine_eq, hunit, parts_append, parts_unit, parts_counted,
    parts_applyDecorators, List.length_map] at hparts
  refine ⟨(decoratorValues (d.decorators.map ofNode) ++ .literal (.str d.name) ++
    all ((bases (ofNode d.node).place).map (·.roles.value)) ++
    .counted .buildTuple (bases (ofNode d.node).place).length).parts,
    shape, body, [.counted .makeFunction 0, .counted .callFunction 0, .plain .buildClass],
    ?_, ?_, hshape, hline, ?_, hreturns, hdraws hcode, Or.inl ⟨hclass, rfl⟩⟩
  · rw [hparts]
    simp [store]
  · apply IsCode.parts
    have hbases : (all ((bases (ofNode d.node).place).map (·.roles.value))).IsCode := by
      refine isCode_all_map fun r hr => ?_
      unfold bases at hr
      split at hr
      · rename_i list hlist
        have hgives := (below_isCode d.node).field? list hlist
        exact (hgives.place.named r (List.mem_filter.mp hr).1).value
      · cases hr
    simp [isCode_decoratorValues, hbases]
  · intro hfunction
    rw [hclass] at hfunction
    cases hfunction

/-- Every definition that can be assembled has these parts. -/
theorem exists_definitionParts (hfits : d.node.fits = true)
    (hkind : d.node.label.kind.isDefinition = true) (hwhole : (definitionDraft d).Whole) :
    ∃ values shape body makes, DefinitionParts d values shape body makes := by
  cases hk : d.node.label.kind <;> rw [hk] at hkind <;>
    first
      | exact definitionParts_of_function hfits hk hwhole
      | exact definitionParts_of_class hfits hk hwhole
      | cases hkind

end Definitions

/-! ## The code of a whole source -/

theorem draws_moduleDraft {root : Node} (h : root.isSource = true)
    (hwhole : (moduleDraft (ofNode root).place).Whole) :
    Draws (moduleDraft (ofNode root).place).parts (Node.itemsAmong root.children) := by
  have hfit := Node.suitesFit_of_isSource h
  refine Draws.append_code ?_ (d := returnNone) (by simp [returnNone])
  exact draws_namespaceSuite hfit (fun c hc => allDrawn_of_fits (hfit.children c hc)) hwhole.1

end UnitAtlas.Reading
