-- The rules for reading statements make orderly drafts too: every loop that they write jumps back
-- to its start, every unit ends by leaving itself and has a docstring at most among its constants
-- before there is code, and no other floats are asked for than those of values. So the draft of a
-- whole source is orderly, and well shaped, whatever its tree.
import UnitAtlas.Proofs.Reading.Shape

namespace UnitAtlas.Reading

open Syntax Draft

variable {q : UInt64 → Bool} {p : Place Reading}

/-! ## Definitions -/

section Definitions

variable {rs decorators : List Reading}

theorem orderly_firstStatementLine (rs : List Reading) :
    (firstStatementLine rs).Orderly q := by
  unfold firstStatementLine
  split <;> trivial

theorem orderly_statements (h : ∀ r ∈ rs, r.Orderly q) : (statements rs).Orderly q :=
  orderly_all_map fun r hr => (h r hr).statement

theorem orderly_statements_tail (h : ∀ r ∈ rs, r.Orderly q) :
    (statements rs.tail).Orderly q :=
  orderly_statements fun r hr => h r (List.mem_of_mem_tail hr)

theorem orderly_namespaceSuite (h : ∀ r ∈ rs, r.Orderly q) :
    (namespaceSuite rs).Orderly q := by
  unfold namespaceSuite
  split
  · simp [orderly_firstStatementLine, orderly_statements_tail h]
  · exact orderly_statements h

theorem orderly_functionUnit (name : String) (line : UInt32) (names : ParameterNames)
    {body : Reading} (h : body.Orderly q) : (functionUnit name line names body).Orderly q := by
  have hrs := h.place.named
  have hstatements := orderly_statements hrs
  have htail := orderly_statements_tail hrs
  unfold functionUnit
  rcases hdoc : docstring body.place.named with _ | doc
  · simp [returnNone, hdoc, hstatements]
  · simp [returnNone, hdoc, orderly_firstStatementLine, htail]

theorem orderly_classUnit (name : String) (line : UInt32) {body : Reading}
    (h : body.Orderly q) : (classUnit name line body).Orderly q := by
  simp [classUnit, orderly_namespaceSuite h.place.named]

theorem orderly_decoratorValues (h : ∀ r ∈ decorators, r.Orderly q) :
    (decoratorValues decorators).Orderly q :=
  orderly_all_map fun r hr => (h r hr).place.operands

theorem orderly_applyDecorators (decorators : List Reading) :
    (applyDecorators decorators).Orderly q :=
  orderly_all_map fun _ _ => orderly_counted _ _

theorem orderly_functionDefinition (hp : p.Orderly q) (h : ∀ r ∈ decorators, r.Orderly q) :
    (functionDefinition p decorators).Orderly q := by
  apply Place.orderly_withText
  intro name
  refine ⟨⟨orderly_decoratorValues h, closed_defaultValues (closed_orderly q) hp.gives.field?⟩, ?_⟩
  apply orderly_need_part hp.field?
  intro body hbody
  have hunit := orderly_functionUnit name (definitionLine p decorators)
    (Declaration.ofList (p.field? .parameters)).names hbody
  simp [hunit, orderly_applyDecorators]

theorem orderly_bases (hp : p.Orderly q) : ∀ r ∈ bases p, r.Orderly q := by
  unfold bases
  split
  · rename_i list hlist
    intro r hr
    exact (hp.field? list hlist).place.named r (List.mem_filter.mp hr).1
  · exact nofun

theorem orderly_classDefinition (hp : p.Orderly q) (h : ∀ r ∈ decorators, r.Orderly q) :
    (classDefinition p decorators).Orderly q := by
  apply Place.orderly_withText
  intro name
  have hbases : (all ((bases p).map (·.roles.value))).Orderly q :=
    orderly_all_map fun r hr => (orderly_bases hp r hr).value
  refine ⟨by simp [orderly_decoratorValues h, hbases], ?_⟩
  apply orderly_need_part hp.field?
  intro body hbody
  have hunit := orderly_classUnit name (definitionLine p decorators) hbody
  simp [hunit, orderly_applyDecorators]

theorem orderly_decoratedDefinition (hp : p.Orderly q) :
    (decoratedDefinition p).Orderly q := by
  have hdecorators : ∀ r ∈ p.named.filter (·.kind == .decorator), r.Orderly q :=
    fun r hr => hp.named r (List.mem_filter.mp hr).1
  apply orderly_need_part hp.field?
  intro r hr
  split
  · exact orderly_classDefinition hr.place hdecorators
  · exact orderly_functionDefinition hr.place hdecorators

end Definitions

/-- The code of a whole source. -/
theorem orderly_moduleDraft (hp : p.Orderly q) : (moduleDraft p).Orderly q := by
  simp [moduleDraft, returnNone, orderly_namespaceSuite hp.named]

theorem returns_moduleDraft (p : Place Reading) : (moduleDraft p).Returns := rfl

/-! ## Branches and loops -/

theorem orderly_suite (hp : p.Orderly q) : (suite p).Orderly q := by
  apply orderly_all_map
  intro r hr
  have hr := hp.named r hr
  split
  · exact hr.place.block
  · split
    · exact hr.suite
    · simp [hr.value]

theorem orderly_elseBody {clause : Reading} (h : clause.Orderly q) :
    (elseBody clause).Orderly q := by
  unfold elseBody
  split
  · rename_i body hbody
    exact (h.place.field? body hbody).place.block
  · exact h.suite

section Parts

variable {part : Option Reading}

theorem orderly_blockOf (h : ∀ r, part = some r → r.Orderly q) : (blockOf part).Orderly q :=
  orderly_optional h fun _ hr => hr.place.block

theorem orderly_otherwise (h : ∀ r, part = some r → r.Orderly q) :
    (optional part elseBody).Orderly q :=
  orderly_optional h fun _ => orderly_elseBody

end Parts

theorem orderly_branch {body : Draft} (h : body.Orderly q) (more : Bool) :
    (branch body more).Orderly q := by
  cases more <;> simp [branch, h]

theorem orderly_alternatives {rs : List Reading} (h : ∀ r ∈ rs, r.Orderly q) :
    (alternatives rs).Orderly q := by
  induction rs with
  | nil => trivial
  | cons r rest ih =>
    obtain ⟨hr, hrest⟩ := List.forall_mem_cons.mp h
    refine ⟨orderly_line r.line, ?_⟩
    split
    · apply orderly_need_part hr.place.field?
      intro condition hcondition
      have hbody := orderly_blockOf (hr.place.field? (f := .consequence))
      simp [hcondition.value, orderly_branch hbody, ih hrest]
    · refine ⟨⟨orderly_elseBody hr, ?_⟩, ih hrest⟩
      split <;> simp

theorem orderly_ifStatement (hp : p.Orderly q) : (ifStatement p).Orderly q := by
  apply orderly_need_part hp.field?
  intro condition hcondition
  have hbody := orderly_blockOf (hp.field? (f := .consequence))
  have halternatives := orderly_alternatives (hp.fields .alternative)
  simp [hcondition.value, orderly_branch hbody, halternatives]

/-- What is run again and again ends by jumping back. -/
theorem orderly_repeated {test body : Draft} (exit : Opcode.Jump) (htest : test.Orderly q)
    (hbody : body.Orderly q) : (repeated test exit body).Orderly q := by
  simp [repeated, htest, hbody]

theorem orderly_whileStatement (hp : p.Orderly q) : (whileStatement p).Orderly q := by
  have hbody := orderly_blockOf (hp.field? (f := .body))
  have hotherwise := orderly_otherwise (hp.field? (f := .alternative))
  refine ⟨orderly_jump .setupLoop 0, ?_⟩
  apply orderly_need_part hp.field?
  intro condition hcondition
  simp [orderly_repeated _ hcondition.value hbody, hotherwise]

theorem orderly_forStatement (hp : p.Orderly q) : (forStatement p).Orderly q := by
  have hbody := orderly_blockOf (hp.field? (f := .body))
  have hotherwise := orderly_otherwise (hp.field? (f := .alternative))
  have hround : (need (p.field? .left) (.lacks "for" .target) fun element =>
      element.roles.target ++ blockOf (p.field? .body)).Orderly q :=
    orderly_need_part hp.field? fun element helement => ⟨helement.target, hbody⟩
  refine ⟨orderly_jump .setupLoop 0, ?_⟩
  apply orderly_need_part hp.field?
  intro iterable hiterable
  simp [hiterable.value, orderly_repeated _ orderly_skip hround, hotherwise]

/-! ## Handlers -/

section Handlers

variable {parts : List Reading}

theorem orderly_catchOf (h : ∀ r ∈ parts, r.Orderly q) {caught : Catch}
    (hcaught : catchOf parts = some caught) :
    (∀ r, caught.type = some r → r.Orderly q) ∧ ∀ r, caught.name = some r → r.Orderly q := by
  cases parts with
  | nil => cases hcaught
  | cons r rest =>
    obtain ⟨hr, hrest⟩ := List.forall_mem_cons.mp h
    rw [catchOf] at hcaught
    split at hcaught
    · cases hcaught
      exact ⟨hr.place.head?, hr.place.field?⟩
    · cases hcaught
      refine ⟨?_, fun name hname => hrest name (List.mem_of_head? hname)⟩
      rintro type htype
      cases htype
      exact hr

theorem orderly_handlerSuites (h : ∀ r ∈ parts, r.Orderly q) :
    (handlerSuites parts).Orderly q :=
  orderly_all_map fun r hr => (h r (List.mem_filter.mp hr).1).place.block

theorem orderly_handler {r : Reading} (hr : r.Orderly q) : (handler r).Orderly q := by
  have hparts := hr.place.named
  have hsuites := orderly_handlerSuites hparts
  refine ⟨orderly_line r.line, ?_⟩
  split
  · rename_i caught hcaught
    obtain ⟨htype, hname⟩ :=
      orderly_catchOf (fun r hr => hparts r (List.mem_filter.mp hr).1) hcaught
    have htest : (optional caught.type (·.roles.value)).Orderly q :=
      orderly_optional htype fun _ hr => hr.value
    simp [htest, orderly_storeOrDrop hname, hsuites]
  · simp [hsuites]

theorem orderly_guarded {body otherwise : Draft} (hbody : body.Orderly q)
    (h : ∀ r ∈ parts, r.Orderly q) (hotherwise : otherwise.Orderly q) :
    (guarded body parts otherwise).Orderly q := by
  have hhandlers : (all (parts.map handler)).Orderly q :=
    orderly_all_map fun r hr => orderly_handler (h r hr)
  simp [guarded, hbody, hhandlers, hotherwise]

theorem orderly_handledBody (hp : p.Orderly q) : (handledBody p).Orderly q := by
  have hbody := orderly_blockOf (hp.field? (f := .body))
  unfold handledBody
  dsimp only
  split
  · exact hbody
  · refine orderly_guarded hbody (fun r hr => hp.named r (List.mem_filter.mp hr).1) ?_
    exact orderly_otherwise fun r hr => hp.named r (List.mem_of_find?_eq_some hr)

theorem orderly_tryStatement (hp : p.Orderly q) : (tryStatement p).Orderly q := by
  have hbody := orderly_handledBody hp
  unfold tryStatement
  split
  · exact hbody
  · rename_i clause hclause
    have hsuite := (hp.named clause (List.mem_of_find?_eq_some hclause)).suite
    simp [hbody, hsuite]

end Handlers

/-! ## Managed blocks -/

theorem orderly_managed {bind inner : Draft} (hbind : bind.Orderly q)
    (hinner : inner.Orderly q) : (managed bind inner).Orderly q := by
  simp [managed, hbind, hinner]

theorem orderly_withItem {inner : Draft} (hinner : inner.Orderly q) {item : Reading}
    (hitem : item.Orderly q) : (withItem inner item).Orderly q := by
  have hvalue : ∀ v, (item.place.field? .value).or item.place.named.head? = some v →
      v.Orderly q := by
    intro v hv
    rcases Option.or_eq_some_iff.mp hv with hv | ⟨-, hv⟩
    · exact hitem.place.field? v hv
    · exact hitem.place.head? v hv
  apply orderly_need_part hvalue
  intro v hv
  split
  · have hmanager : (optional v.place.named.head? (·.roles.value)).Orderly q :=
      orderly_optional hv.place.head? fun _ hr => hr.value
    exact ⟨hmanager, orderly_managed (orderly_storeOrDrop hv.place.field?) hinner⟩
  · exact ⟨hv.value, orderly_managed (orderly_plain .popTop) hinner⟩

theorem orderly_withStatement (hp : p.Orderly q) : (withStatement p).Orderly q := by
  have hbody := orderly_blockOf (hp.field? (f := .body))
  have hitems : ∀ items : List Reading, (∀ r ∈ items, r.Orderly q) →
      (items.foldr (fun item inner => withItem inner item)
        (blockOf (p.field? .body))).Orderly q := by
    intro items
    induction items with
    | nil => exact fun _ => hbody
    | cons item rest ih =>
      intro hitems
      obtain ⟨hitem, hrest⟩ := List.forall_mem_cons.mp hitems
      exact orderly_withItem (ih hrest) hitem
  refine hitems _ ?_
  split
  · rename_i clause hclause
    exact (hp.named clause (List.mem_of_find?_eq_some hclause)).place.named
  · exact nofun

/-! ## Simple statements -/

theorem orderly_importItem (r : Reading) : (importItem r).Orderly q := by
  unfold importItem
  split
  · refine Place.orderly_withText fun module => Place.orderly_withText fun name => ?_
    have hparts : ∀ parts : List String,
        (all (parts.map (.named .loadAttribute ·))).Orderly q := fun parts =>
      orderly_all_map fun _ _ => orderly_named _ _
    simp only [importLevel, importAs, orderly_append, orderly_literal, orderly_named,
      orderly_store, hparts, Literal.floatIs, and_self]
  · simp [importLevel, importPlain]

theorem orderly_importedName (r : Reading) : (importedName r).Orderly q := by
  unfold importedName
  split
  · refine Place.orderly_withText fun wanted => Place.orderly_withText fun name => ?_
    simp
  · simp

theorem orderly_importFrom (module : String) (p : Place Reading) :
    (importFrom module p).Orderly q := by
  refine ⟨rfl, ?_⟩
  split
  · simp
  · have hnames : (all ((p.fields .name).map importedName)).Orderly q :=
      orderly_all_map fun r _ => orderly_importedName r
    simp [hnames]

theorem orderly_expressionPart {r : Reading} (hr : r.Orderly q) :
    (expressionPart r).Orderly q := by
  unfold expressionPart
  split
  · exact closed_assignment (closed_orderly q) hr.gives
  · exact closed_augmentedAssignment (closed_orderly q) hr.place.gives
  · simp [hr.value]

theorem orderly_assertStatement (hp : p.Orderly q) : (assertStatement p).Orderly q := by
  have hnamed := hp.named
  unfold assertStatement
  split
  · trivial
  · rename_i condition rest hparts
    rw [hparts, List.forall_mem_cons] at hnamed
    obtain ⟨hcondition, hrest⟩ := hnamed
    have hmessage : (optional rest.head? fun message =>
        message.roles.value ++ .counted .callFunction 1).Orderly q := by
      apply orderly_optional (fun r hr => hrest r (List.mem_of_head? hr))
      intro r hr
      simp [hr.value]
    simp [hcondition.value, hmessage]

theorem orderly_deletion {r : Reading} (hr : r.Orderly q) : (deletion r).Orderly q := by
  unfold deletion
  split
  · trivial
  · exact closed_attributeOf (closed_orderly q) hr.place.gives _
  · simp [hr.place.operands]
  · simp [hr.value]

theorem orderly_deletedParts (hp : p.Orderly q) : ∀ r ∈ deletedParts p, r.Orderly q := by
  have hnamed := hp.named
  unfold deletedParts
  split
  · rename_i r hparts
    rw [hparts] at hnamed
    split
    · exact (hnamed r List.mem_cons_self).place.named
    · exact hnamed
  · exact hnamed

theorem orderly_printStatement (hp : p.Orderly q) : (printStatement p).Orderly q := by
  refine ⟨orderly_all_map fun r hr => ?_, orderly_plain .printNewline⟩
  simp [(hp.named r hr).value]

/-! ## All kinds -/

theorem orderly_statementBody (hp : p.Orderly q) : (statementBody p).Orderly q := by
  have hfunction : (functionDefinition p []).Orderly q := orderly_functionDefinition hp nofun
  have hclass : (classDefinition p []).Orderly q := orderly_classDefinition hp nofun
  have hdecorated := orderly_decoratedDefinition hp
  have hexpression : (expressionStatement p).Orderly q :=
    orderly_all_map fun r hr => orderly_expressionPart (hp.named r hr)
  have hreturn := closed_firstValue (closed_orderly q) hp.gives
  have hif := orderly_ifStatement hp
  have hwhile := orderly_whileStatement hp
  have hfor := orderly_forStatement hp
  have htry := orderly_tryStatement hp
  have hwith := orderly_withStatement hp
  have himport : (importStatement p).Orderly q :=
    orderly_all_map fun r _ => orderly_importItem r
  have hfrom : ∀ module, (importFrom module p).Orderly q := fun module =>
    orderly_importFrom module p
  have hfromText : (p.withText .moduleName fun module => importFrom module p).Orderly q :=
    Place.orderly_withText hfrom
  have hglobal : (all (p.named.map fun r => .declareGlobal r.text)).Orderly q :=
    orderly_all_map fun r _ => orderly_declareGlobal r.text
  have hraise := closed_collection (closed_orderly q) hp.gives .raiseVarArgs
  have hassert := orderly_assertStatement hp
  have hdelete : (deleteStatement p).Orderly q :=
    orderly_all_map fun r hr => orderly_deletion (orderly_deletedParts hp r hr)
  have hprint := orderly_printStatement hp
  have hoperands := hp.operands
  have hsuite := orderly_suite hp
  unfold statementBody
  split <;> simp [*]

theorem orderly_statement (hp : p.Orderly q) : (statement p).Orderly q := by
  simp [statement, orderly_statementBody hp]

/-! ## Whole trees -/

mutual
/-- From the leaves up, all readings are orderly. -/
theorem orderly_ofNode : ∀ n : Node, n.floatsAre q = true → (ofNode n).Orderly q
  | ⟨label, children⟩, h => by
    have hchildren := orderly_ofNodes children (Node.everywhere_iff.mp h).2
    have hgives := gives_ofNode (closed_orderly q) ⟨label, children⟩ h
    rw [ofNode] at hgives ⊢
    exact .mk hgives (orderly_statement hchildren) (orderly_suite hchildren) hchildren

theorem orderly_ofNodes :
    ∀ ns : List Node, (∀ n ∈ ns, n.floatsAre q = true) → ∀ r ∈ ofNodes ns, r.Orderly q
  | [], _ => by simp [ofNodes]
  | n :: ns, h => by
    obtain ⟨hn, hns⟩ := List.forall_mem_cons.mp h
    have hn := orderly_ofNode n hn
    have hns := orderly_ofNodes ns hns
    rw [ofNodes]
    exact List.forall_mem_cons.mpr ⟨hn, hns⟩
end

/-- The draft of a source is orderly, if its floats are as they should be. -/
theorem orderly_draft {root : Node} (h : root.floatsAre q = true) :
    (moduleDraft (ofNode root).place).Orderly q :=
  orderly_moduleDraft (orderly_ofNode root h).place

/-- It is well shaped, whatever its floats are. -/
theorem wellShaped_draft (root : Node) : (moduleDraft (ofNode root).place).WellShaped :=
  (orderly_draft root.floatsAre_true).wellShaped

end UnitAtlas.Reading
