-- Trivia means nothing: no rule looks at it. A reading without trivia is told apart from the
-- reading itself by no rule, so a tree has the unit it has without its comments.
import UnitAtlas.Proofs.Reading.Nodes
import UnitAtlas.Proofs.Syntax.Trivia

namespace UnitAtlas

open Syntax

/-! ## Readings without trivia -/

namespace Reading

mutual
/-- A reading without the trivia below it, in the same roles. -/
def bare : Reading → Reading
  | .mk ⟨label, children⟩ roles => .mk ⟨label, bareAmong children⟩ roles

def bareAmong : List Reading → List Reading
  | [] => []
  | r :: rs => if r.label.isTrivia then bareAmong rs else bare r :: bareAmong rs
end

end Reading

/-- A node among its readings, without the trivia below it. -/
def Place.bare (p : Place Reading) : Place Reading := ⟨p.label, Reading.bareAmong p.children⟩

namespace Reading

@[simp] theorem place_bare (r : Reading) : r.bare.place = r.place.bare := by
  obtain ⟨⟨label, children⟩, roles⟩ := r
  rw [bare]
  rfl

@[simp] theorem roles_bare (r : Reading) : r.bare.roles = r.roles := by
  obtain ⟨⟨label, children⟩, roles⟩ := r
  rw [bare]
  rfl

@[simp] theorem label_bare (r : Reading) : r.bare.label = r.label := by
  rw [label, place_bare]
  rfl

@[simp] theorem kind_bare (r : Reading) : r.bare.kind = r.kind := congrArg Label.kind (label_bare r)

@[simp] theorem line_bare (r : Reading) : r.bare.line = r.line := congrArg Label.line (label_bare r)

@[simp] theorem text_bare (r : Reading) : r.bare.text = r.text := congrArg Label.text (label_bare r)

/-- What is looked for and is no trivia is found all the same. -/
theorem filter_bareAmong {q : Reading → Bool} (hq : ∀ r, q r.bare = q r)
    (htrivia : ∀ r, q r = true → r.label.isTrivia = false) (rs : List Reading) :
    (bareAmong rs).filter q = (rs.filter q).map bare := by
  induction rs with
  | nil => rfl
  | cons r rs ih =>
    rw [bareAmong]
    rcases hr : q r with _ | _
    · rw [List.filter_cons_of_neg (by simp [hr])]
      split
      · exact ih
      · rw [List.filter_cons_of_neg (by simp [hq, hr]), ih]
    · rw [if_neg (by simp [htrivia r hr]), List.filter_cons_of_pos (by simp [hq, hr]),
        List.filter_cons_of_pos hr, ih, List.map_cons]

end Reading

namespace Place

variable (p : Place Reading)

@[simp] theorem label_bare : p.bare.label = p.label := rfl

@[simp] theorem kind_bare : p.bare.kind = p.kind := rfl

@[simp] theorem line_bare : p.bare.line = p.line := rfl

@[simp] theorem text_bare : p.bare.text = p.text := rfl

@[simp] theorem named_bare : p.bare.named = p.named.map Reading.bare := by
  apply Reading.filter_bareAmong
  · intro r
    rw [Reading.label_bare, Reading.kind_bare]
  · intro r hr
    simp only [Bool.and_eq_true, Bool.not_eq_true'] at hr
    rw [Label.isTrivia, show r.label.kind.isTrivia = false from hr.2, Bool.false_and]

@[simp] theorem fields_bare (f : Field) : p.bare.fields f = (p.fields f).map Reading.bare := by
  apply Reading.filter_bareAmong
  · intro r
    rw [Reading.label_bare]
  · intro r hr
    rw [beq_iff_eq] at hr
    rw [Label.isTrivia, hr, Option.isNone_some, Bool.and_false]

@[simp] theorem field?_bare (f : Field) : p.bare.field? f = (p.field? f).map Reading.bare := by
  have h := congrArg List.head? (fields_bare p f)
  rwa [fields, fields, List.head?_filter, List.head?_map, List.head?_filter] at h

end Place

/-! ## Parts of rules -/

@[simp] theorem Draft.need_map_bare (part : Option Reading) (e : DraftError)
    (use : Reading → Draft) :
    Draft.need (part.map Reading.bare) e use = Draft.need part e fun r => use r.bare := by
  cases part <;> rfl

@[simp] theorem Reading.optional_map_bare (part : Option Reading) (use : Reading → Draft) :
    Reading.optional (part.map Reading.bare) use = Reading.optional part fun r => use r.bare := by
  cases part <;> rfl

namespace Place

variable (p : Place Reading)

@[simp] theorem withText_bare (f : Field) (use : String → Draft) :
    p.bare.withText f use = p.withText f use := by
  simp [withText]

@[simp] theorem operands_bare : p.bare.operands = p.operands := by
  simp [operands, Function.comp_def]

@[simp] theorem block_bare : p.bare.block = p.block := by
  simp [block, Function.comp_def]

end Place

namespace Reading

variable (p : Place Reading)

@[simp] theorem firstValue_bare : firstValue p.bare = firstValue p := by
  rw [firstValue, firstValue, Place.named_bare, List.head?_map]
  cases p.named.head? <;> simp

/-! ## Parameter lists -/

@[simp] theorem starredName_bare (r : Reading) : starredName r.bare = starredName r := by
  simp [starredName, Function.comp_def]

@[simp] theorem typedParameter_bare (r : Reading) : typedParameter r.bare = typedParameter r := by
  simp [typedParameter]

@[simp] theorem defaultParameter_bare (r : Reading) :
    defaultParameter r.bare = defaultParameter r := by
  simp [defaultParameter, Function.comp_def]

@[simp] theorem parameter_bare (r : Reading) : parameter r.bare = parameter r := by
  rcases hfirst : r.place.named.head? with _ | inner <;> simp [parameter, hfirst]

@[simp] theorem ofList_map_bare (list : Option Reading) :
    Declaration.ofList (list.map bare) = Declaration.ofList list := by
  cases list <;> simp [Declaration.ofList, Function.comp_def]

/-! ## Expressions -/

@[simp] theorem operatorSign_bare : operatorSign p.bare = operatorSign p := by
  simp [operatorSign, Function.comp_def]

@[simp] theorem attributeOf_bare (op : Opcode.Named) :
    attributeOf op p.bare = attributeOf op p := by
  simp [attributeOf]

@[simp] theorem collection_bare (op : Opcode.Counted) : collection op p.bare = collection op p := by
  simp [collection]

@[simp] theorem booleanOperator_bare : booleanOperator p.bare = booleanOperator p := by
  simp [booleanOperator]

@[simp] theorem comparison_bare : comparison p.bare = comparison p := by
  rw [comparison, comparison, Place.named_bare]
  cases p.named <;> simp [Function.comp_def]

@[simp] theorem dictionaryEntry_bare (entry : Reading) :
    dictionaryEntry entry.bare = dictionaryEntry entry := by
  simp [dictionaryEntry]

@[simp] theorem dictionary_bare : dictionary p.bare = dictionary p := by
  simp [dictionary, Function.comp_def]

@[simp] theorem conditional_bare : conditional p.bare = conditional p := by
  rw [conditional, conditional, Place.named_bare, Place.operands_bare]
  rcases p.named with _ | ⟨body, _ | ⟨condition, _ | ⟨alternative, _ | _⟩⟩⟩ <;> simp

@[simp] theorem argument_bare (r : Reading) : argument r.bare = argument r := by
  simp [argument]

@[simp] theorem argumentCount_map_bare (arguments : List Reading) :
    argumentCount (arguments.map bare) = argumentCount arguments := by
  simp [argumentCount, List.countP_map, Function.comp_def]

@[simp] theorem callWith_map_bare (arguments : Option Reading) :
    callWith (arguments.map bare) = callWith arguments := by
  cases arguments <;> simp [callWith, Function.comp_def]

@[simp] theorem call_bare : call p.bare = call p := by
  simp [call]

@[simp] theorem lambdaUnit_bare (line : UInt32) (names : ParameterNames) (body : Reading) :
    lambdaUnit line names body.bare = lambdaUnit line names body := by
  simp [lambdaUnit]

@[simp] theorem lambda_bare : lambda p.bare = lambda p := by
  simp [lambda]

@[simp] theorem value_bare : value p.bare = value p := by
  simp only [value, Place.kind_bare, Place.text_bare, lambda_bare, call_bare, attributeOf_bare,
    Place.operands_bare, operatorSign_bare, booleanOperator_bare, comparison_bare, collection_bare,
    dictionary_bare, conditional_bare, firstValue_bare, Place.field?_bare, optional_map_bare,
    roles_bare]

/-! ## Targets -/

@[simp] theorem target_bare : target p.bare = target p := by
  simp [target, Function.comp_def]

@[simp] theorem storeOrDrop_map_bare (target : Option Reading) :
    storeOrDrop (target.map bare) = storeOrDrop target := by
  cases target <;> simp [storeOrDrop]

@[simp] theorem assignmentChain_bare : assignmentChain p.bare = assignmentChain p := by
  rw [assignmentChain, assignmentChain, Place.field?_bare, Place.field?_bare]
  rcases p.field? .left with _ | left
  · rfl
  · rcases p.field? .right with _ | right <;> simp

@[simp] theorem augmentedAssignment_bare : augmentedAssignment p.bare = augmentedAssignment p := by
  simp [augmentedAssignment]

/-! ## Definitions -/

@[simp] theorem docstring_map_bare (rs : List Reading) : docstring (rs.map bare) = docstring rs := by
  rcases rs with _ | ⟨first, rest⟩
  · rfl
  · rw [List.map_cons, docstring, docstring, kind_bare, place_bare, Place.named_bare]
    rcases first.place.named with _ | ⟨inner, _ | ⟨second, later⟩⟩
    · rfl
    · by_cases hkind : first.kind = .expressionStatement <;> simp [hkind]
    · simp

@[simp] theorem firstStatementLine_map_bare (rs : List Reading) :
    firstStatementLine (rs.map bare) = firstStatementLine rs := by
  rcases rs with _ | ⟨first, rest⟩ <;> simp [firstStatementLine]

@[simp] theorem statements_map_bare (rs : List Reading) :
    statements (rs.map bare) = statements rs := by
  simp [statements, Function.comp_def]

@[simp] theorem namespaceSuite_map_bare (rs : List Reading) :
    namespaceSuite (rs.map bare) = namespaceSuite rs := by
  simp [namespaceSuite, ← List.map_tail]

@[simp] theorem functionUnit_bare (name : String) (line : UInt32) (names : ParameterNames)
    (body : Reading) : functionUnit name line names body.bare = functionUnit name line names body := by
  simp [functionUnit, ← List.map_tail]

@[simp] theorem classUnit_bare (name : String) (line : UInt32) (body : Reading) :
    classUnit name line body.bare = classUnit name line body := by
  simp [classUnit]

@[simp] theorem moduleDraft_bare : moduleDraft p.bare = moduleDraft p := by
  simp [moduleDraft]

@[simp] theorem decoratorValues_map_bare (decorators : List Reading) :
    decoratorValues (decorators.map bare) = decoratorValues decorators := by
  simp [decoratorValues, Function.comp_def]

@[simp] theorem applyDecorators_map_bare (decorators : List Reading) :
    applyDecorators (decorators.map bare) = applyDecorators decorators := by
  simp [applyDecorators, Function.comp_def]

@[simp] theorem definitionLine_bare (decorators : List Reading) :
    definitionLine p.bare (decorators.map bare) = definitionLine p decorators := by
  simp [definitionLine, Function.comp_def]

@[simp] theorem functionDefinition_bare (decorators : List Reading) :
    functionDefinition p.bare (decorators.map bare) = functionDefinition p decorators := by
  simp [functionDefinition]

@[simp] theorem bases_bare : bases p.bare = (bases p).map bare := by
  rw [bases, bases, Place.field?_bare]
  cases p.field? .superclasses <;> simp [List.filter_map, Function.comp_def]

@[simp] theorem classDefinition_bare (decorators : List Reading) :
    classDefinition p.bare (decorators.map bare) = classDefinition p decorators := by
  simp [classDefinition, Function.comp_def]

@[simp] theorem decoratedDefinition_bare : decoratedDefinition p.bare = decoratedDefinition p := by
  simp [decoratedDefinition, List.filter_map, Function.comp_def]

/-! ## Compound statements -/

@[simp] theorem suite_bare : suite p.bare = suite p := by
  simp [suite, Function.comp_def]

@[simp] theorem elseBody_bare (clause : Reading) : elseBody clause.bare = elseBody clause := by
  rw [elseBody, elseBody, place_bare, Place.field?_bare]
  cases clause.place.field? .body <;> simp

@[simp] theorem blockOf_map_bare (part : Option Reading) :
    blockOf (part.map bare) = blockOf part := by
  simp [blockOf]

@[simp] theorem alternatives_map_bare (rs : List Reading) :
    alternatives (rs.map bare) = alternatives rs := by
  induction rs with
  | nil => rfl
  | cons r rest ih => simp [alternatives, ih]

@[simp] theorem ifStatement_bare : ifStatement p.bare = ifStatement p := by
  simp [ifStatement]

@[simp] theorem whileStatement_bare : whileStatement p.bare = whileStatement p := by
  simp [whileStatement]

@[simp] theorem forStatement_bare : forStatement p.bare = forStatement p := by
  simp [forStatement]

/-! ## Handlers -/

@[simp] theorem isHandler_bare (r : Reading) : isHandler r.bare = isHandler r := by
  simp [isHandler]

@[simp] theorem handlerSuites_map_bare (parts : List Reading) :
    handlerSuites (parts.map bare) = handlerSuites parts := by
  simp [handlerSuites, List.filter_map, Function.comp_def]

theorem catchOf_map_bare (rs : List Reading) :
    catchOf (rs.map bare) =
      (catchOf rs).map fun caught => ⟨caught.type.map bare, caught.name.map bare⟩ := by
  rcases rs with _ | ⟨r, rest⟩
  · rfl
  · simp only [List.map_cons, catchOf, kind_bare, place_bare, Place.named_bare, List.head?_map,
      Place.field?_bare]
    split <;> rfl

@[simp] theorem handler_bare (r : Reading) : handler r.bare = handler r := by
  simp only [handler, place_bare, Place.named_bare, List.filter_map, Function.comp_def, kind_bare,
    catchOf_map_bare, line_bare]
  cases catchOf (r.place.named.filter (·.kind != .block)) <;> simp

@[simp] theorem guarded_map_bare (body : Draft) (handlers : List Reading) (otherwise : Draft) :
    guarded body (handlers.map bare) otherwise = guarded body handlers otherwise := by
  simp [guarded, Function.comp_def]

@[simp] theorem handledBody_bare : handledBody p.bare = handledBody p := by
  simp [handledBody, List.filter_map, List.find?_map, Function.comp_def]

@[simp] theorem tryStatement_bare : tryStatement p.bare = tryStatement p := by
  rw [tryStatement, tryStatement, Place.named_bare, List.find?_map]
  simp only [Function.comp_def, kind_bare]
  cases p.named.find? (·.kind == .finallyClause) <;> simp

/-! ## Managed blocks -/

@[simp] theorem withItem_bare (inner : Draft) (item : Reading) :
    withItem inner item.bare = withItem inner item := by
  simp [withItem, ← Option.map_or]

@[simp] theorem withStatement_bare : withStatement p.bare = withStatement p := by
  rw [withStatement, withStatement, Place.named_bare, List.find?_map]
  simp only [Function.comp_def, kind_bare]
  cases p.named.find? (·.kind == .withClause) <;> simp [List.foldr_map]

/-! ## Simple statements -/

@[simp] theorem importItem_bare (r : Reading) : importItem r.bare = importItem r := by
  simp [importItem]

@[simp] theorem importStatement_bare : importStatement p.bare = importStatement p := by
  simp [importStatement, Function.comp_def]

@[simp] theorem importedName_bare (r : Reading) : importedName r.bare = importedName r := by
  simp [importedName]

@[simp] theorem importFrom_bare (module : String) : importFrom module p.bare = importFrom module p := by
  simp [importFrom, List.any_map, Function.comp_def]

@[simp] theorem expressionPart_bare (r : Reading) : expressionPart r.bare = expressionPart r := by
  simp [expressionPart]

@[simp] theorem expressionStatement_bare : expressionStatement p.bare = expressionStatement p := by
  simp [expressionStatement, Function.comp_def]

@[simp] theorem assertStatement_bare : assertStatement p.bare = assertStatement p := by
  rw [assertStatement, assertStatement, Place.named_bare]
  cases p.named <;> simp

@[simp] theorem deletion_bare (r : Reading) : deletion r.bare = deletion r := by
  simp [deletion]

@[simp] theorem deletedParts_bare : deletedParts p.bare = (deletedParts p).map bare := by
  rw [deletedParts, deletedParts, Place.named_bare]
  rcases p.named with _ | ⟨r, _ | ⟨second, rest⟩⟩
  · rfl
  · simp only [List.map_cons, List.map_nil, kind_bare, place_bare, Place.named_bare]
    split <;> rfl
  · rfl

@[simp] theorem deleteStatement_bare : deleteStatement p.bare = deleteStatement p := by
  simp [deleteStatement, Function.comp_def]

@[simp] theorem printStatement_bare : printStatement p.bare = printStatement p := by
  simp [printStatement, Function.comp_def]

@[simp] theorem statement_bare : statement p.bare = statement p := by
  have hfunction := functionDefinition_bare p []
  have hclass := classDefinition_bare p []
  rw [List.map_nil] at hfunction hclass
  simp [statement, statementBody, hfunction, hclass, Function.comp_def]

/-! ## Whole trees -/

/-- No role of a node depends on trivia below it. -/
theorem rolesOf_bare : rolesOf p.bare = rolesOf p := by
  simp [rolesOf]

mutual
theorem ofNode_bare : ∀ n : Node, ofNode n.bare = (ofNode n).bare
  | ⟨label, children⟩ => by
    have hplace : (⟨label, ofNodes (Node.bareAmong children)⟩ : Place Reading) =
        Place.bare ⟨label, ofNodes children⟩ := by
      rw [ofNodes_bareAmong children]
      rfl
    rw [Node.bare, ofNode, ofNode, hplace, rolesOf_bare]
    rfl

theorem ofNodes_bareAmong : ∀ cs : List Node, ofNodes (Node.bareAmong cs) = bareAmong (ofNodes cs)
  | [] => rfl
  | c :: cs => by
    rw [Node.bareAmong, ofNodes, bareAmong, label_ofNode]
    split
    · exact ofNodes_bareAmong cs
    · rw [ofNodes, ofNode_bare c, ofNodes_bareAmong cs]
end

/-- A tree has the unit that it has without trivia, or the same error. -/
theorem unitOf_bare (filename : String) (root : Node) :
    unitOf filename root.bare = unitOf filename root := by
  rw [unitOf, unitOf, ofNode_bare, place_bare, moduleDraft_bare]

end Reading

end UnitAtlas
