-- The lambdas of a syntax tree, but for those in the few places whose code is never made, and the
-- grammar of expressions: which children of a node expressions and targets stand in.
import Mathlib.Algebra.BigOperators.Group.List.Basic
import Mathlib.Algebra.Order.Group.Multiset
import UnitAtlas.Proofs.Syntax.Suites

namespace UnitAtlas.Syntax

/-! ## Lambdas -/

/-- Nodes that no rule is for. -/
def Kind.isOther : Kind → Bool
  | .other _ => true
  | _ => false

/-- Nodes that tell the type of something. -/
def Kind.isAnnotation : Kind → Bool
  | .other name => name == "type" || name == "type_parameter"
  | _ => false

namespace Node

mutual
/-- Whether an assignment has a value: something stands on its right, and if that is an assignment
again, then it has one. -/
def givesValue : Node → Bool
  | ⟨_, children⟩ => givesValueAmong children

def givesValueAmong : List Node → Bool
  | [] => false
  | c :: cs =>
    if c.label.field == some .right then c.label.kind != .assignment || givesValue c
    else givesValueAmong cs
end

/-- The children that are no code of their own: the interpolations of a string, and annotations. -/
def hides (n : Node) (l : Label) : Bool :=
  match n.label.kind with
  | .string | .concatenatedString => true
  | .functionDefinition | .classDefinition | .typedParameter | .typedDefaultParameter
  | .assignment => l.kind.isAnnotation
  | _ => false

/-- The children that no code is made of: the interpolations of a string, annotations, what a
class is given by keyword, and the target of an annotation without a value. -/
def leavesOut (n : Node) (l : Label) : Bool :=
  match n.label.kind with
  | .string | .concatenatedString => true
  | .functionDefinition | .classDefinition | .typedParameter | .typedDefaultParameter =>
    l.kind.isAnnotation
  | .assignment => l.kind.isAnnotation || (l.field == some .left && !n.givesValue)
  | .other _ => n.label.field == some .superclasses && l.kind == .keywordArgument
  | _ => false

mutual
/-- The lambdas of a tree, outer ones first, but for those in some children of each node. -/
def lambdasBut (out : Node → Label → Bool) : Node → List Node
  | ⟨label, children⟩ =>
    (if label.kind == .lambda then [⟨label, children⟩] else [])
      ++ lambdasAmong out (out ⟨label, children⟩) children

def lambdasAmong (out : Node → Label → Bool) (here : Label → Bool) : List Node → List Node
  | [] => []
  | c :: cs => (if here c.label then [] else lambdasBut out c) ++ lambdasAmong out here cs
end

/-- The lambdas of a tree that stand in no string and in no annotation. -/
def shownLambdas (n : Node) : List Node := n.lambdasBut hides

/-- Those of them that code is made of. -/
def lambdas (n : Node) : List Node := n.lambdasBut leavesOut

/-- The children that are not left out. -/
def kept (n : Node) : List Node := n.children.filter fun c => !n.leavesOut c.label

/-- The children with lambdas in them. -/
def live (n : Node) : List Node := n.kept.filter fun c => !c.lambdas.isEmpty

end Node

/-! ## Where expressions stand -/

namespace Kind

/-- Everything but statements and their parts, assignments and parameters. -/
def isExpression : Kind → Bool
  | .block | .functionDefinition | .classDefinition | .decoratedDefinition | .decorator
  | .expressionStatement | .returnStatement | .passStatement | .breakStatement | .continueStatement
  | .ifStatement | .whileStatement | .forStatement | .tryStatement | .withStatement
  | .importStatement | .importFromStatement | .futureImportStatement | .globalStatement
  | .nonlocalStatement | .raiseStatement | .assertStatement | .deleteStatement | .printStatement
  | .execStatement | .assignment | .augmentedAssignment
  | .defaultParameter | .typedDefaultParameter | .typedParameter | .dictionarySplatPattern
  | .keywordSeparator | .elifClause | .elseClause | .exceptClause | .exceptGroupClause
  | .finallyClause | .withClause | .aliasedImport | .wildcardImport => false
  | _ => true

/-- The statements that some rule is for, and those that the grammar adds to them. -/
def isStatement : Kind → Bool
  | .functionDefinition | .classDefinition | .decoratedDefinition
  | .expressionStatement | .returnStatement | .passStatement | .breakStatement | .continueStatement
  | .ifStatement | .whileStatement | .forStatement | .tryStatement | .withStatement
  | .importStatement | .importFromStatement | .futureImportStatement | .globalStatement
  | .nonlocalStatement | .raiseStatement | .assertStatement | .deleteStatement | .printStatement
  | .execStatement | .other _ => true
  | _ => false

/-- Targets that other targets stand in. -/
def isPattern : Kind → Bool
  | .patternList | .tuplePattern | .listPattern | .tuple | .list | .expressionList
  | .listSplatPattern | .listSplat | .parenthesizedExpression | .asPatternTarget => true
  | _ => false

/-- Parameters that have a default value. -/
def hasDefault : Kind → Bool
  | .defaultParameter | .typedDefaultParameter => true
  | _ => false

/-- The fields that expressions and suites are held under; none where any child may be one. -/
def fields? : Kind → Option (List Field)
  | .identifier | .integer | .float | .trueLiteral | .falseLiteral | .noneLiteral | .ellipsis
  | .passStatement | .breakStatement | .continueStatement | .importStatement
  | .importFromStatement | .futureImportStatement | .globalStatement | .nonlocalStatement =>
    some []
  | .attributeAccess => some [.object]
  | .call => some [.function, .arguments]
  | .booleanOperator | .assignment | .augmentedAssignment => some [.left, .right]
  | .pair => some [.key, .value]
  | .keywordArgument | .defaultParameter | .typedDefaultParameter => some [.value]
  | .lambda | .functionDefinition => some [.parameters, .body]
  | .classDefinition => some [.superclasses, .body]
  | .ifStatement => some [.condition, .consequence, .alternative]
  | .elifClause => some [.condition, .consequence]
  | .elseClause => some [.body]
  | .whileStatement => some [.condition, .body, .alternative]
  | .forStatement => some [.left, .right, .body, .alternative]
  | _ => none

end Kind

namespace Node

/-- The node is not a list that belongs to a definition or a lambda. -/
def isFree (n : Node) : Bool :=
  n.label.field != some .superclasses && n.label.field != some .parameters

/-- A node that has a value. -/
def isExpression (n : Node) : Bool := n.label.kind.isExpression && !n.holdsSuite && n.isFree

/-- A suite, or a clause that no rule is for. -/
def isSuitePart (n : Node) : Bool :=
  n.label.kind == .block || (n.label.kind.isOther && n.label.kind.isClause && n.isFree)

def isParameterList (n : Node) : Bool :=
  n.label.kind.isOther && n.label.field == some .parameters

/-- The node is there to be run, not to tell a type. -/
def isRun (n : Node) : Bool := !n.label.kind.isAnnotation

mutual
/-- A node that a value can be stored into, as far as lambdas are concerned. -/
def assignable : Node → Bool
  | ⟨label, children⟩ =>
    if label.kind.isPattern then assignableAmong children
    else label.kind == .attributeAccess || label.kind == .subscript
      || (lambdas ⟨label, children⟩).isEmpty

def assignableAmong : List Node → Bool
  | [] => true
  | c :: cs => assignable c && assignableAmong cs
end

/-- At most one child is held under the field. -/
def holdsOnce (n : Node) (f : Field) : Bool :=
  (n.children.filter (·.label.field == some f)).length ≤ 1

/-- The children with lambdas in them are held under these fields. Only an `if` has more than one
child under a field, its alternatives. -/
def holdsUnder (n : Node) (fields : List Field) : Bool :=
  (n.live.all fun c => fields.any (c.label.field == some ·)) &&
    fields.all fun f => (n.label.kind == .ifStatement && f == .alternative) || n.holdsOnce f

/-- The children of an expression are expressions. -/
def operandsFit (n : Node) : Bool := n.children.all isExpression

/-- No lambda is found below the named children after the first ones. -/
def isPlainAfter (count : Nat) (n : Node) : Bool := (n.named.drop count).all (·.lambdas.isEmpty)

/-- What a name is given to by `as`, and the name. -/
def bindsFit (n : Node) : Bool :=
  match n.named with
  | [first] => first.isExpression && (n.child? .asName).isNone
  | [first, name] =>
    first.isExpression && name.label.field == some .asName && name.assignable
      && n.holdsOnce .asName
  | _ => false

/-- A value that stands alone, or that a name is given to. -/
def caughtFits (n : Node) : Bool :=
  n.isExpression && (n.label.kind != .asPattern || n.bindsFit)

/-- An item of a `with`. -/
def itemFits (n : Node) : Bool :=
  n.label.kind.isOther && n.isFree &&
    match n.named with
    | [v] =>
      v.caughtFits
        && ((n.child? .value).isNone || v.label.field == some .value && n.holdsOnce .value)
    | _ => false

/-- What a handler catches, and the name it gives to it. -/
def handlerFits (n : Node) : Bool :=
  match n.named.filter (·.label.kind != .block) with
  | [] => true
  | [v] => v.caughtFits
  | [v, name] => v.isExpression && v.label.kind != .asPattern && name.assignable
  | _ => false

/-- Which of the children are expressions, targets, statements or suites. -/
def childrenFit (as : Kind) (n : Node) : Bool :=
  match as with
  | .block =>
    (n.label.kind == .block || n.label.kind.isOther)
      && n.named.all fun c => c.label.kind.isStatement && c.isFree
  | .functionDefinition => (n.child? .parameters).all fun c => c.isParameterList && c.isRun
  | .classDefinition =>
    (n.child? .superclasses).all fun c => c.label.kind.isOther && c.isRun && !c.holdsSuite
  | .string | .concatenatedString | .typedParameter | .elseClause | .passStatement
  | .breakStatement | .continueStatement | .importStatement | .importFromStatement
  | .futureImportStatement | .globalStatement | .nonlocalStatement => true
  | .lambda => (n.child? .parameters).all isParameterList && (n.child? .body).all isExpression
  | .call =>
    n.operandsFit && (n.child? .arguments).all fun c =>
      c.label.kind == .generatorExpression || c.label.kind.isOther
  | .defaultParameter | .typedDefaultParameter =>
    (n.child? .value).all fun c => c.isExpression && c.isRun
  | .yield | .returnStatement | .listSplat | .listSplatPattern | .parenthesizedExpression
  | .asPatternTarget => n.operandsFit && n.isPlainAfter 1
  | .assertStatement => n.operandsFit && n.isPlainAfter 2
  | .expressionStatement =>
    n.named.all fun c =>
      c.isExpression || c.label.kind == .assignment || c.label.kind == .augmentedAssignment
  | .assignment =>
    ((n.child? .left).all fun c => c.assignable && c.isRun)
      && (n.child? .right).all fun c => c.label.kind == .assignment || c.isExpression && c.isRun
  | .augmentedAssignment =>
    ((n.child? .left).all fun c => c.isExpression && c.assignable && c.lambdas.isEmpty)
      && (n.child? .right).all isExpression
  | .decoratedDefinition =>
    (n.live.all fun c => (c.label.kind == .decorator) != (c.label.field == some .definition))
      && n.holdsOnce .definition
  | .ifStatement | .elifClause | .whileStatement => (n.child? .condition).all isExpression
  | .forStatement => (n.child? .left).all assignable && (n.child? .right).all isExpression
  | .tryStatement => n.live.all holdsSuite
  | .exceptClause | .exceptGroupClause => n.handlerFits
  | .withStatement =>
    (n.live.all fun c => c.label.kind == .withClause || c.label.field == some .body)
      && (n.children.filter (·.label.kind == .withClause)).length ≤ 1 && n.holdsOnce .body
  | .withClause => n.named.all itemFits
  | .finallyClause | .other _ => n.children.all fun c => c.isExpression || c.isSuitePart
  | _ => n.operandsFit

/-- What has a lambda in it is a part of the node, under one of its fields, and stands where the
grammar has expressions. In a parameter list only default values have lambdas in them. -/
def placesHere (as : Kind) (n : Node) : Bool :=
  (n.live.all (·.label.isPart))
    && (as.fields?.all n.holdsUnder)
    && (if n.isParameterList then
        n.named.all fun c => c.label.kind.hasDefault || c.lambdas.isEmpty
      else n.childrenFit as)

mutual
/-- Lambdas stand in a tree only where the grammar has expressions. -/
def places : Node → Bool
  | ⟨label, children⟩ => placesHere label.kind ⟨label, children⟩ && placesAmong children

def placesAmong : List Node → Bool
  | [] => true
  | c :: cs => places c && placesAmong cs
end

/-- The tree of a source that follows the grammar of statements and of expressions. -/
def isScript (root : Node) : Bool :=
  root.isSource && root.isFree && placesHere .block root && placesAmong root.children

/-! ## Lambdas as a collection -/

/-- The lambdas of a tree in any order. -/
def held (n : Node) : Multiset Node := n.lambdas

theorem lambdas_eq (n : Node) :
    n.lambdas = (if n.label.kind == .lambda then [n] else []) ++ n.kept.flatMap lambdas := by
  have hamong : ∀ (here : Label → Bool) (cs : List Node),
      lambdasAmong leavesOut here cs = (cs.filter fun c => !here c.label).flatMap lambdas := by
    intro here cs
    induction cs with
    | nil => rfl
    | cons c cs ih =>
      rw [lambdasAmong, ih]
      cases hout : here c.label <;> simp [hout, lambdas]
  cases n with
  | mk label children => rw [lambdas, lambdasBut, hamong, kept]

theorem held_eq_zero {n : Node} : n.held = 0 ↔ n.lambdas.isEmpty = true := by
  rw [held, Multiset.coe_eq_zero, List.isEmpty_iff]

/-- The lambdas below the kept children, and the node itself when it is one. -/
theorem held_eq (n : Node) :
    n.held = (if n.label.kind = .lambda then {n} else 0) + (n.kept.map held).sum := by
  have hsum : ∀ cs : List Node, ((cs.flatMap lambdas : List Node) : Multiset Node) =
      (cs.map held).sum := by
    intro cs
    induction cs with
    | nil => rfl
    | cons c cs ih =>
      rw [List.flatMap_cons, ← Multiset.coe_add, ih, List.map_cons, List.sum_cons, held]
  rw [held, lambdas_eq, ← Multiset.coe_add, hsum]
  by_cases hkind : n.label.kind = .lambda <;> simp [hkind]

/-- A target is made of targets, or stored into by itself, or has no lambdas. -/
theorem assignable_iff {n : Node} : n.assignable = true ↔
    if n.label.kind.isPattern = true then ∀ c ∈ n.children, c.assignable = true
    else n.label.kind = .attributeAccess ∨ n.label.kind = .subscript ∨ n.held = 0 := by
  have hamong : ∀ cs : List Node,
      assignableAmong cs = true ↔ ∀ c ∈ cs, c.assignable = true := by
    intro cs
    induction cs with
    | nil => simp [assignableAmong]
    | cons c cs ih => simp [assignableAmong, ih]
  cases n with
  | mk label children =>
    rw [assignable]
    cases hpattern : label.kind.isPattern
    · simp [or_assoc, held_eq_zero]
    · simp [hamong]

/-- What stands on the right of an assignment tells whether it has a value. -/
theorem givesValue_eq (n : Node) : n.givesValue =
    (n.child? .right).any fun c => c.label.kind != .assignment || c.givesValue := by
  have hamong : ∀ cs : List Node, givesValueAmong cs =
      (cs.find? (·.label.field == some .right)).any fun c =>
        c.label.kind != .assignment || c.givesValue := by
    intro cs
    induction cs with
    | nil => rfl
    | cons c cs ih =>
      rw [givesValueAmong, List.find?_cons, ih]
      cases c.label.field == some .right <;> rfl
  cases n with
  | mk label children => rw [givesValue, hamong, child?]

section Sums

variable {cs : List Node}

theorem sum_held_eq_zero (h : ∀ c ∈ cs, c.held = 0) : (cs.map held).sum = 0 := by
  induction cs with
  | nil => rfl
  | cons c cs ih =>
    obtain ⟨hc, hcs⟩ := List.forall_mem_cons.mp h
    rw [List.map_cons, List.sum_cons, hc, ih hcs, add_zero]

theorem sum_held_split (p : Node → Bool) (cs : List Node) : (cs.map held).sum =
    ((cs.filter p).map held).sum + ((cs.filter fun c => !p c).map held).sum := by
  induction cs with
  | nil => rfl
  | cons c cs ih =>
    rw [List.map_cons, List.sum_cons, ih]
    cases hp : p c
    · simp [hp, add_left_comm]
    · simp [hp, add_assoc]

/-- Nodes without lambdas need not be counted. -/
theorem sum_held_filter (p : Node → Bool) (h : ∀ c ∈ cs, p c = false → c.held = 0) :
    (cs.map held).sum = ((cs.filter p).map held).sum := by
  rw [sum_held_split p]
  have hnone : ((cs.filter fun c => !p c).map held).sum = 0 := by
    apply sum_held_eq_zero
    intro c hc
    obtain ⟨hmem, hp⟩ := List.mem_filter.mp hc
    exact h c hmem (by simpa using hp)
  rw [hnone, add_zero]

/-- Only nodes with lambdas matter. -/
theorem sum_held_filter_congr {p q : Node → Bool}
    (h : ∀ c ∈ cs, c.held ≠ 0 → p c = q c) :
    ((cs.filter p).map held).sum = ((cs.filter q).map held).sum := by
  induction cs with
  | nil => rfl
  | cons c cs ih =>
    obtain ⟨hc, hcs⟩ := List.forall_mem_cons.mp h
    rw [List.filter_cons, List.filter_cons]
    by_cases hheld : c.held = 0
    · cases p c <;> cases q c <;> simp [hheld, ih hcs]
    · rw [hc hheld]
      cases q c <;> simp [ih hcs]

/-- Nodes are counted field by field. -/
theorem sum_held_fields {fields : List Field} (hnodup : fields.Nodup)
    (h : ∀ c ∈ cs, c.held ≠ 0 → ∃ f ∈ fields, c.label.field = some f) : (cs.map held).sum =
    (fields.map fun f => ((cs.filter (·.label.field == some f)).map held).sum).sum := by
  induction fields generalizing cs with
  | nil =>
    apply sum_held_eq_zero
    intro c hc
    by_contra hheld
    obtain ⟨f, hf, -⟩ := h c hc hheld
    cases hf
  | cons f fields ih =>
    obtain ⟨hf, hfields⟩ := List.nodup_cons.mp hnodup
    rw [sum_held_split (·.label.field == some f), List.map_cons, List.sum_cons]
    congr 1
    rw [ih hfields]
    · congr 1
      apply List.map_congr_left
      intro g hg
      rw [List.filter_filter]
      congr 2
      apply List.filter_congr
      intro c _
      cases hc : c.label.field == some g
      · rfl
      · have hne : some g ≠ some f := fun heq => hf (Option.some.inj heq ▸ hg)
        rw [beq_iff_eq.mp hc, beq_eq_false_iff_ne.mpr hne]
        rfl
    · intro c hc hheld
      obtain ⟨hmem, hother⟩ := List.mem_filter.mp hc
      obtain ⟨g, hg, hfield⟩ := h c hmem hheld
      rcases List.mem_cons.mp hg with rfl | hg
      · simp [hfield] at hother
      · exact ⟨g, hg, hfield⟩

end Sums

/-! ## What the grammar says of one node -/

/-- What is sure of a node whose lambdas stand where they should. -/
structure Placed (as : Kind) (n : Node) : Prop where
  live : ∀ c ∈ n.kept, c.held ≠ 0 → c.label.isPart = true
  under : ∀ fields, as.fields? = some fields → n.holdsUnder fields = true
  parameters : n.isParameterList = true →
    ∀ c ∈ n.named, c.label.kind.hasDefault = true ∨ c.held = 0
  fit : n.isParameterList = false → n.childrenFit as = true
  children : ∀ c ∈ n.children, c.places = true

theorem placed_of_placesHere {as : Kind} {n : Node} (h : n.placesHere as = true)
    (hchildren : ∀ c ∈ n.children, c.places = true) : n.Placed as := by
  rw [placesHere, Bool.and_eq_true, Bool.and_eq_true, List.all_eq_true, Option.all_eq_true] at h
  obtain ⟨⟨hlive, hunder⟩, hfit⟩ := h
  refine ⟨?_, fun fields hfields => hunder fields hfields, ?_, ?_, hchildren⟩
  · intro c hc hheld
    apply hlive c
    rw [Node.live, List.mem_filter]
    exact ⟨hc, by simpa [held_eq_zero] using hheld⟩
  · intro hlist c hc
    rw [if_pos hlist] at hfit
    simpa [held_eq_zero] using List.all_eq_true.mp hfit c hc
  · intro hlist
    rwa [if_neg (by simp [hlist])] at hfit

theorem placesAmong_iff {cs : List Node} :
    placesAmong cs = true ↔ ∀ c ∈ cs, c.places = true := by
  induction cs with
  | nil => simp [placesAmong]
  | cons c cs ih => simp [placesAmong, ih]

theorem placed_of_places {n : Node} (h : n.places = true) : n.Placed n.label.kind := by
  cases n with
  | mk label children =>
    rw [places, Bool.and_eq_true] at h
    exact placed_of_placesHere h.1 (placesAmong_iff.mp h.2)

/-- What is sure of the tree of a source. -/
theorem isScript_iff {root : Node} : root.isScript = true ↔ root.isSource = true ∧
    root.isFree = true ∧ root.placesHere .block = true ∧ ∀ c ∈ root.children, c.places = true := by
  simp only [isScript, Bool.and_eq_true, placesAmong_iff, and_assoc]

theorem kind_ne_lambda_of_isScript {root : Node} (h : root.isScript = true) :
    root.label.kind ≠ .lambda := by
  obtain ⟨-, -, hhere, -⟩ := isScript_iff.mp h
  intro hkind
  simp [placesHere, isParameterList, childrenFit, hkind, Kind.isOther] at hhere

/-- The lambdas below the child under a field. -/
def heldAt (n : Node) (f : Field) : Multiset Node := ((n.child? f).map held).getD 0

theorem heldAt_of_child? {n c : Node} {f : Field} (h : n.child? f = some c) :
    n.heldAt f = c.held := by
  rw [heldAt, h]
  rfl

/-- Only the first of the named children has lambdas in it. -/
theorem sum_held_of_isPlainAfter {n first : Node} {rest : List Node}
    (h : n.isPlainAfter 1 = true) (hparts : n.named = first :: rest) :
    (n.named.map held).sum = first.held := by
  rw [isPlainAfter, hparts, List.drop_one, List.tail_cons, List.all_eq_true] at h
  rw [hparts, List.map_cons, List.sum_cons, sum_held_eq_zero, add_zero]
  exact fun c hc => held_eq_zero.mpr (h c hc)

theorem mem_children_of_mem_named {n c : Node} (hc : c ∈ n.named) : c ∈ n.children :=
  (List.mem_filter.mp hc).1

theorem mem_children_of_child? {n c : Node} {f : Field} (h : n.child? f = some c) :
    c ∈ n.children :=
  List.mem_of_find?_eq_some h

theorem field_of_child? {n c : Node} {f : Field} (h : n.child? f = some c) :
    c.label.field = some f := by
  have hfield := List.find?_some h
  exact beq_iff_eq.mp hfield

/-- Nodes that leave no child out. -/
def keepsAll (n : Node) : Bool :=
  match n.label.kind with
  | .string | .concatenatedString | .functionDefinition | .classDefinition | .typedParameter
  | .typedDefaultParameter | .assignment => false
  | .other _ => n.label.field != some .superclasses
  | _ => true

theorem leavesOut_of_keepsAll {n : Node} (h : n.keepsAll = true) (l : Label) :
    n.leavesOut l = false := by
  unfold keepsAll at h
  unfold leavesOut
  split at h <;> first | cases h; done | skip
  · simp only [bne_iff_ne] at h
    simp [h]
  · rfl

theorem kept_of_keepsAll {n : Node} (h : n.keepsAll = true) : n.kept = n.children := by
  rw [kept, List.filter_eq_self]
  intro c _
  rw [leavesOut_of_keepsAll h]
  rfl

/-- The kept children under a field, counted once. -/
theorem sum_held_of_holdsOnce {n : Node} {f : Field} (h : n.holdsOnce f = true)
    (hkept : ∀ c, n.child? f = some c → n.leavesOut c.label = false) :
    ((n.kept.filter (·.label.field == some f)).map held).sum = n.heldAt f := by
  have hfilter : n.kept.filter (·.label.field == some f) =
      (n.children.filter (·.label.field == some f)).filter fun c => !n.leavesOut c.label := by
    rw [kept, List.filter_filter, List.filter_filter]
    congr 1
    funext c
    exact Bool.and_comm _ _
  rw [child?, ← List.head?_filter] at hkept
  rw [hfilter, heldAt, child?, ← List.head?_filter]
  rw [holdsOnce, decide_eq_true_eq] at h
  generalize n.children.filter (·.label.field == some f) = under at h hkept ⊢
  rcases under with _ | ⟨c, _ | ⟨d, rest⟩⟩
  · rfl
  · simp [hkept c rfl]
  · simp at h

/-- The one child under a field is the first one. -/
theorem child?_of_holdsOnce {n c : Node} {f : Field} (h : n.holdsOnce f = true)
    (hc : c ∈ n.children) (hfield : c.label.field = some f) : n.child? f = some c := by
  have hmem : c ∈ n.children.filter (·.label.field == some f) :=
    List.mem_filter.mpr ⟨hc, by simp [hfield]⟩
  rw [holdsOnce, decide_eq_true_eq] at h
  rw [child?, ← List.head?_filter]
  generalize n.children.filter (·.label.field == some f) = under at h hmem ⊢
  rcases under with _ | ⟨d, _ | ⟨e, rest⟩⟩
  · cases hmem
  · rw [List.mem_singleton.mp hmem, List.head?_cons]
  · simp at h

namespace Placed

variable {n : Node} {as : Kind}

/-- Everything below the node is found below the named children. -/
theorem held_eq_named (h : n.Placed as) (hlambda : n.label.kind ≠ .lambda)
    (hkeeps : n.keepsAll = true) : n.held = (n.named.map held).sum := by
  have hkept := kept_of_keepsAll hkeeps
  rw [held_eq, if_neg hlambda, zero_add, hkept, named, namedOf]
  apply sum_held_filter
  intro c hc hpart
  by_contra hheld
  rw [h.live c (hkept ▸ hc) hheld] at hpart
  cases hpart

/-- Everything below the node is found under its fields. -/
theorem sum_held_kept (h : n.Placed as) {fields : List Field} (hfields : as.fields? = some fields)
    (hnodup : fields.Nodup) : (n.kept.map held).sum =
      (fields.map fun f => ((n.kept.filter (·.label.field == some f)).map held).sum).sum := by
  apply sum_held_fields hnodup
  intro c hc hheld
  have hunder := h.under fields hfields
  rw [holdsUnder, Bool.and_eq_true, List.all_eq_true] at hunder
  have hlive : c ∈ n.live := by
    rw [Node.live, List.mem_filter]
    exact ⟨hc, by simpa [held_eq_zero] using hheld⟩
  obtain ⟨f, hf, hfield⟩ := List.any_eq_true.mp (hunder.1 c hlive)
  exact ⟨f, hf, beq_iff_eq.mp hfield⟩

theorem holdsOnce (h : n.Placed as) {fields : List Field} (hfields : as.fields? = some fields)
    {f : Field} (hf : f ∈ fields) (hnot : n.label.kind ≠ .ifStatement ∨ f ≠ .alternative) :
    n.holdsOnce f = true := by
  have hunder := h.under fields hfields
  rw [holdsUnder, Bool.and_eq_true, List.all_eq_true, List.all_eq_true] at hunder
  have honce := hunder.2 f hf
  rw [Bool.or_eq_true, Bool.and_eq_true, beq_iff_eq, beq_iff_eq] at honce
  exact honce.resolve_left (not_and_or.mpr hnot)

/-- Everything below the node is found below the one child under each field. -/
theorem sum_held_at (h : n.Placed as) {fields : List Field} (hfields : as.fields? = some fields)
    (hnodup : fields.Nodup) (hif : n.label.kind ≠ .ifStatement)
    (hkept : ∀ f ∈ fields, ∀ c, n.child? f = some c → n.leavesOut c.label = false) :
    (n.kept.map held).sum = (fields.map n.heldAt).sum := by
  rw [h.sum_held_kept hfields hnodup]
  congr 1
  apply List.map_congr_left
  intro f hf
  exact sum_held_of_holdsOnce (h.holdsOnce hfields hf (Or.inl hif)) (hkept f hf)

theorem held_eq_fields (h : n.Placed as) {fields : List Field} (hfields : as.fields? = some fields)
    (hnodup : fields.Nodup) (hlambda : n.label.kind ≠ .lambda) (hkeeps : n.keepsAll = true)
    (hif : n.label.kind ≠ .ifStatement) : n.held = (fields.map n.heldAt).sum := by
  rw [held_eq, if_neg hlambda, zero_add, h.sum_held_at hfields hnodup hif]
  exact fun _ _ c _ => leavesOut_of_keepsAll hkeeps c.label

/-- Everything below the node is found below its children of one kind and the child under one field,
where each child that matters is one of these and not both. -/
theorem held_eq_kind_add_field (h : n.Placed as) {k : Kind} {f : Field} {b : Node}
    (hlambda : n.label.kind ≠ .lambda) (hkeeps : n.keepsAll = true)
    (honce : n.holdsOnce f = true) (hb : n.child? f = some b)
    (hside : ∀ c ∈ n.live, (c.label.kind == k) ≠ (c.label.field == some f)) :
    n.held = ((n.named.filter (·.label.kind == k)).map held).sum + b.held := by
  have hlive : ∀ c ∈ n.kept, c.held ≠ 0 → c ∈ n.live := fun c hc hheld =>
    List.mem_filter.mpr ⟨hc, by simpa [held_eq_zero] using hheld⟩
  rw [held_eq, if_neg hlambda, zero_add, sum_held_split (·.label.kind == k), ← heldAt_of_child? hb,
    ← sum_held_of_holdsOnce honce fun c _ => leavesOut_of_keepsAll hkeeps c.label]
  congr 1
  · rw [named, namedOf, List.filter_filter, ← kept_of_keepsAll hkeeps]
    apply sum_held_filter_congr
    intro c hc hheld
    rw [h.live c hc hheld, Bool.and_true]
  · apply sum_held_filter_congr
    intro c hc hheld
    exact Bool.not_eq_iff.mpr (hside c (hlive c hc hheld))

end Placed

end Node

end UnitAtlas.Syntax
