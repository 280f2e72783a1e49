-- The definitions of a syntax tree: its functions and classes, each below the nearest one around
-- it, in document order. They are found by looking at every node; where the grammar lets suites
-- stand is told apart from that.
import UnitAtlas.Syntax.Node

namespace UnitAtlas.Syntax

/-! ## Nodes -/

/-- Whether a child is one that the grammar names, and no trivia. -/
def Label.isPart (l : Label) : Bool := l.named && !l.kind.isTrivia

namespace Node

mutual
/-- What passes from the children to the node holds for all nodes. -/
theorem induction {P : Node → Prop} (node : ∀ n : Node, (∀ c ∈ n.children, P c) → P n) : ∀ n, P n
  | ⟨label, children⟩ => node ⟨label, children⟩ (inductionOn node children)

theorem inductionOn {P : Node → Prop} (node : ∀ n : Node, (∀ c ∈ n.children, P c) → P n) :
    ∀ cs : List Node, ∀ c ∈ cs, P c
  | [], c, hc => by simp at hc
  | d :: ds, c, hc => by
    rcases List.mem_cons.mp hc with h | hc
    · exact h ▸ induction node d
    · exact inductionOn node ds c hc
end

/-- The nodes of a list that the grammar names, without trivia. -/
def namedOf (cs : List Node) : List Node := cs.filter fun c => c.label.isPart

/-- The children that the grammar names, without trivia. -/
def named (n : Node) : List Node := namedOf n.children

theorem namedOf_cons_of_pos {c : Node} (h : c.label.isPart = true) (cs : List Node) :
    namedOf (c :: cs) = c :: namedOf cs :=
  List.filter_cons_of_pos h

theorem namedOf_cons_of_neg {c : Node} (h : ¬ c.label.isPart = true) (cs : List Node) :
    namedOf (c :: cs) = namedOf cs :=
  List.filter_cons_of_neg h

/-- The first child under a field. -/
def child? (n : Node) (f : Field) : Option Node := n.children.find? (·.label.field == some f)

end Node

/-! ## Definitions -/

/-- Functions and classes are what a tree defines. -/
def Kind.isDefinition : Kind → Bool
  | .functionDefinition | .classDefinition => true
  | _ => false

/-- A function or a class of a tree. `statement` is the node that stands in the suite: the
definition itself, or the decorators and the definition under them. `next` is the statement that
follows it in the suite. -/
structure Definition where
  statement : Node
  node : Node
  decorators : List Node
  next : Option Label

namespace Definition

def name (d : Definition) : String := ((d.node.child? .name).map (·.label.text)).getD ""

/-- The row of the first decorator, or of the definition when it has none. -/
def row (d : Definition) : Nat := ((d.decorators.head?).map (·.label.row)).getD d.node.label.row

def isClass (d : Definition) : Bool := d.node.label.kind == .classDefinition

end Definition

/-- What is met on the way through a tree in document order: the start of a node, or a definition
as a whole. -/
inductive Item where
  | start (l : Label)
  | definition (d : Definition)

namespace Item

def definition? : Item → Option Definition
  | .start _ => none
  | .definition d => some d

/-- A definition met below its decorators is defined by the statement around both. -/
def decorate (statement : Node) (next : Option Label) : Item → Option Item
  | .start _ => none
  | .definition d =>
    some (.definition ⟨statement, d.node, statement.named.filter (·.label.kind == .decorator), next⟩)

end Item

namespace Node

/-- The statement that comes next among the nodes that follow. -/
def nextOf (later : List Node) : Option Label := ((namedOf later).head?).map (·.label)

mutual
/-- The items of a node that `next` follows. The start of a block is that of its first statement,
and what is below a definition is not looked at. -/
def items (next : Option Label) : Node → List Item
  | ⟨label, children⟩ =>
    match label.kind with
    | .functionDefinition | .classDefinition =>
      [.definition ⟨⟨label, children⟩, ⟨label, children⟩, [], next⟩]
    | .decoratedDefinition =>
      (itemsAmong children).filterMap (Item.decorate ⟨label, children⟩ next)
    | .block => itemsAmong children
    | _ => .start label :: itemsAmong children

/-- The items of nodes that stand side by side. -/
def itemsAmong : List Node → List Item
  | [] => []
  | c :: cs => items (nextOf cs) c ++ itemsAmong cs
end

/-- The outermost definitions below a node. -/
def definitions (n : Node) : List Definition := (itemsAmong n.children).filterMap Item.definition?

/-- The definition at an address, which says level by level which definition to take. -/
def definitionAt? (n : Node) : List Nat → Option Definition
  | [] => none
  | i :: rest =>
    n.definitions[i]?.bind fun d => if rest.isEmpty then some d else d.node.definitionAt? rest

/-! ## Where suites stand -/

mutual
/-- Whether a node is a suite or a definition, or has one below it. -/
def holdsSuite : Node → Bool
  | ⟨label, children⟩ =>
    label.kind == .block || label.kind.isDefinition || holdsSuiteAmong children

def holdsSuiteAmong : List Node → Bool
  | [] => false
  | c :: cs => holdsSuite c || holdsSuiteAmong cs
end

/-- The children that are suites or have suites below them. -/
def suiteParts (n : Node) : List Node := n.children.filter holdsSuite

end Node

/-- The fields that suites and clauses with suites are held under. -/
def Field.isSuite : Field → Bool
  | .body | .consequence | .alternative | .definition => true
  | _ => false

namespace Kind

def isHandler : Kind → Bool
  | .exceptClause | .exceptGroupClause => true
  | _ => false

/-- What follows the body of a `try`: handlers, then an `else` if there are handlers, then a
`finally`. -/
def endsTry (clauses : List Kind) : Bool :=
  match clauses.dropWhile isHandler with
  | [] | [.finallyClause] => true
  | [.elseClause] | [.elseClause, .finallyClause] => clauses.any isHandler
  | _ => false

/-- What follows the body of an `if`, told by kind and field. -/
def endsBranch : Kind × Option Field → Bool
  | (.elifClause, some .alternative) | (.elseClause, some .alternative) => true
  | _ => false

/-- The suites that a node may have, as the grammar of statements has them. Statements that the
grammar adds to these, such as `match`, have blocks and clauses; expressions have no suites. -/
def takes (k : Kind) (suites : List (Kind × Option Field)) : Bool :=
  match k with
  | .block => suites.all (·.1 != .block)
  | .functionDefinition | .classDefinition | .withStatement | .elseClause =>
    suites == [(.block, some .body)]
  | .decoratedDefinition =>
    suites == [(.functionDefinition, some .definition)]
      || suites == [(.classDefinition, some .definition)]
  | .ifStatement =>
    match suites with
    | [] => false
    | first :: rest => first == (.block, some .consequence) && rest.all endsBranch
  | .elifClause => suites == [(.block, some .consequence)]
  | .whileStatement | .forStatement =>
    suites == [(.block, some .body)]
      || suites == [(.block, some .body), (.elseClause, some .alternative)]
  | .tryStatement =>
    match suites with
    | [] => false
    | first :: rest => first == (.block, some .body) && endsTry (rest.map (·.1))
  | .exceptClause | .exceptGroupClause | .finallyClause => suites.map (·.1) == [.block]
  | .other _ => suites.all fun s => s.1 == .block || s.1.isClause
  | _ => suites.isEmpty

end Kind

namespace Node

/-- The suites of a node are those that its kind takes, and nothing else stands in their place. No
name of a definition has a sign in it that names of units which are no definitions have. -/
def fitsHere (as : Kind) (n : Node) : Bool :=
  as.takes (n.suiteParts.map fun c => (c.label.kind, c.label.field))
    && n.suiteParts.all (·.label.named)
    && (n.suiteParts.isEmpty ||
      n.children.all fun c => c.holdsSuite || !(c.label.field.any Field.isSuite))
    && (!as.isDefinition ||
      !((n.child? .name).any fun c => c.label.text.toList.contains '<'))

mutual
/-- The tree follows the grammar of statements and their suites. -/
def fits : Node → Bool
  | ⟨label, children⟩ => fitsHere label.kind ⟨label, children⟩ && fitsAmong children

def fitsAmong : List Node → Bool
  | [] => true
  | c :: cs => fits c && fitsAmong cs
end

/-- The same for a whole source, which is a suite by itself. -/
def isSource (root : Node) : Bool := fitsHere .block root && fitsAmong root.children

/-! ## Taking the grammar apart -/

theorem fitsAmong_iff {cs : List Node} : fitsAmong cs = true ↔ ∀ c ∈ cs, c.fits = true := by
  induction cs with
  | nil => simp [fitsAmong]
  | cons c cs ih => simp [fitsAmong, ih]

theorem fits_iff {n : Node} :
    n.fits = true ↔ n.fitsHere n.label.kind = true ∧ ∀ c ∈ n.children, c.fits = true := by
  cases n
  simp [fits, fitsAmong_iff]

theorem isSource_iff {root : Node} :
    root.isSource = true ↔ root.fitsHere .block = true ∧ ∀ c ∈ root.children, c.fits = true := by
  simp [isSource, fitsAmong_iff]

end Node

end UnitAtlas.Syntax
