-- Every statement that fits the grammar draws its definitions in document order. Each rule finds
-- its suites in its own way; the grammar says which of the node's parts it finds, and that it
-- finds all of them.
import UnitAtlas.Proofs.Reading.Clauses
import UnitAtlas.Proofs.Reading.Draws

namespace UnitAtlas.Reading

open Syntax Draft

/-! ## Nodes whose code is drawn from them -/

/-- The code of a node in each of the places that it can stand in follows the items of the node. -/
structure Drawn (n : Node) : Prop where
  fits : n.fits = true
  block : n.label.kind = .block → (ofNode n).place.block.Whole →
    Draws (ofNode n).place.block.parts (Node.itemsAmong n.children)
  suite : (∀ c ∈ n.suiteParts, c.label.kind = .block ∨ c.label.kind.isClause = true) →
    (ofNode n).roles.suite.Whole → Draws (ofNode n).roles.suite.parts (Node.itemsAmong n.children)
  statement : n.label.kind.defines = false → n.label.kind ≠ .block →
    (ofNode n).roles.statement.Whole → Draws (ofNode n).roles.statement.parts (n.items none)

/-- The same for a node and all nodes below it. -/
inductive AllDrawn : Node → Prop
  | mk {n : Node} (hn : Drawn n) (hchildren : ∀ c ∈ n.children, AllDrawn c) : AllDrawn n

namespace AllDrawn

variable {n : Node}

theorem drawn (h : AllDrawn n) : Drawn n := by
  cases h with
  | mk hn => exact hn

theorem children (h : AllDrawn n) : ∀ c ∈ n.children, AllDrawn c := by
  cases h with
  | mk _ hchildren => exact hchildren

theorem suiteParts (h : AllDrawn n) : ∀ c ∈ n.suiteParts, AllDrawn c :=
  fun c hc => h.children c (List.mem_filter.mp hc).1

end AllDrawn

/-! ## Values and targets are code -/

theorem isCode_value (n : Node) : (ofNode n).roles.value.IsCode :=
  (gives_ofNode closed_isCode n n.floatsAre_true).value

theorem below_isCode (n : Node) : GivesBelow IsCode (ofNode n).place :=
  (gives_ofNode closed_isCode n n.floatsAre_true).place

/-! ## Parts with suites -/

section Parts

variable {n b : Node} {ps : List Draft}

/-- The definitions of a node are those of its parts with suites. -/
theorem draws_of_suites (h : Draws ps (n.suiteParts.flatMap (Node.items none)))
    (hkinds : ∀ c ∈ n.suiteParts, c.label.kind.defines = false) :
    Draws ps (Node.itemsAmong n.children) :=
  h.of_thins (Node.thins_suites hkinds)

theorem draws_of_block (hparts : n.suiteParts = [b]) (hblock : b.label.kind = .block)
    (h : Draws ps (Node.itemsAmong b.children)) : Draws ps (Node.itemsAmong n.children) := by
  apply draws_of_suites
  · rwa [hparts, List.flatMap_singleton, Node.items_block hblock]
  · rw [hparts]
    intro c hc
    rw [List.mem_singleton.mp hc, hblock]
    rfl

end Parts

/-! ## Lists of statements -/

/-- A definition that stands in a suite by itself is drawn as it is read. -/
theorem statement_of_isDefinition {n : Node} (h : n.label.kind.isDefinition = true)
    (next : Option Label) :
    (ofNode n).roles.statement = definitionDraft ⟨n, n, [], next⟩ := by
  have hline : (ofNode n).place.line = n.label.line := line_ofNode n
  have hkind : (ofNode n).place.kind = n.label.kind := kind_ofNode n
  rw [roles_ofNode]
  show statement (ofNode n).place = _
  rw [statement, statementBody, hline, hkind, definitionDraft, Definition.isClass]
  cases hn : n.label.kind <;> rw [hn] at h <;> first | rfl | cases h

theorem statement_of_decorated {n c : Node} (hkind : n.label.kind = .decoratedDefinition)
    (hchild : n.child? .definition = some c) (next : Option Label) : (ofNode n).roles.statement =
      definitionDraft ⟨n, c, n.named.filter (·.label.kind == .decorator), next⟩ := by
  have hline : (ofNode n).place.line = n.label.line := line_ofNode n
  have hplace : (ofNode n).place.kind = .decoratedDefinition := (kind_ofNode n).trans hkind
  have hdecorators : (ofNode n).place.named.filter (·.kind == .decorator) =
      (n.named.filter (·.label.kind == .decorator)).map ofNode :=
    filter_named_ofNode n (· == .decorator) fun _ => rfl
  rw [roles_ofNode]
  show statement (ofNode n).place = _
  rw [statement, statementBody, hline, hplace, definitionDraft, Definition.isClass]
  simp only [decoratedDefinition, field?_ofNode, hchild, Option.map_some, need, hdecorators,
    kind_ofNode, beq_iff_eq]

/-- The first part of the code of statements starts the line of the first one. -/
theorem head?_statements (cs : List Node) :
    (all (((Node.namedOf cs).map ofNode).map (·.roles.statement))).parts.head? =
      (Node.nextOf cs).map fun l => .line l.line := by
  rw [Node.nextOf]
  rcases Node.namedOf cs with _ | ⟨c, rest⟩
  · rfl
  · have hline : (ofNode c).place.line = c.label.line := line_ofNode c
    rw [List.map_cons, List.map_cons, roles_ofNode]
    show some (Draft.line (ofNode c).place.line) = _
    rw [hline]
    rfl

/-- Statements one after the other draw their definitions one after the other. -/
theorem draws_statements {cs : List Node} (hdrawn : ∀ c ∈ cs, AllDrawn c)
    (hparts : ∀ c ∈ cs, c.holdsSuite = true → c.label.isPart = true ∧ c.label.kind ≠ .block)
    (hwhole : (all (((Node.namedOf cs).map ofNode).map (·.roles.statement))).Whole) :
    Draws (all (((Node.namedOf cs).map ofNode).map (·.roles.statement))).parts
      (Node.itemsAmong cs) := by
  induction cs with
  | nil => exact .nil
  | cons c cs ih =>
    obtain ⟨hc, hcs⟩ := List.forall_mem_cons.mp hdrawn
    obtain ⟨hpart, hrest⟩ := List.forall_mem_cons.mp hparts
    have hfit := Node.suitesFit_of_fits hc.drawn.fits
    rw [Node.itemsAmong]
    by_cases his : c.label.isPart = true
    · rw [Node.namedOf_cons_of_pos his] at hwhole ⊢
      rw [List.map_cons, List.map_cons, all, List.foldr_cons] at hwhole ⊢
      have hlater := ih hcs hrest hwhole.2
      have hnext := head?_statements cs
      by_cases hdefines : c.label.kind.defines = true
      · -- A definition is one item, and the next statement starts right behind it.
        have hitem : ∃ d : Definition, d.next = Node.nextOf cs ∧
            c.items (Node.nextOf cs) = [.definition d] ∧
            (ofNode c).roles.statement = definitionDraft d := by
          by_cases hdecorated : c.label.kind = .decoratedDefinition
          · rw [hdecorated] at hfit
            obtain ⟨x, -, -, hchild, hitems⟩ :=
              Node.items_of_decorated hfit hdecorated (Node.nextOf cs)
            exact ⟨_, rfl, hitems, statement_of_decorated hdecorated hchild _⟩
          · have hdefinition : c.label.kind.isDefinition = true := by
              simpa [Kind.defines, hdecorated] using hdefines
            exact ⟨_, rfl, Node.items_definition hdefinition _,
              statement_of_isDefinition hdefinition _⟩
        obtain ⟨d, hd, hitems, hstatement⟩ := hitem
        rw [hitems, hstatement]
        refine .definition d ?_ hlater
        intro l hl
        rw [hd] at hl
        rw [hl] at hnext
        exact hnext
      · rw [Bool.not_eq_true] at hdefines
        have hblock : c.label.kind ≠ .block := by
          intro hblock
          exact (hpart (Node.holdsSuite_iff.mpr (Or.inl hblock))).2 hblock
        rw [Node.items_next hdefines]
        exact (hc.drawn.statement hdefines hblock hwhole.1).append hlater
    · rw [Node.namedOf_cons_of_neg his] at hwhole ⊢
      have hheld : c.holdsSuite = false := Bool.eq_false_iff.mpr fun hheld => his (hpart hheld).1
      have hlater := ih hcs hrest hwhole
      exact hlater.of_thins
        ((Node.thins_of_holdsSuite_eq_false hheld _).append (Thins.refl _))

/-- What a block draws; a whole source is one too. -/
theorem draws_block {n : Node} (hfit : n.SuitesFit .block) (h : ∀ c ∈ n.children, AllDrawn c)
    (hwhole : (ofNode n).place.block.Whole) :
    Draws (ofNode n).place.block.parts (Node.itemsAmong n.children) := by
  rw [Place.block, named_ofNode] at hwhole ⊢
  refine draws_statements h ?_ hwhole
  intro c hc hheld
  have hmem : c ∈ n.suiteParts := List.mem_filter.mpr ⟨hc, hheld⟩
  exact ⟨hfit.isPart hmem, hfit.kind_ne_block hmem⟩

/-! ## Suites and clauses in order -/

/-- The nodes whose suites have rules of their own. -/
def hasRule : Kind → Bool
  | .block | .functionDefinition | .classDefinition | .decoratedDefinition | .ifStatement
  | .whileStatement | .forStatement | .tryStatement | .withStatement => true
  | _ => false

/-- All other nodes have blocks and clauses only. -/
theorem suites_of_hasRule_eq_false {n : Node} (hfit : n.SuitesFit n.label.kind)
    (h : hasRule n.label.kind = false) :
    ∀ c ∈ n.suiteParts, c.label.kind = .block ∨ c.label.kind.isClause = true := by
  have htakes := hfit.takes
  intro c hc
  have hmem : (c.label.kind, c.label.field) ∈ n.suiteParts.map fun c =>
      (c.label.kind, c.label.field) := List.mem_map_of_mem hc
  generalize (n.suiteParts.map fun c => (c.label.kind, c.label.field)) = suites at htakes hmem
  cases hkind : n.label.kind <;> rw [hkind] at h htakes
  case elifClause | elseClause =>
    rw [beq_iff_eq.mp htakes, List.mem_singleton, Prod.mk.injEq] at hmem
    exact Or.inl hmem.1
  case exceptClause | exceptGroupClause | finallyClause =>
    have hkinds := List.mem_map_of_mem (f := Prod.fst) hmem
    rw [beq_iff_eq.mp htakes, List.mem_singleton] at hkinds
    exact Or.inl hkinds
  case other name =>
    have hclause := List.all_eq_true.mp htakes _ hmem
    simpa using hclause
  all_goals
    first
      | cases h; done
      | rw [List.isEmpty_iff.mp htakes] at hmem
        cases hmem

theorem hasRule_of_isClause {k : Kind} (h : k.isClause = true) : hasRule k = false := by
  cases k <;> first | rfl | exact absurd h (by decide)

/-- What a statement that no rule knows does with one of its children. -/
def suitePart (r : Reading) : Draft :=
  if r.kind = .block then r.place.block
  else if r.kind.isClause then r.roles.suite
  else r.roles.value ++ .plain .popTop

/-- Such a child is a suite, a clause, or a value without definitions. -/
theorem draws_suitePart {c : Node} (hc : AllDrawn c)
    (hkind : c.holdsSuite = true → c.label.kind = .block ∨ c.label.kind.isClause = true)
    (hwhole : (suitePart (ofNode c)).Whole) (next : Option Label) :
    Draws (suitePart (ofNode c)).parts (c.items next) := by
  simp only [suitePart, kind_ofNode] at hwhole ⊢
  by_cases hblock : c.label.kind = .block
  · rw [if_pos hblock] at hwhole ⊢
    rw [Node.items_block hblock]
    exact hc.drawn.block hblock hwhole
  · rw [if_neg hblock] at hwhole ⊢
    by_cases hclause : c.label.kind.isClause = true
    · rw [if_pos hclause] at hwhole ⊢
      have hdefines : c.label.kind.defines = false := by
        cases hkind : c.label.kind <;> rw [hkind] at hclause <;>
          first | rfl | exact absurd hclause (by decide)
      have hrule := hasRule_of_isClause hclause
      have hfit := Node.suitesFit_of_fits hc.drawn.fits
      rw [Node.items_other hdefines hblock]
      exact .pass _ (hc.drawn.suite (suites_of_hasRule_eq_false hfit hrule) hwhole)
    · rw [if_neg hclause]
      have hheld : c.holdsSuite = false :=
        Bool.eq_false_iff.mpr fun hheld => (hkind hheld).elim hblock hclause
      have hcode : ((ofNode c).roles.value ++ .plain .popTop).IsCode := ⟨isCode_value c, by simp⟩
      exact (Draws.of_code hcode).of_thins (Node.thins_of_holdsSuite_eq_false hheld next)

/-- Nodes that are used one by one draw their items one after the other. -/
theorem draws_map {cs : List Node} {use : Reading → Draft}
    (huse : ∀ c ∈ cs, (use (ofNode c)).Whole → ∀ next, Draws (use (ofNode c)).parts (c.items next))
    (hparts : ∀ c ∈ cs, c.holdsSuite = true → c.label.isPart = true)
    (hwhole : (all (((Node.namedOf cs).map ofNode).map use)).Whole) :
    Draws (all (((Node.namedOf cs).map ofNode).map use)).parts (Node.itemsAmong cs) := by
  induction cs with
  | nil => exact .nil
  | cons c cs ih =>
    obtain ⟨hc, hcs⟩ := List.forall_mem_cons.mp huse
    obtain ⟨hpart, hrest⟩ := List.forall_mem_cons.mp hparts
    rw [Node.itemsAmong]
    by_cases his : c.label.isPart = true
    · rw [Node.namedOf_cons_of_pos his, List.map_cons, List.map_cons, all, List.foldr_cons]
        at hwhole ⊢
      exact (hc hwhole.1 _).append (ih hcs hrest hwhole.2)
    · rw [Node.namedOf_cons_of_neg his] at hwhole ⊢
      have hheld : c.holdsSuite = false := Bool.eq_false_iff.mpr fun hheld => his (hpart hheld)
      exact (ih hcs hrest hwhole).of_thins
        ((Node.thins_of_holdsSuite_eq_false hheld _).append (Thins.refl _))

/-- What a statement that no rule knows draws. -/
theorem draws_suite {n : Node} (hfit : n.SuitesFit n.label.kind)
    (h : ∀ c ∈ n.children, AllDrawn c)
    (hsuites : ∀ c ∈ n.suiteParts, c.label.kind = .block ∨ c.label.kind.isClause = true)
    (hwhole : (ofNode n).roles.suite.Whole) :
    Draws (ofNode n).roles.suite.parts (Node.itemsAmong n.children) := by
  have hrole : (ofNode n).roles.suite =
      all (((Node.namedOf n.children).map ofNode).map suitePart) := by
    rw [← Node.named, ← named_ofNode, roles_ofNode]
    rfl
  rw [hrole] at hwhole ⊢
  refine draws_map ?_ ?_ hwhole
  · intro c hc
    refine draws_suitePart (h c hc) ?_
    intro hheld
    exact hsuites c (List.mem_filter.mpr ⟨hc, hheld⟩)
  · intro c hc hheld
    exact hfit.isPart (List.mem_filter.mpr ⟨hc, hheld⟩)

end UnitAtlas.Reading
