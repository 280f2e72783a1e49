-- How a tree lies on its lines. Lines never go back in document order, and a decorated definition
-- starts at its first decorator; what a tree keeps to, each definition in it keeps to as well.
-- Definitions may be required to stand apart, or to start lines of their own.
import Mathlib.Data.List.Pairwise
import Mathlib.Order.Defs.LinearOrder
import UnitAtlas.Proofs.Syntax.Suites

namespace UnitAtlas.Syntax

/-! ## Lines -/

/-- The line that a definition starts at, its decorators included. -/
def Definition.line (d : Definition) : UInt32 := UInt32.ofNat (d.row + 1)

/-- The line that an item starts at. -/
def Item.line : Item → UInt32
  | .start l => l.line
  | .definition d => d.statement.label.line

namespace Node

mutual
/-- The lines of a node and of all nodes below it, in document order. -/
def lines : Node → List UInt32
  | ⟨label, children⟩ => label.line :: linesAmong children

def linesAmong : List Node → List UInt32
  | [] => []
  | c :: cs => lines c ++ linesAmong cs
end

mutual
/-- Whether something holds of a node and of all nodes below it. -/
def everywhere (p : Node → Bool) : Node → Bool
  | ⟨label, children⟩ => p ⟨label, children⟩ && everywhereAmong p children

def everywhereAmong (p : Node → Bool) : List Node → Bool
  | [] => true
  | c :: cs => everywhere p c && everywhereAmong p cs
end

/-- A decorated definition starts where its first decorator does. -/
def startsAtDecorator (n : Node) : Bool :=
  n.label.kind != .decoratedDefinition ||
    (n.named.find? (·.label.kind == .decorator)).any (·.label.line == n.label.line)

/-- The lines of a tree count from 1 and never go back, and decorators come first. -/
def isOrdered (root : Node) : Bool :=
  root.everywhere startsAtDecorator && decide ((1 :: root.lines).Pairwise (· ≤ ·))

/-- Each of the outermost definitions starts on a later line than all of the one before it. -/
def definesApart (n : Node) : Bool :=
  decide (n.definitions.Pairwise fun d e => d.node.lines.all (· < e.statement.label.line))

/-- Whatever is met before a definition starts on an earlier line. -/
def opensLines (n : Node) : Bool :=
  decide ((itemsAmong n.children).Pairwise fun i j => j.definition?.isSome → i.line < j.line)

theorem lines_eq (n : Node) : n.lines = n.label.line :: linesAmong n.children := by
  cases n
  rw [lines]

theorem sublist_linesAmong_of_mem {c : Node} {cs : List Node} (h : c ∈ cs) :
    c.lines.Sublist (linesAmong cs) := by
  induction cs with
  | nil => cases h
  | cons x xs ih =>
    rw [linesAmong]
    rcases List.mem_cons.mp h with rfl | h
    · exact List.sublist_append_left _ _
    · exact (ih h).trans (List.sublist_append_right _ _)

theorem everywhere_iff {p : Node → Bool} {n : Node} :
    n.everywhere p = true ↔ p n = true ∧ ∀ c ∈ n.children, c.everywhere p = true := by
  have hamong : ∀ cs : List Node,
      everywhereAmong p cs = true ↔ ∀ c ∈ cs, c.everywhere p = true := by
    intro cs
    induction cs with
    | nil => simp [everywhereAmong]
    | cons c cs ih => simp [everywhereAmong, ih]
  cases n
  simp [everywhere, hamong]

/-- The node is `n` or one below it. -/
inductive Within (m : Node) : Node → Prop
  | refl : Within m m
  | child {n c : Node} (hc : c ∈ n.children) (h : Within m c) : Within m n

namespace Within

variable {m n : Node}

/-- What passes from each node to its children holds of the nodes below. -/
theorem keeps (h : m.Within n) {P : Node → Prop} (hP : ∀ k : Node, P k → ∀ c ∈ k.children, P c)
    (hn : P n) : P m := by
  induction h with
  | refl => exact hn
  | child hc _ ih => exact ih (hP _ hn _ hc)

theorem trans {k : Node} (h : m.Within n) (h' : n.Within k) : m.Within k := by
  induction h' with
  | refl => exact h
  | child hc _ ih => exact .child hc ih

theorem everywhere (h : m.Within n) {p : Node → Bool} (hp : n.everywhere p = true) :
    m.everywhere p = true :=
  h.keeps (P := fun k => k.everywhere p = true) (fun _ hk => (everywhere_iff.mp hk).2) hp

theorem sublist_lines (h : m.Within n) : m.lines.Sublist n.lines := by
  induction h with
  | refl => exact List.Sublist.refl _
  | @child n c hc _ ih =>
    rw [lines_eq n]
    exact (ih.trans (sublist_linesAmong_of_mem hc)).cons _

end Within

end Node

/-! ## The lines of items -/

/-- The lines of all that an item stands for. -/
def Item.lines : Item → List UInt32
  | .start l => [l.line]
  | .definition d => d.statement.lines

namespace Item

theorem lines_eq (i : Item) : ∃ rest, i.lines = i.line :: rest := by
  cases i with
  | start l => exact ⟨[], rfl⟩
  | definition d => exact ⟨_, d.statement.lines_eq⟩

theorem sublist_map_line (is : List Item) : (is.map line).Sublist (is.flatMap lines) := by
  induction is with
  | nil => exact List.Sublist.slnil
  | cons i is ih =>
    obtain ⟨rest, hrest⟩ := i.lines_eq
    rw [List.map_cons, List.flatMap_cons, hrest, List.cons_append]
    exact (ih.trans (List.sublist_append_right _ _)).cons_cons _

end Item

namespace Node

/-- Items pass over lines, but add none. -/
theorem sublist_lines {n : Node} (hn : n.fits = true) (next : Option Label) :
    ((n.items next).flatMap Item.lines).Sublist n.lines := by
  induction n using Node.induction generalizing next with
  | node n ih =>
    have hamong : ∀ cs : List Node, (∀ c ∈ cs, c ∈ n.children) →
        ((itemsAmong cs).flatMap Item.lines).Sublist (linesAmong cs) := by
      intro cs hcs
      induction cs with
      | nil => exact List.Sublist.slnil
      | cons c cs ihcs =>
        obtain ⟨hc, hrest⟩ := List.forall_mem_cons.mp hcs
        rw [itemsAmong, linesAmong, List.flatMap_append]
        exact (ih c hc ((fits_iff.mp hn).2 c hc) _).append (ihcs hrest)
    have hbelow := hamong n.children fun _ hc => hc
    by_cases hdefinition : n.label.kind.isDefinition = true
    · rw [items_definition hdefinition, List.flatMap_singleton]
      exact List.Sublist.refl _
    by_cases hdecorated : n.label.kind = .decoratedDefinition
    · have hfit := suitesFit_of_fits hn
      rw [hdecorated] at hfit
      obtain ⟨c, -, -, -, hitems⟩ := items_of_decorated hfit hdecorated next
      rw [hitems, List.flatMap_singleton]
      exact List.Sublist.refl _
    rw [lines_eq]
    by_cases hblock : n.label.kind = .block
    · rw [items_block hblock]
      exact hbelow.cons _
    · rw [items_other (by simp [Kind.defines, hdefinition, hdecorated]) hblock, List.flatMap_cons]
      exact hbelow.cons_cons _

theorem sublist_linesAmong {cs : List Node} (h : ∀ c ∈ cs, c.fits = true) :
    ((itemsAmong cs).flatMap Item.lines).Sublist (linesAmong cs) := by
  induction cs with
  | nil => exact List.Sublist.slnil
  | cons c cs ih =>
    obtain ⟨hc, hcs⟩ := List.forall_mem_cons.mp h
    rw [itemsAmong, linesAmong, List.flatMap_append]
    exact (sublist_lines hc _).append (ih hcs)

end Node

/-! ## Definitions and their statements -/

/-- The statement of a definition is the definition itself, or holds it below its decorators. -/
def Definition.IsStated (d : Definition) : Prop :=
  d.statement = d.node ∧ d.decorators = [] ∨
    d.statement.label.kind = .decoratedDefinition ∧ d.node ∈ d.statement.children ∧
      d.decorators = d.statement.named.filter (·.label.kind == .decorator)

namespace Definition.IsStated

variable {d : Definition}

/-- The line of the statement, and all lines below the definition. -/
theorem sublist_lines (h : d.IsStated) :
    (d.statement.label.line :: Node.linesAmong d.node.children).Sublist d.statement.lines := by
  rw [Node.lines_eq]
  rcases h with ⟨hsame, -⟩ | ⟨-, hmem, -⟩
  · exact hsame ▸ List.Sublist.refl _
  · refine List.Sublist.cons_cons _ (List.Sublist.trans ?_ (Node.sublist_linesAmong_of_mem hmem))
    rw [Node.lines_eq]
    exact List.sublist_cons_self _ _

theorem within (h : d.IsStated) : d.node.Within d.statement := by
  rcases h with ⟨hsame, -⟩ | ⟨-, hmem, -⟩
  · rw [hsame]
    exact .refl
  · exact .child hmem .refl

theorem of_mem_decorators (h : d.IsStated) {c : Node} (hc : c ∈ d.decorators) :
    c ∈ d.statement.children ∧ c.label.kind = .decorator := by
  rcases h with ⟨-, hnone⟩ | ⟨-, -, hsome⟩
  · rw [hnone] at hc
    cases hc
  · rw [hsome, List.mem_filter, beq_iff_eq] at hc
    exact ⟨(List.mem_filter.mp hc.1).1, hc.2⟩

theorem line_eq (h : d.IsStated) (hstart : d.statement.startsAtDecorator = true) :
    d.line = d.statement.label.line := by
  rcases h with ⟨hsame, hnone⟩ | ⟨hkind, -, hdecorators⟩
  · rw [Definition.line, Definition.row, hnone, hsame]
    rfl
  · simp only [Node.startsAtDecorator, hkind, bne_self_eq_false, Bool.false_or] at hstart
    rcases hr : d.statement.named.find? (·.label.kind == .decorator) with _ | r
    · rw [hr] at hstart
      cases hstart
    · rw [hr, Option.any_some, beq_iff_eq] at hstart
      simp only [Definition.line, Definition.row, hdecorators, List.head?_filter, hr,
        Option.map_some, Option.getD_some]
      exact hstart

end Definition.IsStated

namespace Node

/-- A definition stands at the node itself, or is met below one of the children. -/
theorem mem_items_cases {n : Node} (hn : n.fits = true) {next : Option Label} {d : Definition}
    (hd : .definition d ∈ n.items next) :
    d.statement = n ∧ d.IsStated ∨ .definition d ∈ itemsAmong n.children := by
  by_cases hdefinition : n.label.kind.isDefinition = true
  · rw [items_definition hdefinition, List.mem_singleton] at hd
    cases hd
    exact Or.inl ⟨rfl, Or.inl ⟨rfl, rfl⟩⟩
  by_cases hdecorated : n.label.kind = .decoratedDefinition
  · have hfit := suitesFit_of_fits hn
    rw [hdecorated] at hfit
    obtain ⟨c, hc, -, -, hitems⟩ := items_of_decorated hfit hdecorated next
    rw [hitems, List.mem_singleton] at hd
    cases hd
    exact Or.inl ⟨rfl, Or.inr ⟨hdecorated, hc, rfl⟩⟩
  by_cases hblock : n.label.kind = .block
  · rw [items_block hblock] at hd
    exact Or.inr hd
  · rw [items_other (by simp [Kind.defines, hdefinition, hdecorated]) hblock] at hd
    rcases List.mem_cons.mp hd with hd | hd
    · cases hd
    · exact Or.inr hd

theorem isStated_of_mem_items {n : Node} (hn : n.fits = true) {next : Option Label}
    {d : Definition} (hd : .definition d ∈ n.items next) : d.IsStated ∧ d.statement.Within n := by
  induction n using Node.induction generalizing next d with
  | node n ih =>
    rcases mem_items_cases hn hd with ⟨rfl, hstated⟩ | hd
    · exact ⟨hstated, .refl⟩
    · obtain ⟨c, hc, next, hd⟩ := mem_itemsAmong hd
      obtain ⟨hstated, hbelow⟩ := ih c hc ((fits_iff.mp hn).2 c hc) hd
      exact ⟨hstated, .child hc hbelow⟩

theorem mem_definitions {n : Node} {d : Definition} :
    d ∈ n.definitions ↔ .definition d ∈ itemsAmong n.children := by
  rw [definitions, List.mem_filterMap]
  constructor
  · rintro ⟨i, hi, hd⟩
    cases i with
    | start l => cases hd
    | definition e =>
      cases hd
      exact hi
  · intro hd
    exact ⟨_, hd, rfl⟩

theorem isStated_of_mem_definitions {n : Node} (hn : ∀ c ∈ n.children, c.fits = true)
    {d : Definition} (hd : d ∈ n.definitions) :
    d.IsStated ∧ ∃ c ∈ n.children, d.statement.Within c := by
  obtain ⟨c, hc, next, hd⟩ := mem_itemsAmong (mem_definitions.mp hd)
  obtain ⟨hstated, hbelow⟩ := isStated_of_mem_items (hn c hc) hd
  exact ⟨hstated, c, hc, hbelow⟩

/-- What holds everywhere holds everywhere in each definition. -/
theorem everywhere_of_mem_definitions {n : Node} (hn : ∀ c ∈ n.children, c.fits = true)
    {p : Node → Bool} (hp : n.everywhere p = true) {d : Definition} (hd : d ∈ n.definitions) :
    d.node.everywhere p = true := by
  obtain ⟨hstated, c, hc, hbelow⟩ := isStated_of_mem_definitions hn hd
  exact hstated.within.everywhere (hbelow.everywhere ((everywhere_iff.mp hp).2 c hc))

end Node

/-! ## Ordered from a line on -/

/-- What is below a node starts no earlier than `first`, and its lines never go back. -/
structure Node.OrderedFrom (first : UInt32) (n : Node) : Prop where
  fits : ∀ c ∈ n.children, c.fits = true
  decorators : n.everywhere startsAtDecorator = true
  sorted : (first :: Node.linesAmong n.children).Pairwise (· ≤ ·)

namespace Node.OrderedFrom

variable {first : UInt32} {n : Node}

theorem of_root {root : Node} (hsource : root.isSource = true) (hordered : root.isOrdered = true) :
    root.OrderedFrom 1 := by
  simp only [isOrdered, Bool.and_eq_true, decide_eq_true_eq] at hordered
  obtain ⟨hdecorators, hsorted⟩ := hordered
  refine ⟨(isSource_iff.mp hsource).2, hdecorators, hsorted.sublist ?_⟩
  rw [lines_eq]
  exact (List.sublist_cons_self _ _).cons_cons _

/-- The lines of the items below. -/
theorem sorted_items (h : n.OrderedFrom first) :
    (first :: (itemsAmong n.children).flatMap Item.lines).Pairwise (· ≤ ·) :=
  h.sorted.sublist ((sublist_linesAmong h.fits).cons_cons _)

theorem sorted_map_line (h : n.OrderedFrom first) :
    (first :: (itemsAmong n.children).map Item.line).Pairwise (· ≤ ·) :=
  h.sorted_items.sublist ((Item.sublist_map_line _).cons_cons _)

section Definitions

variable {d : Definition} (h : n.OrderedFrom first) (hd : d ∈ n.definitions)

include h hd

theorem isStated : d.IsStated := (isStated_of_mem_definitions h.fits hd).1

/-- A definition starts with its statement. -/
theorem line_eq : d.line = d.statement.label.line := by
  obtain ⟨hstated, c, hc, hbelow⟩ := isStated_of_mem_definitions h.fits hd
  have hc := (everywhere_iff.mp h.decorators).2 c hc
  exact hstated.line_eq (everywhere_iff.mp (hbelow.everywhere hc)).1

theorem sorted_statement : (first :: d.statement.lines).Pairwise (· ≤ ·) := by
  refine h.sorted_items.sublist (List.Sublist.cons_cons first ?_)
  exact List.sublist_flatten_of_mem (List.mem_map_of_mem (f := Item.lines) (mem_definitions.mp hd))

theorem first_le_line : first ≤ d.line := by
  have hsorted := h.sorted_statement hd
  rw [lines_eq] at hsorted
  rw [h.line_eq hd]
  exact (List.pairwise_cons.mp hsorted).1 _ List.mem_cons_self

/-- A definition starts no later than the part of it behind the decorators. -/
theorem line_le_of_mem : ∀ x ∈ d.node.lines, d.line ≤ x := by
  intro x hx
  have hsorted := (List.pairwise_cons.mp (h.sorted_statement hd)).2
  have hmem := (h.isStated hd).within.sublist_lines.subset hx
  rw [lines_eq] at hsorted hmem
  rw [h.line_eq hd]
  rcases List.mem_cons.mp hmem with rfl | hmem
  · exact UInt32.le_refl _
  · exact (List.pairwise_cons.mp hsorted).1 x hmem

/-- Definitions are ordered from their own lines on. -/
theorem inward : d.node.OrderedFrom d.line := by
  refine ⟨?_, everywhere_of_mem_definitions h.fits h.decorators hd, ?_⟩
  · exact (fits_iff.mp (fits_of_mem_itemsAmong h.fits (mem_definitions.mp hd)).1).2
  · rw [h.line_eq hd]
    exact ((List.pairwise_cons.mp (h.sorted_statement hd)).2).sublist (h.isStated hd).sublist_lines

end Definitions

/-- Definitions start in their order. -/
theorem sorted_definitions (h : n.OrderedFrom first) :
    n.definitions.Pairwise fun d e => d.line ≤ e.line := by
  have hlines := (List.pairwise_cons.mp h.sorted_map_line).2
  rw [List.pairwise_map] at hlines
  have hdefinitions : n.definitions.Pairwise fun d e =>
      d.statement.label.line ≤ e.statement.label.line := by
    refine List.pairwise_filterMap.mpr (hlines.imp ?_)
    intro i j hij d hd e he
    cases i <;> cases hd
    cases j <;> cases he
    exact hij
  refine hdefinitions.imp_of_mem ?_
  intro d e hd he hle
  rw [h.line_eq hd, h.line_eq he]
  exact hle

/-- Where definitions stand apart, each starts behind all lines of those before it. -/
theorem apart (h : n.OrderedFrom first) (hapart : n.definesApart = true) :
    n.definitions.Pairwise fun d e => ∀ x ∈ d.node.lines, x < e.line := by
  rw [definesApart, decide_eq_true_eq] at hapart
  refine hapart.imp_of_mem ?_
  intro d e _ he hlines x hx
  rw [h.line_eq he]
  exact of_decide_eq_true (List.all_eq_true.mp hlines x hx)

/-- All that comes after a definition is at its last line or below. -/
theorem le_of_after (h : n.OrderedFrom first) {d : Definition} {before after : List Item}
    (hitems : itemsAmong n.children = before ++ .definition d :: after) {i : Item}
    (hi : i ∈ after) : ∀ x ∈ d.line :: linesAmong d.node.children, x ≤ i.line := by
  have hd : d ∈ n.definitions := mem_definitions.mpr (by simp [hitems])
  have hsorted := (List.pairwise_cons.mp h.sorted_items).2
  rw [hitems, List.flatMap_append, List.flatMap_cons] at hsorted
  have hafter := (List.pairwise_append.mp (List.pairwise_append.mp hsorted).2.1).2.2
  intro x hx
  rw [h.line_eq hd] at hx
  refine hafter x ((h.isStated hd).sublist_lines.subset hx) i.line
    (List.mem_flatMap.mpr ⟨i, hi, ?_⟩)
  obtain ⟨rest, hrest⟩ := i.lines_eq
  rw [hrest]
  exact List.mem_cons_self

/-- Where definitions start lines of their own, no two of them start the same one. -/
theorem eq_of_line_eq (h : n.OrderedFrom first) (hopens : n.opensLines = true) {d e : Definition}
    (hd : d ∈ n.definitions) (he : e ∈ n.definitions) (hline : d.line = e.line) : d = e := by
  rw [h.line_eq hd, h.line_eq he] at hline
  rw [opensLines, decide_eq_true_eq] at hopens
  have hopens := List.pairwise_iff_getElem.mp hopens
  obtain ⟨i, hi, hdi⟩ := List.getElem_of_mem (mem_definitions.mp hd)
  obtain ⟨j, hj, hej⟩ := List.getElem_of_mem (mem_definitions.mp he)
  rcases Nat.lt_trichotomy i j with hlt | rfl | hlt
  · have hearlier := hopens i j hi hj hlt
    rw [hdi, hej] at hearlier
    exact absurd (hearlier rfl) (by simp [Item.line, hline])
  · exact Item.definition.inj (hdi.symm.trans hej)
  · have hearlier := hopens j i hj hi hlt
    rw [hdi, hej] at hearlier
    exact absurd (hearlier rfl) (by simp [Item.line, hline])

end Node.OrderedFrom

end UnitAtlas.Syntax
