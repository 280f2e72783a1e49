-- What the grammar of suites says of the parts of a node: which of them have definitions below
-- them, and under which fields and among which named children they are found.
import UnitAtlas.Proofs.Syntax.Definitions

namespace UnitAtlas.Syntax

/-! ## Items in other items -/

/-- The second list is the first one with more starts in it. -/
inductive Thins : List Item → List Item → Prop
  | nil : Thins [] []
  | keep (i : Item) {is js : List Item} (h : Thins is js) : Thins (i :: is) (i :: js)
  | pass (l : Label) {is js : List Item} (h : Thins is js) : Thins is (.start l :: js)

namespace Thins

variable {is js is' js' : List Item}

theorem refl (is : List Item) : Thins is is := by
  induction is with
  | nil => exact .nil
  | cons i is ih => exact .keep i ih

theorem append (h : Thins is js) (h' : Thins is' js') : Thins (is ++ is') (js ++ js') := by
  induction h with
  | nil => exact h'
  | keep i _ ih => exact .keep i ih
  | pass l _ ih => exact .pass l ih

theorem append_left (is : List Item) (h : Thins is' js') : Thins (is ++ is') (is ++ js') :=
  (refl is).append h

/-- Left-out items are all starts. -/
theorem definitions_eq (h : Thins is js) :
    js.filterMap Item.definition? = is.filterMap Item.definition? := by
  induction h with
  | nil => rfl
  | keep i _ ih => rw [List.filterMap_cons, List.filterMap_cons, ih]
  | pass l _ ih => exact ih

end Thins

/-! ## Items of a node -/

/-- Definitions, and definitions under decorators. -/
def Kind.defines (k : Kind) : Bool := k.isDefinition || k == .decoratedDefinition

namespace Node

theorem items_definition {n : Node} (h : n.label.kind.isDefinition = true) (next : Option Label) :
    n.items next = [.definition ⟨n, n, [], next⟩] := by
  obtain ⟨⟨kind, _, _, _, _, _, _⟩, children⟩ := n
  cases kind <;> first | rfl | cases h

theorem items_decorated {n : Node} (h : n.label.kind = .decoratedDefinition)
    (next : Option Label) :
    n.items next = (itemsAmong n.children).filterMap (Item.decorate n next) := by
  obtain ⟨⟨kind, _, _, _, _, _, _⟩, children⟩ := n
  cases h
  rfl

theorem items_block {n : Node} (h : n.label.kind = .block) (next : Option Label) :
    n.items next = itemsAmong n.children := by
  obtain ⟨⟨kind, _, _, _, _, _, _⟩, children⟩ := n
  cases h
  rfl

theorem items_other {n : Node} (h : n.label.kind.defines = false) (hblock : n.label.kind ≠ .block)
    (next : Option Label) : n.items next = .start n.label :: itemsAmong n.children := by
  obtain ⟨⟨kind, _, _, _, _, _, _⟩, children⟩ := n
  cases kind <;> first | rfl | exact absurd rfl hblock | cases h

/-- What follows matters for definitions only. -/
theorem items_next {n : Node} (h : n.label.kind.defines = false) (next : Option Label) :
    n.items next = n.items none := by
  by_cases hblock : n.label.kind = .block
  · rw [items_block hblock, items_block hblock]
  · rw [items_other h hblock, items_other h hblock]

theorem holdsSuite_iff {n : Node} : n.holdsSuite = true ↔
    n.label.kind = .block ∨ n.label.kind.isDefinition = true ∨
      ∃ c ∈ n.children, c.holdsSuite = true := by
  have hamong : ∀ cs : List Node,
      holdsSuiteAmong cs = true ↔ ∃ c ∈ cs, c.holdsSuite = true := by
    intro cs
    induction cs with
    | nil => simp [holdsSuiteAmong]
    | cons c cs ih => simp [holdsSuiteAmong, ih]
  cases n
  simp [holdsSuite, hamong, or_assoc]

theorem thins_itemsAmong {cs : List Node}
    (h : ∀ c ∈ cs, ∀ next, Thins [] (c.items next)) : Thins [] (itemsAmong cs) := by
  induction cs with
  | nil => exact .nil
  | cons c cs ih =>
    obtain ⟨hc, hcs⟩ := List.forall_mem_cons.mp h
    exact (hc _).append (ih hcs)

/-- A node without suites has no definitions below it. -/
theorem thins_of_holdsSuite_eq_false {n : Node} (h : n.holdsSuite = false)
    (next : Option Label) : Thins [] (n.items next) := by
  induction n using Node.induction generalizing next with
  | node n ih =>
    have hnot : ¬ n.holdsSuite = true := by simp [h]
    rw [holdsSuite_iff, not_or, not_or, not_exists] at hnot
    obtain ⟨hblock, hdefinition, hchildren⟩ := hnot
    have hamong : Thins [] (itemsAmong n.children) := by
      apply thins_itemsAmong
      intro c hc next
      exact ih c hc (by simpa using fun hheld => hchildren c ⟨hc, hheld⟩) next
    by_cases hdecorated : n.label.kind = .decoratedDefinition
    · have hnone := hamong.definitions_eq
      have hitems : n.items next = [] := by
        rw [items_decorated hdecorated, List.filterMap_eq_nil_iff]
        intro i hi
        cases i with
        | start l => rfl
        | definition d =>
          rw [List.filterMap_nil, List.filterMap_eq_nil_iff] at hnone
          cases hnone _ hi
      rw [hitems]
      exact .nil
    · rw [items_other (by simp [Kind.defines, hdecorated, hdefinition]) hblock]
      exact .pass _ hamong

/-- The definitions below nodes are those below the ones with suites. -/
theorem thins_suites {cs : List Node}
    (h : ∀ c ∈ cs.filter holdsSuite, c.label.kind.defines = false) :
    Thins ((cs.filter holdsSuite).flatMap (items none)) (itemsAmong cs) := by
  induction cs with
  | nil => exact .nil
  | cons c cs ih =>
    rw [itemsAmong]
    by_cases hc : c.holdsSuite = true
    · rw [List.filter_cons_of_pos hc] at h ⊢
      obtain ⟨hkind, hcs⟩ := List.forall_mem_cons.mp h
      rw [List.flatMap_cons, items_next hkind (nextOf cs)]
      exact Thins.append_left _ (ih hcs)
    · rw [List.filter_cons_of_neg hc] at h ⊢
      exact (thins_of_holdsSuite_eq_false (by simpa using hc) _).append (ih h)

/-! ## What the grammar says of one node -/

/-- The parts of a node that fits the grammar. -/
structure SuitesFit (as : Kind) (n : Node) : Prop where
  takes : as.takes (n.suiteParts.map fun c => (c.label.kind, c.label.field)) = true
  named : ∀ c ∈ n.suiteParts, c.label.named = true
  fields : n.suiteParts ≠ [] →
    ∀ c ∈ n.children, ∀ f, c.label.field = some f → f.isSuite = true → c.holdsSuite = true
  name : as.isDefinition = true → ∀ c, n.child? .name = some c → '<' ∉ c.label.text.toList
  children : ∀ c ∈ n.children, c.fits = true

theorem suitesFit_of_fitsHere {n : Node} {as : Kind} (h : n.fitsHere as = true)
    (hchildren : ∀ c ∈ n.children, c.fits = true) : n.SuitesFit as := by
  simp only [fitsHere, Bool.and_eq_true, List.all_eq_true, Bool.or_eq_true,
    Bool.not_eq_true', List.isEmpty_iff] at h
  obtain ⟨⟨⟨htakes, hnamed⟩, hfields⟩, hname⟩ := h
  refine ⟨htakes, hnamed, ?_, ?_, hchildren⟩
  · intro hsuites c hc f hf hsuite
    rcases hfields with hempty | hfields
    · exact absurd hempty hsuites
    · rcases hfields c hc with hheld | hnone
      · exact hheld
      · rw [hf, Option.any_some, hsuite] at hnone
        cases hnone
  · intro has c hc
    rcases hname with hnot | hname
    · rw [has] at hnot
      cases hnot
    · rw [hc, Option.any_some] at hname
      simpa using hname

theorem suitesFit_of_fits {n : Node} (h : n.fits = true) : n.SuitesFit n.label.kind := by
  obtain ⟨hhere, hchildren⟩ := fits_iff.mp h
  exact suitesFit_of_fitsHere hhere hchildren

theorem suitesFit_of_isSource {root : Node} (h : root.isSource = true) :
    root.SuitesFit .block := by
  obtain ⟨hhere, hchildren⟩ := isSource_iff.mp h
  exact suitesFit_of_fitsHere hhere hchildren

theorem mem_itemsAmong {cs : List Node} {i : Item} (hi : i ∈ itemsAmong cs) :
    ∃ c ∈ cs, ∃ next, i ∈ c.items next := by
  induction cs with
  | nil => exact absurd hi (by simp [itemsAmong])
  | cons c cs ih =>
    rw [itemsAmong] at hi
    rcases List.mem_append.mp hi with hi | hi
    · exact ⟨c, List.mem_cons_self, _, hi⟩
    · obtain ⟨x, hx, next, hi⟩ := ih hi
      exact ⟨x, List.mem_cons_of_mem c hx, next, hi⟩

/-- What is defined below nodes that fit is a function or a class, and fits. -/
theorem fits_of_mem_items {n : Node} (hn : n.fits = true) {next : Option Label} {d : Definition}
    (hd : .definition d ∈ n.items next) :
    d.node.fits = true ∧ d.node.label.kind.isDefinition = true := by
  induction n using Node.induction generalizing next d with
  | node n ih =>
    have hbelow : ∀ d : Definition, .definition d ∈ itemsAmong n.children →
        d.node.fits = true ∧ d.node.label.kind.isDefinition = true := by
      intro d hd
      obtain ⟨c, hc, next, hd⟩ := mem_itemsAmong hd
      exact ih c hc ((fits_iff.mp hn).2 c hc) hd
    by_cases hdefinition : n.label.kind.isDefinition = true
    · rw [items_definition hdefinition, List.mem_singleton] at hd
      cases hd
      exact ⟨hn, hdefinition⟩
    by_cases hdecorated : n.label.kind = .decoratedDefinition
    · rw [items_decorated hdecorated, List.mem_filterMap] at hd
      obtain ⟨i, hi, hd⟩ := hd
      cases i with
      | start l => cases hd
      | definition e =>
        cases hd
        exact hbelow e hi
    by_cases hblock : n.label.kind = .block
    · rw [items_block hblock] at hd
      exact hbelow d hd
    · rw [items_other (by simp [Kind.defines, hdefinition, hdecorated]) hblock] at hd
      rcases List.mem_cons.mp hd with hd | hd
      · cases hd
      · exact hbelow d hd

theorem fits_of_mem_itemsAmong {cs : List Node} (h : ∀ c ∈ cs, c.fits = true) {d : Definition}
    (hd : .definition d ∈ itemsAmong cs) :
    d.node.fits = true ∧ d.node.label.kind.isDefinition = true := by
  obtain ⟨c, hc, next, hd⟩ := mem_itemsAmong hd
  exact fits_of_mem_items (h c hc) hd

namespace SuitesFit

variable {n : Node} {as : Kind}

/-- What stands under a field for suites is found among the suites. -/
theorem fields_eq (h : n.SuitesFit as) (hsuites : n.suiteParts ≠ []) {f : Field}
    (hf : f.isSuite = true) : n.children.filter (·.label.field == some f) =
      n.suiteParts.filter (·.label.field == some f) := by
  rw [suiteParts, List.filter_filter]
  apply List.filter_congr
  intro c hc
  rcases hfield : c.label.field == some f with _ | _
  · rfl
  · rw [h.fields hsuites c hc f (beq_iff_eq.mp hfield) hf]
    rfl

theorem child?_eq (h : n.SuitesFit as) (hsuites : n.suiteParts ≠ []) {f : Field}
    (hf : f.isSuite = true) : n.child? f = n.suiteParts.find? (·.label.field == some f) := by
  rw [child?, ← List.head?_filter, h.fields_eq hsuites hf, List.head?_filter]

/-- Suites are parts that the grammar names. -/
theorem isPart (h : n.SuitesFit as) {c : Node} (hc : c ∈ n.suiteParts) :
    c.label.isPart = true := by
  obtain ⟨hmem, hheld⟩ := List.mem_filter.mp hc
  have htrivia : c.label.kind.isTrivia = false := by
    rcases htrivia : c.label.kind.isTrivia with _ | _
    · rfl
    -- Trivia has no suites below it.
    have htakes := (suitesFit_of_fits (h.children c hmem)).takes
    rcases holdsSuite_iff.mp hheld with hblock | hdefinition | ⟨d, hd, hholds⟩
    · rw [hblock] at htrivia
      cases htrivia
    · cases hkind : c.label.kind <;> rw [hkind] at hdefinition htrivia <;>
        first | cases hdefinition; done | cases htrivia
    · have hmem : d ∈ c.suiteParts := List.mem_filter.mpr ⟨hd, hholds⟩
      have hempty : (c.suiteParts.map fun c => (c.label.kind, c.label.field)) = [] := by
        cases hkind : c.label.kind <;> rw [hkind] at htrivia htakes <;>
          first | cases htrivia; done | exact List.isEmpty_iff.mp htakes
      rw [List.map_eq_nil_iff.mp hempty] at hmem
      cases hmem
  rw [Label.isPart, h.named c hc, htrivia]
  rfl

/-- The parts of a block are no blocks. -/
theorem kind_ne_block (h : n.SuitesFit .block) {c : Node} (hc : c ∈ n.suiteParts) :
    c.label.kind ≠ .block := by
  have htakes := h.takes
  simp only [Kind.takes, List.all_map, List.all_eq_true, Function.comp_apply, bne_iff_ne]
    at htakes
  exact htakes c hc

/-- A kind whose nodes all have suites is found among the suites. -/
theorem named_filter (h : n.SuitesFit as) {q : Kind → Bool}
    (hq : ∀ c : Node, c.fits = true → q c.label.kind = true → c.holdsSuite = true) :
    n.named.filter (fun c => q c.label.kind) = n.suiteParts.filter (fun c => q c.label.kind) := by
  rw [Node.named, namedOf, suiteParts, List.filter_filter, List.filter_filter]
  apply List.filter_congr
  intro c hc
  rcases hkind : q c.label.kind with _ | _
  · rfl
  · have hheld := hq c (h.children c hc) hkind
    rw [hheld, h.isPart (List.mem_filter.mpr ⟨hc, hheld⟩)]

end SuitesFit

/-! ## Nodes with one suite -/

/-- A single part with suites, told by its kind and field. -/
theorem suiteParts_eq_singleton {n : Node} {k : Kind} {f : Option Field}
    (h : (n.suiteParts.map fun c => (c.label.kind, c.label.field)) = [(k, f)]) :
    ∃ b, n.suiteParts = [b] ∧ b.label.kind = k ∧ b.label.field = f := by
  obtain ⟨b, hb, hkf⟩ := List.map_eq_singleton_iff.mp h
  rw [Prod.mk.injEq] at hkf
  exact ⟨b, hb, hkf.1, hkf.2⟩

/-- Decorators and the definition under them are one item. -/
theorem items_of_decorated {n : Node} (hfit : n.SuitesFit .decoratedDefinition)
    (hkind : n.label.kind = .decoratedDefinition) (next : Option Label) :
    ∃ c ∈ n.children, c.label.kind.isDefinition = true ∧ n.child? .definition = some c ∧
      n.items next =
        [.definition ⟨n, c, n.named.filter (·.label.kind == .decorator), next⟩] := by
  obtain ⟨c, hparts, hc, hfield⟩ : ∃ c, n.suiteParts = [c] ∧ c.label.kind.isDefinition = true ∧
      c.label.field = some .definition := by
    have htakes := hfit.takes
    simp only [Kind.takes, Bool.or_eq_true, beq_iff_eq] at htakes
    rcases htakes with h | h
    · obtain ⟨c, hparts, hc, hfield⟩ := suiteParts_eq_singleton h
      exact ⟨c, hparts, by rw [hc]; rfl, hfield⟩
    · obtain ⟨c, hparts, hc, hfield⟩ := suiteParts_eq_singleton h
      exact ⟨c, hparts, by rw [hc]; rfl, hfield⟩
  have hchild : n.child? .definition = some c := by
    rw [hfit.child?_eq (by simp [hparts]) rfl, hparts]
    simp [hfield]
  have hmem : c ∈ n.children := by
    have h : c ∈ n.suiteParts := by rw [hparts]; exact List.mem_singleton_self c
    exact (List.mem_filter.mp h).1
  refine ⟨c, hmem, hc, hchild, ?_⟩
  -- All other children have starts only, which are not kept.
  have hitems : ∀ cs : List Node, cs.filter holdsSuite = [c] →
      (itemsAmong cs).filterMap (Item.decorate n next) =
        [.definition ⟨n, c, n.named.filter (·.label.kind == .decorator), next⟩] := by
    have hnone : ∀ is : List Item, Thins [] is → is.filterMap (Item.decorate n next) = [] := by
      intro is his
      rw [List.filterMap_eq_nil_iff]
      intro i hi
      cases i with
      | start l => rfl
      | definition d =>
        have hdefinitions := his.definitions_eq
        rw [List.filterMap_nil, List.filterMap_eq_nil_iff] at hdefinitions
        cases hdefinitions _ hi
    intro cs
    induction cs with
    | nil => exact nofun
    | cons x xs ih =>
      intro hcs
      rw [itemsAmong, List.filterMap_append]
      by_cases hx : x.holdsSuite = true
      · rw [List.filter_cons_of_pos hx] at hcs
        obtain ⟨rfl, hxs⟩ := List.cons_eq_cons.mp hcs
        have hrest : Thins [] (itemsAmong xs) := by
          apply thins_itemsAmong
          intro y hy next
          apply thins_of_holdsSuite_eq_false
          simpa using List.filter_eq_nil_iff.mp hxs y hy
        rw [items_definition hc, hnone _ hrest]
        rfl
      · rw [List.filter_cons_of_neg hx] at hcs
        rw [hnone _ (thins_of_holdsSuite_eq_false (by simpa using hx) _), ih hcs,
          List.nil_append]
  rw [items_decorated hkind]
  exact hitems n.children hparts

end Node

end UnitAtlas.Syntax
