-- A definition makes the lambdas of its decorators, of its default values or bases, and of its
-- body. Its own unit is no lambda.
import UnitAtlas.Proofs.Reading.DefinitionUnits
import UnitAtlas.Proofs.Reading.ExpressionLambdas

namespace UnitAtlas.Reading

open Syntax Draft

section Definitions

variable {n : Node}

/-! ## Suites -/

/-- A suite that is run as the statements of its named children. -/
structure IsSuite (n : Node) : Prop where
  placed : n.Placed .block
  free : n.label.kind = .block ∨ n.isFree = true
  below : ∀ c ∈ n.children, AllCount c

namespace IsSuite

theorem fit (h : IsSuite n) : (n.label.kind = .block ∨ n.label.kind.isOther = true) ∧
    ∀ c ∈ n.named, c.label.kind.isStatement = true ∧ c.isFree = true := by
  have hlist : n.isParameterList = false := by
    rcases h.free with hk | hfree
    · rw [Node.isParameterList, hk]
      rfl
    · exact isParameterList_of_isFree hfree
  have hfit := h.placed.fit hlist
  simpa [Node.childrenFit] using hfit

theorem held_eq (h : IsSuite n) : n.held = (n.named.map Node.held).sum := by
  apply h.placed.held_eq_named
  · rcases h.fit.1 with hk | hother
    · simp [hk]
    · intro hk
      rw [hk] at hother
      cases hother
  · rcases h.fit.1 with hk | hother
    · rw [Node.keepsAll, hk]
    · rw [Node.keepsAll]
      rcases h.free with hk | hfree
      · rw [hk]
      · rw [Node.isFree, Bool.and_eq_true] at hfree
        cases hk : n.label.kind <;> rw [hk] at hother <;> first | exact hfree.1 | cases hother

theorem statement (h : IsSuite n) {c : Node} (hc : c ∈ n.named) :
    Yields (ofNode c).roles.statement c.held := by
  obtain ⟨hkind, hfree⟩ := h.fit.2 c hc
  exact (h.below c (Node.mem_children_of_mem_named hc)).counts.statement hkind hfree

theorem yields_statements (h : IsSuite n) : Yields (statements (ofNode n).place.named) n.held := by
  rw [statements, named_ofNode, h.held_eq]
  exact Yields.all_nodes fun c hc => h.statement hc

theorem yields_block (h : IsSuite n) : Yields (ofNode n).place.block n.held := h.yields_statements

/-- There are no lambdas in a docstring. -/
theorem yields_tail (h : IsSuite n) {doc : String}
    (hdoc : docstring (ofNode n).place.named = some doc) :
    Yields (statements (ofNode n).place.named.tail) n.held := by
  obtain ⟨first, rest, inner, hparts, hkind, hinner, hstring⟩ := docstring_eq_some hdoc
  rw [named_ofNode] at hparts
  obtain ⟨c, cs, hnamed, rfl, rfl⟩ := List.map_eq_cons_iff.mp hparts
  rw [named_ofNode] at hinner
  obtain ⟨i, hi, rfl⟩ := List.map_eq_singleton_iff.mp hinner
  rw [kind_ofNode] at hkind hstring
  have hfirst : c.held = 0 := by
    have hc := h.below c (Node.mem_children_of_mem_named (by simp [hnamed]))
    rw [hc.placed.held_eq_named (by simp [hkind]) (by rw [Node.keepsAll, hkind]), hi,
      List.map_singleton, List.sum_singleton, held_of_string hstring]
  rw [h.held_eq, named_ofNode, hnamed, List.map_cons, List.map_cons, List.sum_cons, hfirst,
    zero_add, List.tail_cons]
  exact Yields.all_nodes fun c hc => h.statement (by simp [hnamed, hc])

theorem yields_namespaceSuite (h : IsSuite n) :
    Yields (namespaceSuite (ofNode n).place.named) n.held := by
  unfold namespaceSuite
  split
  · rename_i doc hdoc
    refine Yields.none_append ?_ (h.yields_tail hdoc)
    unfold firstStatementLine
    split <;> rfl
  · exact h.yields_statements

theorem yields_functionUnit (h : IsSuite n) {name : String} (hname : name ≠ lambdaName)
    (line : UInt32) (names : ParameterNames) :
    Yields (functionUnit name line names (ofNode n)) n.held := by
  refine Yields.unit hname (Yields.append_none ?_ rfl)
  split
  · rename_i doc hdoc
    refine Yields.none_append ?_ (h.yields_tail hdoc)
    unfold firstStatementLine
    split <;> rfl
  · exact h.yields_statements

theorem yields_classUnit (h : IsSuite n) {name : String} (hname : name ≠ lambdaName)
    (line : UInt32) : Yields (classUnit name line (ofNode n)) n.held := by
  refine Yields.unit hname ?_
  exact ((Yields.none_append rfl h.yields_namespaceSuite).append_none rfl).append_none rfl

end IsSuite

/-- Every block is such a suite. -/
theorem AllCount.isSuite (h : AllCount n) (hblock : n.label.kind = .block) : IsSuite n :=
  ⟨hblock ▸ h.placed, Or.inl hblock, h.children⟩

/-! ## Definitions -/

/-- The name of a definition is no lambda's. -/
theorem yields_withName {k : Kind} (hfit : n.SuitesFit k) (hk : k.isDefinition = true)
    {use : String → Draft} {ns : Multiset Node}
    (h : ∀ name, name ≠ lambdaName → Yields (use name) ns) :
    Yields ((ofNode n).place.withText .name use) ns := by
  unfold Place.withText
  rw [field?_ofNode]
  apply Yields.need_node
  intro c hc
  rw [text_ofNode]
  apply h
  intro hname
  have hsign : '<' ∈ c.label.text.toList := by
    rw [hname]
    decide
  exact hfit.name hk c hc hsign

theorem yields_decoratorValues {decorators : List Node}
    (h : ∀ c ∈ decorators, AllCount c ∧ c.label.kind = .decorator) :
    Yields (decoratorValues (decorators.map ofNode)) (decorators.map Node.held).sum := by
  apply Yields.all_nodes
  intro c hc
  obtain ⟨hc, hkind⟩ := h c hc
  have hexpr := isExpression_of_fit hc.placed (by rw [hkind]; rfl) (by rw [hkind]; rfl)
  rw [hc.placed.held_eq_named (by simp [hkind]) (by rw [Node.keepsAll, hkind])]
  exact yields_operands hc.children hexpr

theorem lambdas_applyDecorators (decorators : List Reading) :
    (applyDecorators decorators).lambdas = 0 := by
  rw [applyDecorators]
  induction decorators with
  | nil => rfl
  | cons r rest ih => exact (zero_add _).trans ih

/-- Nothing that tells a type is left out under a field of a definition. -/
theorem leavesOut_of_isRun {c : Node} (hn : n.label.kind.isDefinition = true)
    (hc : c.isRun = true) : n.leavesOut c.label = false := by
  rw [Node.isRun, Bool.not_eq_true'] at hc
  unfold Node.leavesOut
  split <;> first | exact hc | rfl | skip
  all_goals
    rename_i hk
    rw [hk] at hn
    cases hn

variable {decorators : List Node}

/-- What is below a definition is below the two parts of it that are run. -/
theorem held_of_definition (h : n.Placed n.label.kind) (hn : n.label.kind.isDefinition = true)
    {f : Field} (hfields : n.label.kind.fields? = some [f, .body]) (hf : f ≠ .body)
    (hrun : ∀ c, n.child? f = some c → c.isRun = true) {b : Node} (hb : n.child? .body = some b)
    (hblock : b.label.kind = .block) : n.held = n.heldAt f + b.held := by
  have hnot : n.label.kind ≠ .lambda ∧ n.label.kind ≠ .ifStatement := by
    constructor <;> intro hk <;> rw [hk] at hn <;> cases hn
  rw [Node.held_eq, if_neg hnot.1, zero_add,
    h.sum_held_at hfields (by simpa using hf) hnot.2]
  · simp [Node.heldAt_of_child? hb]
  · intro g hg c hc
    apply leavesOut_of_isRun hn
    rcases List.mem_cons.mp hg with rfl | hg
    · exact hrun c hc
    · rw [List.mem_singleton.mp hg, hb] at hc
      cases hc
      rw [Node.isRun, hblock]
      rfl

theorem yields_functionDefinition (h : n.Placed n.label.kind) (hfit : n.SuitesFit n.label.kind)
    (hbelow : ∀ c ∈ n.children, AllCount c) (hkind : n.label.kind = .functionDefinition)
    (hdecorators : ∀ c ∈ decorators, AllCount c ∧ c.label.kind = .decorator) :
    Yields (functionDefinition (ofNode n).place (decorators.map ofNode))
      ((decorators.map Node.held).sum + n.held) := by
  have hdefinition : n.label.kind.isDefinition = true := by rw [hkind]; rfl
  obtain ⟨b, -, hblock, hbody, -⟩ := body_of_suitesFit hfit hdefinition
  have hb := (hbelow b (Node.mem_children_of_child? hbody)).isSuite hblock
  have hlist := h.fit (by rw [Node.isParameterList, hkind]; rfl)
  rw [hkind] at hlist
  have hparameters : ∀ c, n.child? .parameters = some c →
      c.isParameterList = true ∧ c.isRun = true := by
    intro c hc
    simpa using (Option.all_eq_true _ _).mp hlist c hc
  have hdefaults : Yields (Declaration.ofList ((n.child? .parameters).map ofNode)).defaultValues
      (n.heldAt .parameters) := yields_defaultValues fun c hc =>
    ⟨hbelow c (Node.mem_children_of_child? hc), (hparameters c hc).1⟩
  rw [held_of_definition h hdefinition (by rw [hkind]; rfl) (by decide)
    (fun c hc => (hparameters c hc).2) hbody hblock, ← add_assoc]
  apply yields_withName hfit hdefinition
  intro name hname
  rw [field?_ofNode, field?_ofNode, hbody]
  refine ((yields_decoratorValues hdecorators).append hdefaults).append ?_
  have hunit := hb.yields_functionUnit hname (definitionLine (ofNode n).place
    (decorators.map ofNode)) (Declaration.ofList ((n.child? .parameters).map ofNode)).names
  exact ((hunit.append_none rfl).append_none (lambdas_applyDecorators _)).append_none rfl

/-! ## Classes -/

/-- What a class is given by keyword is no base. -/
theorem yields_bases (h : ∀ c, n.child? .superclasses = some c →
      AllCount c ∧ c.label.kind.isOther = true ∧ c.holdsSuite = false) :
    Yields (all ((bases (ofNode n).place).map (·.roles.value))) (n.heldAt .superclasses) := by
  rw [bases, field?_ofNode]
  cases hlist : n.child? .superclasses with
  | none =>
    rw [Node.heldAt, hlist]
    exact Yields.of_none rfl
  | some c =>
    obtain ⟨hc, hother, hsuite⟩ := h c hlist
    have hfield := Node.field_of_child? hlist
    have hparameters : c.isParameterList = false := by simp [Node.isParameterList, hfield]
    have hlambda : c.label.kind ≠ .lambda := by
      intro hk
      rw [hk] at hother
      cases hother
    have hexpr := isExpression_of_isOther hc.placed hother hparameters hsuite
    have hkept : c.kept.filter (·.label.isPart) =
        c.named.filter fun a => a.label.kind != .keywordArgument := by
      rw [Node.kept, Node.named, Node.namedOf, List.filter_filter, List.filter_filter]
      congr 1
      funext a
      have hleft : c.leavesOut a.label = (a.label.kind == .keywordArgument) := by
        cases hk : c.label.kind <;> rw [hk] at hother <;>
          first | cases hother; done | simp [Node.leavesOut, hk, hfield]
      rw [hleft, Bool.and_comm]
      rfl
    have hheld : c.held = ((c.named.filter fun a =>
        a.label.kind != .keywordArgument).map Node.held).sum := by
      rw [Node.held_eq, if_neg hlambda, zero_add, ← hkept]
      apply Node.sum_held_filter
      intro a ha hpart
      by_contra hheld
      rw [hc.placed.live a ha hheld] at hpart
      cases hpart
    have hbases : (ofNode c).place.named.filter (·.kind != .keywordArgument) =
        (c.named.filter fun a => a.label.kind != .keywordArgument).map ofNode :=
      filter_named_ofNode c (· != .keywordArgument) fun _ => rfl
    rw [Node.heldAt_of_child? hlist, hheld]
    show Yields (all (((ofNode c).place.named.filter (·.kind != .keywordArgument)).map _)) _
    rw [hbases]
    apply Yields.all_nodes
    intro a ha
    have hmem := Node.mem_children_of_mem_named (List.mem_filter.mp ha).1
    exact (hc.children a hmem).counts.value (hexpr a hmem)

theorem yields_classDefinition (h : n.Placed n.label.kind) (hfit : n.SuitesFit n.label.kind)
    (hbelow : ∀ c ∈ n.children, AllCount c) (hkind : n.label.kind = .classDefinition)
    (hdecorators : ∀ c ∈ decorators, AllCount c ∧ c.label.kind = .decorator) :
    Yields (classDefinition (ofNode n).place (decorators.map ofNode))
      ((decorators.map Node.held).sum + n.held) := by
  have hdefinition : n.label.kind.isDefinition = true := by rw [hkind]; rfl
  obtain ⟨b, -, hblock, hbody, -⟩ := body_of_suitesFit hfit hdefinition
  have hb := (hbelow b (Node.mem_children_of_child? hbody)).isSuite hblock
  have hlist := h.fit (by rw [Node.isParameterList, hkind]; rfl)
  rw [hkind] at hlist
  have hbases : ∀ c, n.child? .superclasses = some c →
      (c.label.kind.isOther = true ∧ c.isRun = true) ∧ c.holdsSuite = false := by
    intro c hc
    simpa using (Option.all_eq_true _ _).mp hlist c hc
  rw [held_of_definition h hdefinition (by rw [hkind]; rfl) (by decide)
    (fun c hc => (hbases c hc).1.2) hbody hblock, ← add_assoc]
  apply yields_withName hfit hdefinition
  intro name hname
  rw [field?_ofNode, hbody]
  have hvalues := yields_bases fun c hc => ⟨hbelow c (Node.mem_children_of_child? hc),
    (hbases c hc).1.1, (hbases c hc).2⟩
  have hunit := hb.yields_classUnit hname (definitionLine (ofNode n).place
    (decorators.map ofNode))
  refine ((((yields_decoratorValues hdecorators).append_none rfl).append hvalues).append_none
    rfl).append ?_
  exact ((((hunit.append_none rfl).append_none rfl).append_none rfl).append_none
    (lambdas_applyDecorators _)).append_none rfl

end Definitions

end UnitAtlas.Reading
