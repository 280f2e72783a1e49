-- Every expression makes each of its lambdas once, as a value and as a target: each rule asks for
-- every part that the grammar gives to its kind, and for none of them twice.
import UnitAtlas.Proofs.Reading.Yields

namespace UnitAtlas.Reading

open Syntax Draft

section Expressions

variable {n : Node}

/-! ## Parts of an expression -/

/-- An expression is no list of parameters or bases. -/
theorem isFree_of_isExpression (hn : n.isExpression = true) : n.isFree = true := by
  rw [Node.isExpression, Bool.and_eq_true] at hn
  exact hn.2

theorem isParameterList_of_isFree (hn : n.isFree = true) : n.isParameterList = false := by
  simp only [Node.isFree, Bool.and_eq_true, bne_iff_ne] at hn
  simp [Node.isParameterList, hn.2]

/-- A kind that no rule is for, without suites, asks for expressions only. -/
theorem isExpression_of_isOther (h : n.Placed n.label.kind) (hother : n.label.kind.isOther = true)
    (hlist : n.isParameterList = false) (hsuite : n.holdsSuite = false) :
    ∀ c ∈ n.children, c.isExpression = true := by
  have hfit := h.fit hlist
  intro c hc
  have hchild : (c.isExpression || c.isSuitePart) = true := by
    cases hk : n.label.kind <;> rw [hk] at hother hfit <;>
      first | cases hother; done | exact List.all_eq_true.mp hfit c hc
  have hnone : c.holdsSuite = false := by
    refine Bool.eq_false_iff.mpr fun hheld => ?_
    rw [Node.holdsSuite_iff.mpr (Or.inr (Or.inr ⟨c, hc, hheld⟩))] at hsuite
    cases hsuite
  rw [Bool.or_eq_true] at hchild
  rcases hchild with hchild | hchild
  · exact hchild
  rw [Node.isSuitePart, Bool.or_eq_true] at hchild
  rcases hchild with hblock | hclause
  · rw [Node.holdsSuite_iff.mpr (Or.inl (beq_iff_eq.mp hblock))] at hnone
    cases hnone
  · rw [Bool.and_eq_true, Bool.and_eq_true] at hclause
    obtain ⟨⟨hother, -⟩, hfree⟩ := hclause
    rw [Node.isExpression, hnone, hfree, Bool.not_false, Bool.and_true, Bool.and_true]
    cases hc : c.label.kind <;> rw [hc] at hother <;> first | rfl | cases hother

/-- The children of an expression are expressions, but for strings and lambdas. -/
theorem isExpression_of_placed (h : n.Placed n.label.kind) (hn : n.isExpression = true)
    (hstring : n.label.kind ≠ .string) (hstrings : n.label.kind ≠ .concatenatedString)
    (hlambda : n.label.kind ≠ .lambda) : ∀ c ∈ n.children, c.isExpression = true := by
  have hlist := isParameterList_of_isFree (isFree_of_isExpression hn)
  have hfit := h.fit hlist
  rw [Node.isExpression, Bool.and_eq_true, Bool.and_eq_true, Bool.not_eq_true'] at hn
  obtain ⟨⟨hkind, hsuite⟩, -⟩ := hn
  have hall : n.operandsFit = true → ∀ c ∈ n.children, c.isExpression = true := List.all_eq_true.mp
  have hfirst : ∀ {more : Bool}, (n.operandsFit && more) = true →
      ∀ c ∈ n.children, c.isExpression = true := fun hboth =>
    hall ((Bool.and_eq_true _ _).mp hboth).1
  cases hk : n.label.kind <;> rw [hk] at hkind hfit hstring hstrings hlambda <;>
    first
      | cases hkind; done
      | exact absurd rfl hstring
      | exact absurd rfl hstrings
      | exact absurd rfl hlambda
      | exact hall hfit
      | exact hfirst hfit
      | exact isExpression_of_isOther h (by rw [hk]; rfl) hlist hsuite

/-- An expression that is no string leaves no child out. -/
theorem keepsAll_of_isExpression (hn : n.isExpression = true) (hstring : n.label.kind ≠ .string)
    (hstrings : n.label.kind ≠ .concatenatedString) : n.keepsAll = true := by
  have hfree := isFree_of_isExpression hn
  rw [Node.isFree, Bool.and_eq_true] at hfree
  rw [Node.isExpression, Bool.and_eq_true, Bool.and_eq_true] at hn
  obtain ⟨⟨hkind, -⟩, -⟩ := hn
  unfold Node.keepsAll
  split <;> first | rfl | exact hfree.1 | skip
  all_goals
    rename_i hk
    first
      | exact absurd hk hstring
      | exact absurd hk hstrings
      | (rw [hk] at hkind; cases hkind)

section Rules

variable (hbelow : ∀ c ∈ n.children, AllCount c)
  (hexpr : ∀ c ∈ n.children, c.isExpression = true)

include hbelow hexpr

/-- The value of a named child. -/
theorem yields_named {c : Node} (hc : c ∈ n.named) : Yields (ofNode c).roles.value c.held := by
  have hmem := Node.mem_children_of_mem_named hc
  exact (hbelow c hmem).counts.value (hexpr c hmem)

theorem yields_operands : Yields (ofNode n).place.operands (n.named.map Node.held).sum := by
  rw [Place.operands, named_ofNode]
  exact Yields.all_nodes fun c hc => yields_named hbelow hexpr hc

/-- The value of the child under a field. -/
theorem yields_valueAt {f : Field} {c : Node} (hc : n.child? f = some c) :
    Yields (ofNode c).roles.value (n.heldAt f) := by
  have hmem := Node.mem_children_of_child? hc
  rw [Node.heldAt_of_child? hc]
  exact (hbelow c hmem).counts.value (hexpr c hmem)

theorem yields_attributeOf (op : Opcode.Named) :
    Yields (attributeOf op (ofNode n).place) (n.heldAt .object) := by
  rw [attributeOf, field?_ofNode]
  apply Yields.need_node
  intro object hobject
  apply (yields_valueAt hbelow hexpr hobject).append_none
  unfold Place.withText
  cases (ofNode n).place.field? .attributeName <;> rfl

theorem yields_booleanOperator :
    Yields (booleanOperator (ofNode n).place) (n.heldAt .left + n.heldAt .right) := by
  rw [booleanOperator, field?_ofNode, field?_ofNode]
  apply Yields.need_node
  intro left hleft
  apply Yields.need_node
  intro right hright
  apply (yields_valueAt hbelow hexpr hleft).append
  exact Yields.block (Yields.none_append rfl (yields_valueAt hbelow hexpr hright))

theorem yields_comparison :
    Yields (comparison (ofNode n).place) (n.named.map Node.held).sum := by
  have hnamed : ∀ c ∈ n.named, Yields (ofNode c).roles.value c.held := fun c hc =>
    yields_named hbelow hexpr hc
  rw [comparison, named_ofNode]
  cases hparts : n.named with
  | nil => exact Yields.of_none rfl
  | cons first rest =>
    rw [hparts, List.forall_mem_cons] at hnamed
    rw [List.map_cons, List.map_cons, List.sum_cons]
    apply hnamed.1.append
    apply Yields.all_nodes
    intro c hc
    exact (hnamed.2 c hc).append_none rfl

theorem yields_firstValue (hfirst : n.isPlainAfter 1 = true) :
    Yields (firstValue (ofNode n).place) (n.named.map Node.held).sum := by
  rw [firstValue, named_ofNode]
  cases hparts : n.named with
  | nil => exact Yields.of_none rfl
  | cons first rest =>
    rw [← hparts, Node.sum_held_of_isPlainAfter hfirst hparts, hparts]
    exact yields_named hbelow hexpr (by simp [hparts])

theorem yields_conditional :
    Yields (conditional (ofNode n).place) (n.named.map Node.held).sum := by
  have hnamed : ∀ c ∈ n.named, Yields (ofNode c).roles.value c.held := fun c hc =>
    yields_named hbelow hexpr hc
  unfold conditional
  split
  · rename_i body condition alternative hparts
    rw [named_ofNode] at hparts
    obtain ⟨b, bs, hb, rfl, hrest⟩ := List.map_eq_cons_iff.mp hparts
    obtain ⟨c, cs, rfl, rfl, hlast⟩ := List.map_eq_cons_iff.mp hrest
    obtain ⟨a, rfl, rfl⟩ := List.map_eq_singleton_iff.mp hlast
    rw [hb] at hnamed ⊢
    have hbody := hnamed b (by simp)
    have hcondition := hnamed c (by simp)
    have halternative := hnamed a (by simp)
    have hthen : Yields (.jump .popIfFalse 0 ++ (ofNode b).roles.value ++ .jump .forward 1)
        b.held := (Yields.none_append rfl hbody).append_none rfl
    have hall := hcondition.append (hthen.block.append halternative).block
    simpa [add_left_comm] using hall
  · exact yields_operands hbelow hexpr

end Rules

/-! ## Entries and arguments -/

theorem lambdas_withText (p : Place Reading) (f : Field) {use : String → Draft}
    (h : ∀ text, (use text).lambdas = 0) : (p.withText f use).lambdas = 0 := by
  unfold Place.withText
  cases p.field? f with
  | none => rfl
  | some r => exact h r.text

theorem yields_dictionaryEntry (h : AllCount n) (hn : n.isExpression = true) :
    Yields (dictionaryEntry (ofNode n)) n.held := by
  rw [dictionaryEntry, kind_ofNode]
  split
  · rename_i hkind
    have hexpr := isExpression_of_placed h.placed hn (by simp [hkind]) (by simp [hkind])
      (by simp [hkind])
    have hheld := h.placed.held_eq_fields (by rw [hkind]; rfl) (by decide) (by simp [hkind])
      (by rw [Node.keepsAll, hkind]) (by simp [hkind])
    rw [hheld, field?_ofNode, field?_ofNode]
    apply Yields.need_node
    intro key hkey
    apply Yields.need_node
    intro value hvalue
    have hboth := (yields_valueAt h.children hexpr hvalue).append
      (yields_valueAt h.children hexpr hkey)
    simpa [add_comm] using hboth.append_none rfl
  · exact h.counts.value hn

theorem yields_argument (h : AllCount n) (hn : n.isExpression = true) :
    Yields (argument (ofNode n)) n.held := by
  have hvalue := h.counts.value hn
  unfold argument
  split
  · exact Yields.none_append (lambdas_withText _ _ fun _ => rfl) hvalue
  · exact hvalue

theorem yields_callWith {arguments : Option Node}
    (h : ∀ c, arguments = some c → AllCount c ∧ c.isExpression = true ∧
      (c.label.kind = .generatorExpression ∨ c.label.kind.isOther = true)) :
    Yields (callWith (arguments.map ofNode)) ((arguments.map Node.held).getD 0) := by
  cases arguments with
  | none => exact Yields.of_none rfl
  | some c =>
    obtain ⟨hc, hn, hkind⟩ := h c rfl
    rw [Option.map_some, callWith, kind_ofNode]
    split
    · exact (hc.counts.value hn).append_none rfl
    · rename_i hnot
      have hother := hkind.resolve_left hnot
      have hplain : c.label.kind ≠ .string ∧ c.label.kind ≠ .concatenatedString ∧
          c.label.kind ≠ .lambda := by
        refine ⟨?_, ?_, ?_⟩ <;> intro heq <;> rw [heq] at hother <;> cases hother
      have hexpr := isExpression_of_placed hc.placed hn hplain.1 hplain.2.1 hplain.2.2
      have hheld := hc.placed.held_eq_named hplain.2.2
        (keepsAll_of_isExpression hn hplain.1 hplain.2.1)
      rw [Option.map_some, Option.getD_some, hheld, named_ofNode]
      apply Yields.append_none
      · apply Yields.all_nodes
        intro a ha
        have hmem := Node.mem_children_of_mem_named ha
        exact yields_argument (hc.children a hmem) (hexpr a hmem)
      · rfl

/-! ## Default values -/

/-- The default value of a parameter. -/
def defaultsOf (r : Reading) : List Draft :=
  match parameter r with
  | .single _ default => default.toList
  | _ => []

theorem defaults_foldl (rs : List Reading) (declared : Declaration) :
    ((rs.map parameter).foldl Declaration.add declared).defaults =
      declared.defaults ++ rs.flatMap defaultsOf := by
  induction rs generalizing declared with
  | nil => simp
  | cons r rs ih =>
    rw [List.map_cons, List.foldl_cons, ih, List.flatMap_cons, ← List.append_assoc]
    congr 1
    unfold defaultsOf
    cases hr : parameter r with
    | single name default => rfl
    | _ => exact (List.append_nil _).symm

/-- Only some kinds of parameters have default values. -/
theorem defaultsOf_ofNode (c : Node) : defaultsOf (ofNode c) =
    if c.label.kind.hasDefault then
      ((c.child? .value).map fun v => (ofNode v).roles.value).toList
    else [] := by
  have hdefault : defaultParameter (ofNode c) = .single
      (((ofNode c).place.field? .name).map (·.text))
      ((c.child? .value).map fun v => (ofNode v).roles.value) := by
    rw [defaultParameter, field?_ofNode c .value, Option.map_map]
    rfl
  unfold defaultsOf parameter
  rw [kind_ofNode]
  cases hkind : c.label.kind <;> first | rfl | skip
  · simp only [hdefault]
    rfl
  · simp only [hdefault]
    rfl
  · cases (ofNode c).place.named.head? with
    | none => rfl
    | some inner =>
      simp only [typedParameter]
      cases inner.kind <;> rfl

/-- What is below a parameter is below its default value, which is an expression. -/
theorem held_of_hasDefault (h : n.Placed n.label.kind) (hkind : n.label.kind.hasDefault = true) :
    n.held = n.heldAt .value ∧ ∀ v, n.child? .value = some v → v.isExpression = true := by
  have hlist : n.isParameterList = false := by
    rw [Node.isParameterList]
    cases hk : n.label.kind <;> rw [hk] at hkind <;> first | rfl | cases hkind
  have hfit := h.fit hlist
  have hvalue : ∀ v, n.child? .value = some v → v.isExpression = true ∧ v.isRun = true := by
    intro v hv
    rw [← Bool.and_eq_true]
    cases hk : n.label.kind <;> rw [hk] at hkind hfit <;>
      first | cases hkind; done | exact (Option.all_eq_true _ _).mp hfit v hv
  refine ⟨?_, fun v hv => (hvalue v hv).1⟩
  have hfields : n.label.kind.fields? = some [.value] := by
    cases hk : n.label.kind <;> rw [hk] at hkind <;> first | rfl | cases hkind
  have hnot : n.label.kind ≠ .lambda ∧ n.label.kind ≠ .ifStatement := by
    constructor <;> intro hk <;> rw [hk] at hkind <;> cases hkind
  rw [Node.held_eq, if_neg hnot.1, zero_add, h.sum_held_at hfields (by decide) hnot.2]
  · simp
  · intro f hf v hv
    rw [List.mem_singleton.mp hf] at hv
    have hrun := (hvalue v hv).2
    rw [Node.isRun, Bool.not_eq_true'] at hrun
    unfold Node.leavesOut
    split <;> first | rfl | exact hrun | skip
    all_goals
      rename_i hk
      rw [hk] at hkind
      cases hkind

theorem yields_defaults {cs : List Node}
    (h : ∀ c ∈ cs, AllCount c ∧ (c.label.kind.hasDefault = true ∨ c.held = 0)) :
    Yields (all ((cs.map ofNode).flatMap defaultsOf)) (cs.map Node.held).sum := by
  induction cs with
  | nil => exact Yields.of_none rfl
  | cons c cs ih =>
    obtain ⟨⟨hc, hdefault⟩, hcs⟩ := List.forall_mem_cons.mp h
    rw [List.map_cons, List.flatMap_cons, List.map_cons, List.sum_cons, defaultsOf_ofNode]
    by_cases hkind : c.label.kind.hasDefault = true
    · obtain ⟨hheld, hexpr⟩ := held_of_hasDefault hc.placed hkind
      rw [if_pos hkind, hheld, Node.heldAt]
      cases hvalue : c.child? .value with
      | none => simpa using ih hcs
      | some v =>
        have hv := hc.children v (Node.mem_children_of_child? hvalue)
        exact (hv.counts.value (hexpr v hvalue)).append (ih hcs)
    · rw [if_neg hkind, hdefault.resolve_left hkind, zero_add]
      exact ih hcs

theorem yields_defaultValues {list : Option Node}
    (h : ∀ c, list = some c → AllCount c ∧ c.isParameterList = true) :
    Yields (Declaration.ofList (list.map ofNode)).defaultValues
      ((list.map Node.held).getD 0) := by
  cases list with
  | none => exact Yields.of_none rfl
  | some c =>
    obtain ⟨hc, hlist⟩ := h c rfl
    have hparts := hlist
    rw [Node.isParameterList, Bool.and_eq_true, beq_iff_eq] at hparts
    obtain ⟨hother, hfield⟩ := hparts
    have hkeeps : c.keepsAll = true := by
      rw [Node.keepsAll]
      cases hk : c.label.kind <;> rw [hk] at hother <;> first | cases hother; done | simp [hfield]
    have hheld := hc.placed.held_eq_named (by rintro hk; rw [hk] at hother; cases hother) hkeeps
    rw [Option.map_some, Option.map_some, Option.getD_some, hheld, Declaration.defaultValues]
    show Yields (all ((((ofNode c).place.named.map parameter).foldl Declaration.add {}).defaults)) _
    rw [defaults_foldl, named_ofNode]
    apply yields_defaults
    intro a ha
    exact ⟨hc.children a (Node.mem_children_of_mem_named ha), hc.placed.parameters hlist a ha⟩

/-! ## Lambdas -/

theorem yields_lambda (h : n.Placed n.label.kind) (hbelow : ∀ c ∈ n.children, AllCount c)
    (hkind : n.label.kind = .lambda) : Yields (lambda (ofNode n).place) n.held := by
  have hlist : n.isParameterList = false := by rw [Node.isParameterList, hkind]; rfl
  have hfit := h.fit hlist
  rw [hkind] at hfit
  obtain ⟨hparameters, hbody⟩ := (Bool.and_eq_true _ _).mp hfit
  have hkeeps : n.keepsAll = true := by rw [Node.keepsAll, hkind]
  have hheld : n.held = {n} + (n.heldAt .parameters + n.heldAt .body) := by
    rw [Node.held_eq, if_pos hkind,
      h.sum_held_at (by rw [hkind]; rfl) (by decide) (by simp [hkind])
        fun _ _ c _ => Node.leavesOut_of_keepsAll hkeeps c.label]
    simp
  have hdefaults : Yields (Declaration.ofList ((n.child? .parameters).map ofNode)).defaultValues
      (n.heldAt .parameters) := yields_defaultValues fun c hc =>
    ⟨hbelow c (Node.mem_children_of_child? hc), (Option.all_eq_true _ _).mp hparameters c hc⟩
  have hcode : Yields (need ((ofNode n).place.field? .body) (.lacks "lambda" .body) fun body =>
      lambdaUnit (ofNode n).place.line
        (Declaration.ofList ((ofNode n).place.field? .parameters)).names body ++
        .counted .makeFunction
          (Declaration.ofList ((ofNode n).place.field? .parameters)).defaults.length)
      ({n} + n.heldAt .body) := by
    rw [field?_ofNode n .body]
    apply Yields.need_node
    intro body hchild
    have hmem := Node.mem_children_of_child? hchild
    have hvalue := (hbelow body hmem).counts.value ((Option.all_eq_true _ _).mp hbody body hchild)
    apply Yields.append_none _ rfl
    intro hwhole
    have hline : (ofNode n).place.line = n.label.line := line_ofNode n
    rw [lambdaUnit, lambdas_unit, if_pos rfl, (hvalue.append_none rfl) hwhole,
      Node.heldAt_of_child? hchild, Multiset.map_add, Multiset.map_singleton, lambdaPart,
      field?_ofNode n .body, hchild, hline]
    rfl
  rw [← field?_ofNode] at hdefaults
  rw [hheld, lambda, add_left_comm]
  exact hdefaults.append hcode

/-! ## Values -/

/-- Nothing is found below leaves. -/
theorem held_of_leaf (h : n.Placed n.label.kind) (hfields : n.label.kind.fields? = some []) :
    n.held = 0 := by
  have hlambda : n.label.kind ≠ .lambda := by
    intro hk
    rw [hk] at hfields
    cases hfields
  rw [Node.held_eq, if_neg hlambda, zero_add, h.sum_held_kept hfields List.nodup_nil]
  rfl

/-- Nothing is asked for below strings. -/
theorem held_of_string (h : n.label.kind = .string ∨ n.label.kind = .concatenatedString) :
    n.held = 0 := by
  have hkept : n.kept = [] := by
    rw [Node.kept, List.filter_eq_nil_iff]
    intro c _
    rcases h with hk | hk <;> simp [Node.leavesOut, hk]
  have hlambda : n.label.kind ≠ .lambda := by rcases h with hk | hk <;> simp [hk]
  rw [Node.held_eq, if_neg hlambda, hkept]
  rfl

/-- The children of a node whose kind asks for expressions only. -/
theorem isExpression_of_fit (h : n.Placed n.label.kind) (hother : n.label.kind.isOther = false)
    (hfit : n.childrenFit n.label.kind = n.operandsFit) :
    ∀ c ∈ n.children, c.isExpression = true := by
  have hchildren := h.fit (by rw [Node.isParameterList, hother]; rfl)
  rw [hfit] at hchildren
  exact List.all_eq_true.mp hchildren

theorem yields_attribute (h : n.Placed n.label.kind) (hbelow : ∀ c ∈ n.children, AllCount c)
    (hkind : n.label.kind = .attributeAccess) (op : Opcode.Named) :
    Yields (attributeOf op (ofNode n).place) n.held := by
  have hexpr := isExpression_of_fit h (by rw [hkind]; rfl) (by rw [hkind]; rfl)
  have hheld := h.held_eq_fields (by rw [hkind]; rfl) (by decide) (by simp [hkind])
    (by rw [Node.keepsAll, hkind]) (by simp [hkind])
  simpa [hheld] using yields_attributeOf hbelow hexpr op

section Values

variable (h : n.Placed n.label.kind) (hbelow : ∀ c ∈ n.children, AllCount c)
  (hn : n.isExpression = true)

include h hbelow hn

theorem yields_call (hkind : n.label.kind = .call) : Yields (call (ofNode n).place) n.held := by
  have hexpr := isExpression_of_placed h hn (by simp [hkind]) (by simp [hkind]) (by simp [hkind])
  have hfit := h.fit (isParameterList_of_isFree (isFree_of_isExpression hn))
  rw [hkind] at hfit
  obtain ⟨-, harguments⟩ := (Bool.and_eq_true _ _).mp hfit
  have hheld := h.held_eq_fields (by rw [hkind]; rfl) (by decide) (by simp [hkind])
    (by rw [Node.keepsAll, hkind]) (by simp [hkind])
  have hwith : Yields (callWith ((n.child? .arguments).map ofNode)) (n.heldAt .arguments) := by
    apply yields_callWith
    intro c hc
    have hmem := Node.mem_children_of_child? hc
    refine ⟨hbelow c hmem, hexpr c hmem, ?_⟩
    simpa using (Option.all_eq_true _ _).mp harguments c hc
  rw [hheld, call, field?_ofNode, field?_ofNode]
  apply Yields.need_node
  intro function hfunction
  simpa using (yields_valueAt hbelow hexpr hfunction).append hwith

theorem yields_keywordArgument (hkind : n.label.kind = .keywordArgument) :
    Yields (optional ((ofNode n).place.field? .value) (·.roles.value)) n.held := by
  have hexpr := isExpression_of_placed h hn (by simp [hkind]) (by simp [hkind]) (by simp [hkind])
  have hheld : n.held = n.heldAt .value := by
    have hfields := h.held_eq_fields (by rw [hkind]; rfl) (by decide) (by simp [hkind])
      (by rw [Node.keepsAll, hkind]) (by simp [hkind])
    simpa using hfields
  rw [hheld, field?_ofNode]
  apply Yields.optional_node
  intro c hc
  have hmem := Node.mem_children_of_child? hc
  exact (hbelow c hmem).counts.value (hexpr c hmem)

theorem yields_dictionary (hkind : n.label.kind = .dictionary) :
    Yields (dictionary (ofNode n).place) n.held := by
  have hexpr := isExpression_of_placed h hn (by simp [hkind]) (by simp [hkind]) (by simp [hkind])
  rw [h.held_eq_named (by simp [hkind]) (by rw [Node.keepsAll, hkind]), dictionary]
  apply Yields.none_append rfl
  rw [named_ofNode]
  apply Yields.all_nodes
  intro c hc
  have hmem := Node.mem_children_of_mem_named hc
  exact yields_dictionaryEntry (hbelow c hmem) (hexpr c hmem)

theorem yields_value : Yields (value (ofNode n).place) n.held := by
  have hkind : (ofNode n).place.kind = n.label.kind := kind_ofNode n
  by_cases hstring : n.label.kind = .string ∨ n.label.kind = .concatenatedString
  · rw [held_of_string hstring, value, hkind]
    rcases hstring with hk | hk <;> rw [hk] <;> exact Yields.of_none rfl
  by_cases hlambda : n.label.kind = .lambda
  · rw [value, hkind, hlambda]
    exact yields_lambda h hbelow hlambda
  rw [not_or] at hstring
  have hexpr := isExpression_of_placed h hn hstring.1 hstring.2 hlambda
  have hheld := h.held_eq_named hlambda (keepsAll_of_isExpression hn hstring.1 hstring.2)
  have hoperands : Yields (ofNode n).place.operands n.held :=
    hheld ▸ yields_operands hbelow hexpr
  have hleaf : ∀ {d : Draft}, n.label.kind.fields? = some [] → d.lambdas = 0 → Yields d n.held :=
    fun hfields hnone => held_of_leaf h hfields ▸ Yields.of_none hnone
  have hfit := h.fit (isParameterList_of_isFree (isFree_of_isExpression hn))
  rw [value, hkind]
  cases hk : n.label.kind <;>
    first
      | exact hleaf (by rw [hk]; rfl) rfl
      | exact hoperands
      | exact hoperands.append_none rfl
      | exact absurd hk hlambda
      | exact absurd hk hstring.1
      | exact absurd hk hstring.2
      | exact yields_call h hbelow hn hk
      | exact yields_dictionary h hbelow hn hk
      | exact yields_keywordArgument h hbelow hn hk
      | exact hheld ▸ yields_comparison hbelow hexpr
      | exact hheld ▸ yields_conditional hbelow hexpr
      | skip
  · exact yields_attribute h hbelow hk _
  · have hboth := h.held_eq_fields (by rw [hk]; rfl) (by decide) hlambda
      (by rw [Node.keepsAll, hk]) (by simp [hk])
    simpa [hboth] using yields_booleanOperator hbelow hexpr
  · rw [hk] at hfit
    obtain ⟨-, hfirst⟩ := (Bool.and_eq_true _ _).mp hfit
    rw [hheld]
    exact (yields_firstValue hbelow hexpr hfirst).append_none rfl

end Values

/-! ## Targets -/

theorem yields_pattern (h : n.Placed n.label.kind) (hbelow : ∀ c ∈ n.children, AllCount c)
    (hn : ∀ c ∈ n.children, c.assignable = true) (hpattern : n.label.kind.isPattern = true) :
    Yields (target (ofNode n).place) n.held := by
  have hkind : (ofNode n).place.kind = n.label.kind := kind_ofNode n
  have hlambda : n.label.kind ≠ .lambda := by
    intro hk
    rw [hk] at hpattern
    cases hpattern
  have hkeeps : n.keepsAll = true := by
    rw [Node.keepsAll]
    cases hk : n.label.kind <;> rw [hk] at hpattern <;> first | rfl | cases hpattern
  have htargets : ∀ c ∈ n.named, Yields (ofNode c).roles.target c.held := by
    intro c hc
    have hmem := Node.mem_children_of_mem_named hc
    exact (hbelow c hmem).counts.target (hn c hmem)
  have hall : Yields (all (((ofNode n).place.named).map (·.roles.target))) n.held := by
    rw [named_ofNode, h.held_eq_named hlambda hkeeps]
    exact Yields.all_nodes htargets
  have hfirst : n.isPlainAfter 1 = true →
      Yields (optional (ofNode n).place.named.head? (·.roles.target)) n.held := by
    intro hplain
    rw [named_ofNode, h.held_eq_named hlambda hkeeps]
    cases hparts : n.named with
    | nil => exact Yields.of_none rfl
    | cons first rest =>
      rw [← hparts, Node.sum_held_of_isPlainAfter hplain hparts, hparts]
      exact htargets first (by simp [hparts])
  have hlist : n.isParameterList = false := by
    rw [Node.isParameterList]
    cases hk : n.label.kind <;> rw [hk] at hpattern <;> first | rfl | cases hpattern
  have hfit := h.fit hlist
  rw [target, hkind]
  cases hk : n.label.kind <;> rw [hk] at hpattern hfit <;>
    first
      | cases hpattern; done
      | exact Yields.none_append rfl hall
      | exact hfirst ((Bool.and_eq_true _ _).mp hfit).2

theorem yields_target (h : n.Placed n.label.kind) (hbelow : ∀ c ∈ n.children, AllCount c)
    (hn : n.assignable = true) : Yields (target (ofNode n).place) n.held := by
  have hkind : (ofNode n).place.kind = n.label.kind := kind_ofNode n
  rw [Node.assignable_iff] at hn
  split at hn
  · rename_i hpattern
    exact yields_pattern h hbelow hn hpattern
  · rename_i hpattern
    rcases hn with hk | hk | hnone
    · rw [target, hkind, hk]
      exact yields_attribute h hbelow hk .storeAttribute
    · have hexpr := isExpression_of_fit h (by rw [hk]; rfl) (by rw [hk]; rfl)
      rw [target, hkind, hk, h.held_eq_named (by simp [hk]) (by rw [Node.keepsAll, hk])]
      exact (yields_operands hbelow hexpr).append_none rfl
    · rw [hnone, target, hkind]
      cases hk : n.label.kind <;> rw [hk] at hpattern <;>
        first
          | exact Yields.of_none rfl
          | exact absurd rfl hpattern
          | exact hnone ▸ yields_attribute h hbelow hk .storeAttribute
          | skip
      have hexpr := isExpression_of_fit h (by rw [hk]; rfl) (by rw [hk]; rfl)
      rw [← hnone, h.held_eq_named (by simp [hk]) (by rw [Node.keepsAll, hk])]
      exact (yields_operands hbelow hexpr).append_none rfl



end Expressions

end UnitAtlas.Reading
