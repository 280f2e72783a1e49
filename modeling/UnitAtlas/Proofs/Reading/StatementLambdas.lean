-- Simple statements make the lambdas below them, each once. An assignment makes those of its value
-- first, then those of its targets; without a value nothing of it is made.
import UnitAtlas.Proofs.Reading.CompoundSuites
import UnitAtlas.Proofs.Reading.DefinitionLambdas

namespace UnitAtlas.Reading

open Syntax Draft

section Statements

variable {n : Node}

/-! ## Assignments -/

/-- Storing into targets one by one makes what the targets make. -/
theorem lambdas_storeAll (targets : List Draft) :
    ((storeAll targets).Whole → (all targets).Whole) ∧
      (storeAll targets).lambdas = (all targets).lambdas := by
  induction targets using storeAll.induct with
  | case1 => exact ⟨id, rfl⟩
  | case2 last => exact ⟨fun hwhole => ⟨hwhole, trivial⟩, (add_zero _).symm⟩
  | case3 next rest hrest ih =>
    have hstore : storeAll (next :: rest) = .plain .dupTop ++ next ++ storeAll rest := by
      cases rest with
      | nil => exact absurd rfl hrest
      | cons _ _ => rfl
    rw [hstore]
    refine ⟨fun hwhole => ⟨hwhole.1.2, ih.1 hwhole.2⟩, ?_⟩
    show 0 + next.lambdas + (storeAll rest).lambdas = next.lambdas + (all rest).lambdas
    rw [zero_add, ih.2]

/-- What is below an assignment is below its two sides. The left one is left out when there is no
value to store into it. -/
theorem held_of_assignment (h : n.Placed n.label.kind) (hkind : n.label.kind = .assignment) :
    n.held = (if n.givesValue = true then n.heldAt .left else 0) + n.heldAt .right := by
  have hfit := h.fit (by rw [Node.isParameterList, hkind]; rfl)
  rw [hkind] at hfit
  obtain ⟨hleft, hright⟩ := (Bool.and_eq_true _ _).mp hfit
  rw [Option.all_eq_true] at hleft hright
  have hout : ∀ l : Label, n.leavesOut l =
      (l.kind.isAnnotation || (l.field == some .left && !n.givesValue)) := by
    intro l
    rw [Node.leavesOut, hkind]
  have hfields : n.label.kind.fields? = some [.left, .right] := by rw [hkind]; rfl
  have honce : ∀ f ∈ [Field.left, Field.right], n.holdsOnce f = true := fun f hf =>
    h.holdsOnce hfields hf (Or.inl (by simp [hkind]))
  rw [Node.held_eq, if_neg (by simp [hkind]), zero_add, h.sum_held_kept hfields (by decide),
    List.map_cons, List.map_singleton, List.sum_cons, List.sum_singleton]
  congr 1
  · split
    · rename_i hvalue
      apply Node.sum_held_of_holdsOnce (honce _ (by simp))
      intro c hc
      have hrun := ((Bool.and_eq_true _ _).mp (hleft c hc)).2
      rw [Node.isRun, Bool.not_eq_true'] at hrun
      rw [hout, hrun, hvalue]
      simp
    · rename_i hvalue
      apply Node.sum_held_eq_zero
      intro c hc
      obtain ⟨hmem, hfield⟩ := List.mem_filter.mp hc
      have hnot := (List.mem_filter.mp hmem).2
      rw [hout, hfield, Bool.eq_false_of_not_eq_true hvalue] at hnot
      simp at hnot
  · apply Node.sum_held_of_holdsOnce (honce _ (by simp))
    intro c hc
    have hrun : c.label.kind.isAnnotation = false := by
      have hboth := hright c hc
      rw [Bool.or_eq_true, beq_iff_eq, Bool.and_eq_true, Node.isRun, Bool.not_eq_true'] at hboth
      rcases hboth with hassign | ⟨-, hrun⟩
      · rw [hassign]
        rfl
      · exact hrun
    rw [hout, hrun, Node.field_of_child? hc]
    rfl

section Chains

variable (h : n.Placed n.label.kind) (hbelow : ∀ c ∈ n.children, AllCount c)
  (hkind : n.label.kind = .assignment)

include h hbelow hkind

theorem yields_leftTarget {left : Node} (hl : n.child? .left = some left) :
    Yields (ofNode left).roles.target left.held := by
  have hfit := h.fit (by rw [Node.isParameterList, hkind]; rfl)
  rw [hkind] at hfit
  have hleft := (Option.all_eq_true _ _).mp ((Bool.and_eq_true _ _).mp hfit).1 left hl
  exact (hbelow left (Node.mem_children_of_child? hl)).counts.target
    ((Bool.and_eq_true _ _).mp hleft).1

/-- The last link of a chain: a value stands on the right. -/
theorem yields_lastLink {left right : Node} (hl : n.child? .left = some left)
    (hr : n.child? .right = some right) (hassign : right.label.kind ≠ .assignment) :
    n.givesValue = true ∧
      Yields ((ofNode right).roles.value ++ all [(ofNode left).roles.target]) n.held := by
  have hfit := h.fit (by rw [Node.isParameterList, hkind]; rfl)
  rw [hkind] at hfit
  have hright := (Option.all_eq_true _ _).mp ((Bool.and_eq_true _ _).mp hfit).2 right hr
  rw [Bool.or_eq_true, beq_iff_eq, Bool.and_eq_true] at hright
  have hvalue : n.givesValue = true := by rw [Node.givesValue_eq n, hr]; simp [hassign]
  have hcounts := (hbelow right (Node.mem_children_of_child? hr)).counts
  refine ⟨hvalue, ?_⟩
  rw [held_of_assignment h hkind, if_pos hvalue, Node.heldAt_of_child? hl,
    Node.heldAt_of_child? hr, add_comm]
  exact (hcounts.value (hright.resolve_left hassign).1).append
    ((yields_leftTarget h hbelow hkind hl).append_none rfl)

/-- Another link: the chain goes on with the assignment on the right. -/
theorem yields_nextLink {left right : Node} (hl : n.child? .left = some left)
    (hr : n.child? .right = some right) (hassign : right.label.kind = .assignment)
    {rest : AssignmentChain} (hrest : (ofNode right).roles.assignment = .ok rest) :
    match rest.value with
    | some value => n.givesValue = true ∧
        Yields (value ++ all ((ofNode left).roles.target :: rest.targets)) n.held
    | none => n.givesValue = false ∧ n.held = 0 := by
  have htarget := yields_leftTarget h hbelow hkind hl
  have hheld := held_of_assignment h hkind
  rw [Node.heldAt_of_child? hl, Node.heldAt_of_child? hr] at hheld
  have hgives := Node.givesValue_eq n
  simp only [hr, Option.any_some, hassign, bne_self_eq_false, Bool.false_or] at hgives
  have hcounts :=
    (hbelow right (Node.mem_children_of_child? hr)).counts.chain hassign rest hrest
  cases hvalue : rest.value with
  | none =>
    simp only [hvalue] at hcounts ⊢
    rw [hgives, hcounts.1] at hheld ⊢
    exact ⟨rfl, by rw [hheld, hcounts.2]; rfl⟩
  | some value =>
    simp only [hvalue] at hcounts ⊢
    refine ⟨hgives.trans hcounts.1, ?_⟩
    rw [hheld, if_pos (hgives.trans hcounts.1)]
    rintro ⟨hvalue, hleft, hrest⟩
    show value.lambdas + ((ofNode left).roles.target.lambdas +
      (all rest.targets).lambdas) = _
    rw [add_left_comm, htarget hleft, Multiset.map_add]
    congr 1
    exact hcounts.2 ⟨hvalue, hrest⟩

/-- The chain of an assignment makes what is below it, if there is a value. -/
theorem yields_chain {chain : AssignmentChain}
    (hchain : (ofNode n).roles.assignment = .ok chain) :
    match chain.value with
    | some value => n.givesValue = true ∧ Yields (value ++ all chain.targets) n.held
    | none => n.givesValue = false ∧ n.held = 0 := by
  rw [roles_ofNode] at hchain
  simp only [rolesOf, assignmentChain, field?_ofNode] at hchain
  cases hl : n.child? .left with
  | none =>
    rw [hl] at hchain
    cases hchain
  | some left =>
    cases hr : n.child? .right with
    | none =>
      have hgives := Node.givesValue_eq n
      rw [hr] at hgives
      rw [hl, hr] at hchain
      cases hchain
      refine ⟨hgives, ?_⟩
      rw [held_of_assignment h hkind, hgives, Node.heldAt, Node.heldAt, hr]
      rfl
    | some right =>
      rw [hl, hr] at hchain
      simp only [Option.map_some, kind_ofNode] at hchain
      by_cases hassign : right.label.kind = .assignment
      · rw [if_pos hassign] at hchain
        cases hrest : (ofNode right).roles.assignment with
        | error e =>
          rw [hrest] at hchain
          cases hchain
        | ok rest =>
          rw [hrest] at hchain
          cases hchain
          exact yields_nextLink h hbelow hkind hl hr hassign hrest
      · rw [if_neg hassign] at hchain
        cases hchain
        exact yields_lastLink h hbelow hkind hl hr hassign

end Chains

theorem yields_assignment (h : AllCount n) (hkind : n.label.kind = .assignment) :
    Yields (assignment (ofNode n).roles.assignment) n.held := by
  cases hchain : (ofNode n).roles.assignment with
  | error e => exact fun hwhole => hwhole.elim
  | ok chain =>
    have hcounts := h.counts.chain hkind chain hchain
    obtain ⟨targets, value⟩ := chain
    cases value with
    | none => exact hcounts.2 ▸ Yields.of_none rfl
    | some value =>
      have hstore := lambdas_storeAll targets
      rintro ⟨hvalue, htargets⟩
      show value.lambdas + (storeAll targets).lambdas = _
      rw [hstore.2]
      exact hcounts.2 ⟨hvalue, hstore.1 htargets⟩

/-- The target of an augmented assignment is read and stored into, so no lambdas stand in it. -/
theorem yields_augmentedAssignment (h : AllCount n) (hkind : n.label.kind = .augmentedAssignment) :
    Yields (augmentedAssignment (ofNode n).place) n.held := by
  have hfit := h.placed.fit (by rw [Node.isParameterList, hkind]; rfl)
  rw [hkind] at hfit
  obtain ⟨hleft, hright⟩ := (Bool.and_eq_true _ _).mp hfit
  have hheld := h.placed.held_eq_fields (by rw [hkind]; rfl) (by decide) (by simp [hkind])
    (by rw [Node.keepsAll, hkind]) (by simp [hkind])
  rw [hheld, augmentedAssignment, field?_ofNode, field?_ofNode]
  apply Yields.need_node
  intro left hl
  apply Yields.need_node
  intro right hr
  have hboth := (Option.all_eq_true _ _).mp hleft left hl
  rw [Bool.and_eq_true, Bool.and_eq_true, ← Node.held_eq_zero] at hboth
  obtain ⟨⟨hexpr, hassignable⟩, hnone⟩ := hboth
  have hcounts := (h.children left (Node.mem_children_of_child? hl)).counts
  have hvalue := (h.children right (Node.mem_children_of_child? hr)).counts.value
    ((Option.all_eq_true _ _).mp hright right hr)
  have hread := (hcounts.value hexpr).append hvalue
  have hsum : ([Field.left, .right].map n.heldAt).sum = left.held + right.held + left.held := by
    simp [Node.heldAt_of_child? hl, Node.heldAt_of_child? hr, hnone]
  rw [hsum]
  exact (hread.append_none rfl).append (hcounts.target hassignable)

/-! ## Expressions as statements -/

theorem yields_expressionPart (h : AllCount n) (hn : n.isExpression = true ∨
      n.label.kind = .assignment ∨ n.label.kind = .augmentedAssignment) :
    Yields (expressionPart (ofNode n)) n.held := by
  rw [expressionPart, kind_ofNode]
  split
  · rename_i hkind
    exact yields_assignment h hkind
  · rename_i hkind
    exact yields_augmentedAssignment h hkind
  · rename_i hassign haugmented
    have hexpr := hn.resolve_right fun hkind => hkind.elim hassign haugmented
    exact (h.counts.value hexpr).append_none rfl

section Simple

variable (h : n.Placed n.label.kind) (hbelow : ∀ c ∈ n.children, AllCount c)

include h hbelow

theorem yields_expressionStatement (hkind : n.label.kind = .expressionStatement) :
    Yields (expressionStatement (ofNode n).place) n.held := by
  have hfit := h.fit (by rw [Node.isParameterList, hkind]; rfl)
  rw [hkind] at hfit
  rw [h.held_eq_named (by simp [hkind]) (by rw [Node.keepsAll, hkind]), expressionStatement,
    named_ofNode]
  apply Yields.all_nodes
  intro c hc
  have hpart := List.all_eq_true.mp hfit c hc
  rw [Bool.or_eq_true, Bool.or_eq_true, beq_iff_eq, beq_iff_eq, or_assoc] at hpart
  exact yields_expressionPart (hbelow c (Node.mem_children_of_mem_named hc)) hpart

theorem yields_assertStatement (hkind : n.label.kind = .assertStatement) :
    Yields (assertStatement (ofNode n).place) n.held := by
  have hfit := h.fit (by rw [Node.isParameterList, hkind]; rfl)
  rw [hkind] at hfit
  obtain ⟨hexpr, hplain⟩ := (Bool.and_eq_true _ _).mp hfit
  rw [Node.operandsFit, List.all_eq_true] at hexpr
  have hvalue : ∀ c ∈ n.named, Yields (ofNode c).roles.value c.held := by
    intro c hc
    have hmem := Node.mem_children_of_mem_named hc
    exact (hbelow c hmem).counts.value (hexpr c hmem)
  rw [h.held_eq_named (by simp [hkind]) (by rw [Node.keepsAll, hkind]), assertStatement,
    named_ofNode]
  rw [Node.isPlainAfter, List.all_eq_true] at hplain
  rcases hparts : n.named with _ | ⟨condition, rest⟩
  · exact Yields.of_none rfl
  rw [hparts] at hvalue hplain
  have hmessage : Yields (optional (rest.map ofNode).head? fun message =>
      message.roles.value ++ .counted .callFunction 1) (rest.map Node.held).sum := by
    rcases rest with _ | ⟨message, rest⟩
    · exact Yields.of_none rfl
    have hnone : (rest.map Node.held).sum = 0 :=
      Node.sum_held_eq_zero fun c hc => Node.held_eq_zero.mpr (hplain c hc)
    rw [List.map_cons, List.map_cons, List.sum_cons, hnone, add_zero]
    exact (hvalue message (by simp)).append_none rfl
  rw [List.map_cons, List.map_cons, List.sum_cons]
  apply (hvalue condition (by simp)).append
  exact Yields.block ((Yields.none_append rfl hmessage).append_none rfl)

end Simple

/-! ## Deletions -/

theorem yields_deletion (h : AllCount n) (hn : n.isExpression = true) :
    Yields (deletion (ofNode n)) n.held := by
  rw [deletion, kind_ofNode]
  split
  · rename_i hkind
    exact held_of_leaf h.placed (by rw [hkind]; rfl) ▸ Yields.of_none rfl
  · rename_i hkind
    exact yields_attribute h.placed h.children hkind _
  · rename_i hkind
    have hexpr := isExpression_of_fit h.placed (by rw [hkind]; rfl) (by rw [hkind]; rfl)
    rw [h.placed.held_eq_named (by simp [hkind]) (by rw [Node.keepsAll, hkind])]
    exact (yields_operands h.children hexpr).append_none rfl
  · exact (h.counts.value hn).append_none rfl

theorem yields_deleteStatement (h : n.Placed n.label.kind) (hbelow : ∀ c ∈ n.children, AllCount c)
    (hkind : n.label.kind = .deleteStatement) :
    Yields (deleteStatement (ofNode n).place) n.held := by
  have hexpr := isExpression_of_fit h (by rw [hkind]; rfl) (by rw [hkind]; rfl)
  have hparts : ∀ {m : Node}, (∀ c ∈ m.children, AllCount c) →
      (∀ c ∈ m.children, c.isExpression = true) →
      Yields (all ((m.named.map ofNode).map deletion)) (m.named.map Node.held).sum := by
    intro m hm hexpr
    apply Yields.all_nodes
    intro c hc
    have hmem := Node.mem_children_of_mem_named hc
    exact yields_deletion (hm c hmem) (hexpr c hmem)
  rw [h.held_eq_named (by simp [hkind]) (by rw [Node.keepsAll, hkind]), deleteStatement,
    deletedParts, named_ofNode]
  split
  · rename_i r hr
    obtain ⟨c, hc, rfl⟩ := List.map_eq_singleton_iff.mp hr
    rw [kind_ofNode]
    split
    · -- The only part is a list, and its entries are deleted.
      rename_i hlist
      have hmem : c ∈ n.children := Node.mem_children_of_mem_named (by simp [hc])
      have hplaced := (hbelow c hmem).placed
      have hentries := isExpression_of_fit hplaced (by rw [hlist]; rfl) (by rw [hlist]; rfl)
      rw [hc, List.map_singleton, List.sum_singleton, named_ofNode,
        hplaced.held_eq_named (by simp [hlist]) (by rw [Node.keepsAll, hlist])]
      exact hparts (hbelow c hmem).children hentries
    · rw [← hr]
      exact hparts hbelow hexpr
  · exact hparts hbelow hexpr

/-! ## Imports -/

theorem lambdas_all_map {α : Type} {xs : List α} {use : α → Draft}
    (h : ∀ x ∈ xs, (use x).lambdas = 0) : (all (xs.map use)).lambdas = 0 := by
  induction xs with
  | nil => rfl
  | cons x xs ih =>
    obtain ⟨hx, hxs⟩ := List.forall_mem_cons.mp h
    show (use x).lambdas + (all (xs.map use)).lambdas = 0
    rw [hx, ih hxs, add_zero]

theorem lambdas_importItem (r : Reading) : (importItem r).lambdas = 0 := by
  unfold importItem
  split
  · apply lambdas_withText
    intro module
    apply lambdas_withText
    intro name
    have hpath : (all ((dottedParts module).tail.map (.named .loadAttribute ·))).lambdas = 0 :=
      lambdas_all_map fun _ _ => rfl
    show 0 + 0 + (0 + (all _).lambdas + 0) = 0
    rw [hpath]
    rfl
  · rfl

theorem lambdas_importedName (r : Reading) : (importedName r).lambdas = 0 := by
  unfold importedName
  split
  · apply lambdas_withText
    intro wanted
    exact lambdas_withText _ _ fun name => rfl
  · rfl

theorem lambdas_importFrom (module : String) (p : Place Reading) :
    (importFrom module p).lambdas = 0 := by
  have hnames : (all ((p.fields .name).map importedName)).lambdas = 0 :=
    lambdas_all_map fun r _ => lambdas_importedName r
  unfold importFrom
  split
  · rfl
  · show 0 + (0 + 0 + (all _).lambdas + 0) = 0
    rw [hnames]
    rfl

/-! ## All simple statements -/

/-- The operands of a node of a kind that has nothing else. -/
theorem yields_operandsOf (h : n.Placed n.label.kind) (hbelow : ∀ c ∈ n.children, AllCount c)
    {k : Kind} (hkind : n.label.kind = k) (hother : k.isOther = false)
    (hfit : n.childrenFit k = n.operandsFit) (hnot : (n.keepsAll && k != .lambda) = true) :
    Yields (ofNode n).place.operands n.held := by
  subst hkind
  rw [Bool.and_eq_true, bne_iff_ne] at hnot
  rw [h.held_eq_named hnot.2 hnot.1]
  exact yields_operands hbelow (isExpression_of_fit h hother hfit)

theorem yields_simple (h : n.Placed n.label.kind) (hbelow : ∀ c ∈ n.children, AllCount c)
    (hsimple : isSimple n.label.kind = true) : Yields (statementBody (ofNode n).place) n.held := by
  have hkind : (ofNode n).place.kind = n.label.kind := kind_ofNode n
  have hlist : n.isParameterList = false := by
    rw [Node.isParameterList]
    cases hk : n.label.kind <;> rw [hk] at hsimple <;> first | rfl | cases hsimple
  have hfit := h.fit hlist
  have hleaf : ∀ {d : Draft}, n.label.kind.fields? = some [] → d.lambdas = 0 → Yields d n.held :=
    fun hfields hnone => held_of_leaf h hfields ▸ Yields.of_none hnone
  have himports : (importStatement (ofNode n).place).lambdas = 0 :=
    lambdas_all_map fun r _ => lambdas_importItem r
  have hnames : (all ((ofNode n).place.named.map fun r => Draft.declareGlobal r.text)).lambdas = 0 :=
    lambdas_all_map fun _ _ => rfl
  rw [statementBody, hkind]
  cases hk : n.label.kind <;> rw [hk] at hsimple hfit <;>
    first
      | cases hsimple; done
      | exact hleaf (by rw [hk]; rfl) rfl
      | exact hleaf (by rw [hk]; rfl) himports
      | exact hleaf (by rw [hk]; rfl) hnames
      | exact hleaf (by rw [hk]; rfl) (lambdas_importFrom _ _)
      | exact hleaf (by rw [hk]; rfl) (lambdas_withText _ _ fun module => lambdas_importFrom module _)
      | exact yields_expressionStatement h hbelow hk
      | exact yields_assertStatement h hbelow hk
      | exact yields_deleteStatement h hbelow hk
      | skip
  · obtain ⟨hexpr, hfirst⟩ := (Bool.and_eq_true _ _).mp hfit
    rw [h.held_eq_named (by simp [hk]) (by rw [Node.keepsAll, hk])]
    exact (yields_firstValue hbelow (List.all_eq_true.mp hexpr) hfirst).append_none rfl
  · exact (yields_operandsOf h hbelow hk rfl rfl (by rw [Node.keepsAll, hk]; rfl)).append_none rfl
  · rw [h.held_eq_named (by simp [hk]) (by rw [Node.keepsAll, hk]), printStatement, named_ofNode]
    refine Yields.append_none (Yields.all_nodes ?_) rfl
    intro c hc
    have hmem := Node.mem_children_of_mem_named hc
    exact ((hbelow c hmem).counts.value (List.all_eq_true.mp hfit c hmem)).append_none rfl
  · exact (yields_operandsOf h hbelow hk rfl rfl (by rw [Node.keepsAll, hk]; rfl)).append_none rfl

end Statements

end UnitAtlas.Reading
