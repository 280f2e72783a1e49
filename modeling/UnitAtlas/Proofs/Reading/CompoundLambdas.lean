-- Compound statements make the lambdas of their conditions, items and suites, each once, and so
-- does every node of a tree whose lambdas stand where they should.
import UnitAtlas.Proofs.Reading.StatementLambdas

namespace UnitAtlas.Reading

open Syntax Draft

section Compound

variable {n : Node}

/-! ## Suites and clauses -/

theorem yields_blockOf {part : Option Node}
    (h : ∀ b, part = some b → AllCount b ∧ b.label.kind = .block) :
    Yields (blockOf (part.map ofNode)) ((part.map Node.held).getD 0) := by
  apply Yields.optional_node
  intro b hb
  obtain ⟨hcount, hblock⟩ := h b hb
  exact (hcount.isSuite hblock).yields_block

/-- The one suite of a clause. -/
theorem suite_of_clause (h : AllCount n) {f : Field} (hf : f.isSuite = true)
    (htakes : ∀ suites, n.label.kind.takes suites = (suites == [(.block, some f)])) :
    ∃ b, n.child? f = some b ∧ AllCount b ∧ b.label.kind = .block := by
  have hfit := Node.suitesFit_of_fits h.fits
  have hparts := hfit.takes
  rw [htakes, beq_iff_eq] at hparts
  obtain ⟨b, hparts, hblock, hfield⟩ := Node.suiteParts_eq_singleton hparts
  have hchild := child?_of_singleton hfit hparts hfield hf
  exact ⟨b, hchild, h.children b (Node.mem_children_of_child? hchild), hblock⟩

theorem yields_elseBody (h : AllCount n) (hkind : n.label.kind = .elseClause) :
    Yields (elseBody (ofNode n)) n.held := by
  obtain ⟨b, hchild, hb, hblock⟩ := suite_of_clause h (f := .body) rfl fun suites => by
    rw [hkind]
    rfl
  have hheld := h.placed.held_eq_fields (by rw [hkind]; rfl) (by decide) (by simp [hkind])
    (by rw [Node.keepsAll, hkind]) (by simp [hkind])
  rw [hheld, List.map_singleton, List.sum_singleton, Node.heldAt_of_child? hchild, elseBody,
    field?_ofNode, hchild]
  exact (hb.isSuite hblock).yields_block

/-- A clause that may be missing. -/
theorem yields_otherwise {part : Option Node}
    (h : ∀ c, part = some c → AllCount c ∧ c.label.kind = .elseClause) :
    Yields (optional (part.map ofNode) elseBody) ((part.map Node.held).getD 0) := by
  apply Yields.optional_node
  intro c hc
  obtain ⟨hcount, hkind⟩ := h c hc
  exact yields_elseBody hcount hkind

/-! ## Branches -/

theorem lambdas_end (more : Bool) (depth : Nat) :
    (if more then .jump .forward depth else .skip : Draft).lambdas = 0 := by
  split <;> rfl

theorem yields_branch {body : Draft} {ns : Multiset Node} (h : Yields body ns) (more : Bool) :
    Yields (branch body more) ns :=
  Yields.block ((Yields.none_append rfl h).append_none (lambdas_end more 1))

theorem yields_elif (h : AllCount n) (hkind : n.label.kind = .elifClause) (more : Bool)
    {rest : Draft} {ns : Multiset Node} (hrest : Yields rest ns) :
    Yields (need ((ofNode n).place.field? .condition) (.lacks "elif" .condition) fun condition =>
      condition.roles.value
        ++ branch (blockOf ((ofNode n).place.field? .consequence)) more ++ rest)
      (n.held + ns) := by
  have hfit := h.placed.fit (by rw [Node.isParameterList, hkind]; rfl)
  rw [hkind] at hfit
  obtain ⟨b, hchild, hb, hblock⟩ := suite_of_clause h (f := .consequence) rfl fun suites => by
    rw [hkind]
    rfl
  have hheld := h.placed.held_eq_fields (by rw [hkind]; rfl) (by decide) (by simp [hkind])
    (by rw [Node.keepsAll, hkind]) (by simp [hkind])
  rw [List.map_cons, List.map_singleton, List.sum_cons, List.sum_singleton] at hheld
  rw [hheld, field?_ofNode, field?_ofNode, hchild]
  apply Yields.need_node
  intro condition hcondition
  have hvalue := (h.children condition (Node.mem_children_of_child? hcondition)).counts.value
    ((Option.all_eq_true _ _).mp hfit condition hcondition)
  rw [Node.heldAt_of_child? hcondition, Node.heldAt_of_child? hchild]
  exact (hvalue.append (yields_branch (hb.isSuite hblock).yields_block more)).append hrest

theorem yields_alternatives {cs : List Node} (h : ∀ c ∈ cs, AllCount c)
    (hkinds : ∀ c ∈ cs, c.label.kind = .elifClause ∨ c.label.kind = .elseClause) :
    Yields (alternatives (cs.map ofNode)) (cs.map Node.held).sum := by
  induction cs with
  | nil => exact Yields.of_none rfl
  | cons c cs ih =>
    obtain ⟨hc, hcs⟩ := List.forall_mem_cons.mp h
    obtain ⟨hkind, hkinds⟩ := List.forall_mem_cons.mp hkinds
    have hrest := ih hcs hkinds
    rw [List.map_cons, alternatives, List.map_cons, List.sum_cons, kind_ofNode]
    refine Yields.none_append rfl ?_
    rcases hkind with hkind | hkind
    · rw [if_pos hkind]
      exact yields_elif hc hkind _ hrest
    · rw [if_neg (by simp [hkind])]
      refine ((yields_elseBody hc hkind).append_none ?_).append hrest
      split <;> rfl

section Statements

variable (h : n.Placed n.label.kind) (hbelow : ∀ c ∈ n.children, AllCount c)
  (hsuites : n.SuitesFit n.label.kind)

include h hbelow hsuites

theorem yields_ifStatement (hkind : n.label.kind = .ifStatement) :
    Yields (ifStatement (ofNode n).place) n.held := by
  have hfit := h.fit (by rw [Node.isParameterList, hkind]; rfl)
  rw [hkind] at hfit hsuites
  obtain ⟨b, alternates, hparts⟩ := exists_branchParts hsuites
  have hkeeps : n.keepsAll = true := by rw [Node.keepsAll, hkind]
  have hfields : n.label.kind.fields? = some [.condition, .consequence, .alternative] := by
    rw [hkind]
    rfl
  have honce : ∀ f, f = .condition ∨ f = .consequence →
      ((n.kept.filter (·.label.field == some f)).map Node.held).sum = n.heldAt f := by
    intro f hf
    apply Node.sum_held_of_holdsOnce
    · apply h.holdsOnce hfields
      · rcases hf with rfl | rfl <;> simp
      · rcases hf with rfl | rfl <;> exact Or.inr (by decide)
    · exact fun c _ => Node.leavesOut_of_keepsAll hkeeps c.label
  have hheld : n.held = n.heldAt .condition +
      (n.heldAt .consequence + (alternates.map Node.held).sum) := by
    rw [Node.held_eq, if_neg (by simp [hkind]), zero_add, h.sum_held_kept hfields (by decide)]
    simp only [List.map_cons, List.map_nil, List.sum_cons, List.sum_nil, add_zero]
    rw [honce _ (Or.inl rfl), honce _ (Or.inr rfl), Node.kept_of_keepsAll hkeeps, hparts.others]
  have halternates : ∀ c ∈ alternates, AllCount c := by
    intro c hc
    rw [← hparts.others] at hc
    exact hbelow c (List.mem_filter.mp hc).1
  have hb := hbelow b (Node.mem_children_of_child? hparts.body)
  rw [hheld, ifStatement, field?_ofNode, field?_ofNode, fields_ofNode, hparts.others, hparts.body]
  apply Yields.need_node
  intro condition hcondition
  have hvalue := (hbelow condition (Node.mem_children_of_child? hcondition)).counts.value
    ((Option.all_eq_true _ _).mp hfit condition hcondition)
  rw [Node.heldAt_of_child? hcondition, Node.heldAt_of_child? hparts.body]
  exact hvalue.append (Yields.block ((yields_branch (hb.isSuite hparts.block).yields_block _).append
    (yields_alternatives halternates hparts.kinds)))

end Statements

/-! ## Loops -/

theorem yields_repeated {test body : Draft} {ns ms : Multiset Node} (htest : Yields test ns)
    (exit : Opcode.Jump) (hbody : Yields body ms) : Yields (repeated test exit body) (ns + ms) := by
  have hround : Yields (.block (test ++ .jump exit 0 ++ body ++ .again)) (ns + ms) :=
    Yields.block (((htest.append_none rfl).append hbody).append_none rfl)
  exact Yields.loop (hround.append_none rfl)

section Loops

variable (h : n.Placed n.label.kind) (hbelow : ∀ c ∈ n.children, AllCount c)
  (hsuites : n.SuitesFit n.label.kind)

include hbelow hsuites

/-- The body and the `else` of a loop. -/
theorem yields_loopParts (hk : n.label.kind = .whileStatement ∨ n.label.kind = .forStatement) :
    Yields (blockOf ((ofNode n).place.field? .body)) (n.heldAt .body) ∧
      Yields (optional ((ofNode n).place.field? .alternative) elseBody) (n.heldAt .alternative) := by
  obtain ⟨b, others, hparts⟩ := exists_loopParts hsuites hk
  rw [field?_ofNode, field?_ofNode]
  constructor
  · apply yields_blockOf
    intro c hc
    rw [hparts.body] at hc
    cases hc
    exact ⟨hbelow b (Node.mem_children_of_child? hparts.body), hparts.block⟩
  · apply yields_otherwise
    intro c hc
    refine ⟨hbelow c (Node.mem_children_of_child? hc), ?_⟩
    rcases hparts.orElse with ⟨-, hnone⟩ | ⟨e, -, he, hsome⟩
    · rw [hnone] at hc
      cases hc
    · rw [hsome] at hc
      cases hc
      exact he

include h

theorem yields_whileStatement (hkind : n.label.kind = .whileStatement) :
    Yields (whileStatement (ofNode n).place) n.held := by
  have hfit := h.fit (by rw [Node.isParameterList, hkind]; rfl)
  rw [hkind] at hfit
  obtain ⟨hbody, helse⟩ := yields_loopParts hbelow hsuites (Or.inl hkind)
  have hheld := h.held_eq_fields (by rw [hkind]; rfl) (by decide) (by simp [hkind])
    (by rw [Node.keepsAll, hkind]) (by simp [hkind])
  simp only [List.map_cons, List.map_nil, List.sum_cons, List.sum_nil, add_zero] at hheld
  rw [hheld, whileStatement, field?_ofNode n .condition]
  refine Yields.block (Yields.none_append rfl ?_)
  apply Yields.need_node
  intro condition hcondition
  have hvalue := (hbelow condition (Node.mem_children_of_child? hcondition)).counts.value
    ((Option.all_eq_true _ _).mp hfit condition hcondition)
  rw [Node.heldAt_of_child? hcondition, ← add_assoc]
  exact (yields_repeated hvalue .popIfFalse hbody).append helse

theorem yields_forStatement (hkind : n.label.kind = .forStatement) :
    Yields (forStatement (ofNode n).place) n.held := by
  have hfit := h.fit (by rw [Node.isParameterList, hkind]; rfl)
  rw [hkind] at hfit
  obtain ⟨hleft, hright⟩ := (Bool.and_eq_true _ _).mp hfit
  obtain ⟨hbody, helse⟩ := yields_loopParts hbelow hsuites (Or.inr hkind)
  have hheld := h.held_eq_fields (by rw [hkind]; rfl) (by decide) (by simp [hkind])
    (by rw [Node.keepsAll, hkind]) (by simp [hkind])
  simp only [List.map_cons, List.map_nil, List.sum_cons, List.sum_nil, add_zero] at hheld
  have hinner : Yields (need ((ofNode n).place.field? .left) (.lacks "for" .target) fun element =>
      element.roles.target ++ blockOf ((ofNode n).place.field? .body))
      (n.heldAt .left + n.heldAt .body) := by
    rw [field?_ofNode n .left]
    apply Yields.need_node
    intro element helement
    have htarget := (hbelow element (Node.mem_children_of_child? helement)).counts.target
      ((Option.all_eq_true _ _).mp hleft element helement)
    rw [Node.heldAt_of_child? helement]
    exact htarget.append hbody
  rw [hheld, forStatement, field?_ofNode n .right]
  refine Yields.block (Yields.none_append rfl ?_)
  apply Yields.need_node
  intro iterable hiterable
  have hvalue := (hbelow iterable (Node.mem_children_of_child? hiterable)).counts.value
    ((Option.all_eq_true _ _).mp hright iterable hiterable)
  have hskip : Yields .skip 0 := Yields.of_none rfl
  have hrounds := yields_repeated hskip .forIterator hinner
  rw [zero_add] at hrounds
  rw [Node.heldAt_of_child? hiterable, ← add_assoc, ← add_assoc, add_comm (n.heldAt .left),
    add_assoc _ (n.heldAt .left)]
  exact ((hvalue.append_none rfl).append hrounds).append helse

end Loops

/-! ## Names given by `as` -/

theorem yields_bind (h : AllCount n) (hkind : n.label.kind = .asPattern)
    (hfit : n.bindsFit = true) : ∃ ns ms, n.held = ns + ms ∧
      Yields (optional (ofNode n).place.named.head? (·.roles.value)) ns ∧
      Yields (storeOrDrop ((ofNode n).place.field? .asName)) ms := by
  have hheld := h.placed.held_eq_named (by simp [hkind]) (by rw [Node.keepsAll, hkind])
  rw [named_ofNode, field?_ofNode]
  unfold Node.bindsFit at hfit
  split at hfit
  · rename_i first hparts
    rw [Bool.and_eq_true, Option.isNone_iff_eq_none] at hfit
    have hmem : first ∈ n.children := Node.mem_children_of_mem_named (by simp [hparts])
    refine ⟨first.held, 0, ?_, ?_, ?_⟩
    · rw [hheld, hparts, List.map_singleton, List.sum_singleton, add_zero]
    · rw [hparts]
      exact (h.children first hmem).counts.value hfit.1
    · rw [hfit.2]
      exact Yields.of_none rfl
  · rename_i first name hparts
    rw [Bool.and_eq_true, Bool.and_eq_true, Bool.and_eq_true, beq_iff_eq] at hfit
    obtain ⟨⟨⟨hfirst, hfield⟩, hname⟩, honce⟩ := hfit
    have hmem : first ∈ n.children := Node.mem_children_of_mem_named (by simp [hparts])
    have hmem' : name ∈ n.children := Node.mem_children_of_mem_named (by simp [hparts])
    refine ⟨first.held, name.held, ?_, ?_, ?_⟩
    · rw [hheld, hparts, List.map_cons, List.map_singleton, List.sum_cons, List.sum_singleton]
    · rw [hparts]
      exact (h.children first hmem).counts.value hfirst
    · rw [Node.child?_of_holdsOnce honce hmem' hfield]
      exact (h.children name hmem').counts.target hname
  · cases hfit

/-! ## Handlers -/

/-- What a handler catches and the name that it gives to it. -/
theorem yields_catch (hbelow : ∀ c ∈ n.children, AllCount c) (hfit : n.handlerFits = true) :
    match catchOf ((n.named.filter (·.label.kind != .block)).map ofNode) with
    | none => ((n.named.filter (·.label.kind != .block)).map Node.held).sum = 0
    | some caught => ∃ ns ms,
      ((n.named.filter (·.label.kind != .block)).map Node.held).sum = ns + ms ∧
      Yields (optional caught.type (·.roles.value)) ns ∧ Yields (storeOrDrop caught.name) ms := by
  have hmem : ∀ c ∈ n.named.filter (·.label.kind != .block), AllCount c := fun c hc =>
    hbelow c (Node.mem_children_of_mem_named (List.mem_filter.mp hc).1)
  unfold Node.handlerFits at hfit
  split at hfit
  · rename_i hparts
    rw [hparts]
    rfl
  · rename_i v hparts
    rw [hparts, List.forall_mem_singleton] at hmem
    rw [Node.caughtFits, Bool.and_eq_true, Bool.or_eq_true, bne_iff_ne] at hfit
    obtain ⟨hexpr, hbinds⟩ := hfit
    rw [hparts, List.map_singleton, List.map_singleton, List.sum_singleton, catchOf, kind_ofNode]
    by_cases hkind : v.label.kind = .asPattern
    · rw [if_pos hkind]
      exact yields_bind hmem hkind (hbinds.resolve_left (not_not_intro hkind))
    · rw [if_neg hkind]
      exact ⟨v.held, 0, (add_zero _).symm, hmem.counts.value hexpr, Yields.of_none rfl⟩
  · rename_i v name hparts
    rw [hparts, List.forall_mem_cons, List.forall_mem_singleton] at hmem
    rw [Bool.and_eq_true, Bool.and_eq_true, bne_iff_ne] at hfit
    obtain ⟨⟨hexpr, hkind⟩, hname⟩ := hfit
    rw [hparts, List.map_cons, catchOf, kind_ofNode, if_neg hkind]
    refine ⟨v.held, name.held, ?_, hmem.1.counts.value hexpr, hmem.2.counts.target hname⟩
    rw [List.map_cons, List.map_singleton, List.sum_cons, List.sum_singleton]
  · cases hfit

theorem yields_handler (h : AllCount n) (hkind : n.label.kind.isHandler = true) :
    Yields (handler (ofNode n)) n.held := by
  obtain ⟨b, hparts, hblock, hblocks⟩ := exists_block_of_isHandler h.fits hkind
  have hnot : n.label.kind ≠ .lambda ∧ n.keepsAll = true ∧ n.isParameterList = false := by
    rw [Node.keepsAll, Node.isParameterList]
    cases hk : n.label.kind <;> rw [hk] at hkind <;>
      first | cases hkind; done | exact ⟨by decide, rfl, rfl⟩
  have hfit : n.handlerFits = true := by
    have hfit := h.placed.fit hnot.2.2
    cases hk : n.label.kind <;> rw [hk] at hkind hfit <;> first | exact hfit | cases hkind
  have hmem : b ∈ n.children := by
    have hb : b ∈ n.suiteParts := by rw [hparts]; exact List.mem_singleton_self b
    exact (List.mem_filter.mp hb).1
  have hbody : Yields (handlerSuites (ofNode n).place.named) b.held := by
    rw [handlerSuites, filter_named_ofNode n (· == .block) fun _ => rfl, hblocks]
    exact (((h.children b hmem).isSuite hblock).yields_block).append_none rfl
  have hheld : n.held = b.held + ((n.named.filter (·.label.kind != .block)).map Node.held).sum := by
    rw [h.placed.held_eq_named hnot.1 hnot.2.1, Node.sum_held_split (·.label.kind == .block),
      hblocks, List.map_singleton, List.sum_singleton]
    rfl
  have hothers : (ofNode n).place.named.filter (·.kind != .block) =
      (n.named.filter (·.label.kind != .block)).map ofNode :=
    filter_named_ofNode n (· != .block) fun _ => rfl
  have hcatch := yields_catch h.children hfit
  simp only [handler, hothers]
  refine Yields.none_append rfl ?_
  generalize catchOf ((n.named.filter (·.label.kind != .block)).map ofNode) = caught at hcatch ⊢
  cases caught with
  | none =>
    have hnone : ((n.named.filter (·.label.kind != .block)).map Node.held).sum = 0 := hcatch
    rw [hheld, hnone, add_zero]
    exact (Yields.none_append rfl hbody).append_none rfl
  | some caught =>
    obtain ⟨ns, ms, hsum, htype, hname⟩ := hcatch
    rw [hheld, hsum, add_comm, add_assoc]
    refine ((Yields.none_append rfl htype).append_none rfl).append (Yields.block ?_)
    exact ((((Yields.none_append rfl hname).append_none rfl).append hbody)).append_none rfl

section Handled

variable {b : Node} {handlers otherwise final : List Node}

theorem TryParts.counted (h : TryParts n b handlers otherwise final)
    (hbelow : ∀ c ∈ n.children, AllCount c) :
    AllCount b ∧ (∀ c ∈ handlers, AllCount c) ∧ (∀ c ∈ otherwise, AllCount c) ∧
      ∀ c ∈ final, AllCount c := by
  have hparts : ∀ c ∈ n.suiteParts, AllCount c := fun c hc => hbelow c (List.mem_filter.mp hc).1
  rw [h.parts] at hparts
  simpa only [List.forall_mem_cons, List.forall_mem_append] using hparts

/-- The body with its handlers and the `else` that only handlers let run. -/
theorem yields_handledBody (h : TryParts n b handlers otherwise final)
    (hfit : n.SuitesFit .tryStatement) (hbelow : ∀ c ∈ n.children, AllCount c) :
    Yields (handledBody (ofNode n).place)
      (b.held + (handlers.map Node.held).sum + (otherwise.map Node.held).sum) := by
  obtain ⟨hb, hhandlers, hotherwise, -⟩ := h.counted hbelow
  have hbody : Yields (blockOf ((ofNode n).place.field? .body)) b.held := by
    rw [h.body]
    exact (hb.isSuite h.block).yields_block
  simp only [handledBody, h.filter_handlers hfit, h.find_otherwise hfit]
  by_cases hempty : handlers = []
  · have hnone := h.otherwise_eq_nil hempty
    subst hempty hnone
    simpa using hbody
  · rw [if_neg (by simpa using hempty)]
    have hhandled : Yields (all ((handlers.map ofNode).map handler)) (handlers.map Node.held).sum :=
      Yields.all_nodes fun c hc => yields_handler (hhandlers c hc) (h.handles c hc)
    have helse : Yields (optional ((otherwise.head?).map ofNode) elseBody)
        (otherwise.map Node.held).sum := by
      rcases h.orElse with rfl | ⟨-, e, rfl, he⟩
      · exact Yields.of_none rfl
      · rw [List.map_singleton, List.sum_singleton]
        exact yields_elseBody (hotherwise e (by simp)) he
    have htried : Yields (.block (.jump .setupExcept 0 ++ blockOf ((ofNode n).place.field? .body)
        ++ .plain .popBlock ++ .jump .forward 1)) b.held :=
      Yields.block (((Yields.none_append rfl hbody).append_none rfl).append_none rfl)
    exact Yields.block ((Yields.block ((htried.append hhandled).append_none rfl)).append helse)

end Handled

theorem yields_tryStatement (h : n.Placed n.label.kind) (hbelow : ∀ c ∈ n.children, AllCount c)
    (hsuites : n.SuitesFit n.label.kind) (hkind : n.label.kind = .tryStatement) :
    Yields (tryStatement (ofNode n).place) n.held := by
  have hfit := h.fit (by rw [Node.isParameterList, hkind]; rfl)
  rw [hkind] at hfit hsuites
  obtain ⟨b, handlers, otherwise, final, hparts⟩ := tryParts_of_suitesFit hsuites
  have hkeeps : n.keepsAll = true := by rw [Node.keepsAll, hkind]
  have hheld : n.held = b.held + (handlers.map Node.held).sum + (otherwise.map Node.held).sum
      + (final.map Node.held).sum := by
    have hsum : n.held = (n.suiteParts.map Node.held).sum := by
      rw [Node.held_eq, if_neg (by simp [hkind]), zero_add, Node.suiteParts,
        ← Node.kept_of_keepsAll hkeeps]
      apply Node.sum_held_filter
      intro c hc hnone
      by_contra hheld
      have hlive : c ∈ n.live :=
        List.mem_filter.mpr ⟨hc, by simpa [Node.held_eq_zero] using hheld⟩
      rw [List.all_eq_true.mp hfit c hlive] at hnone
      cases hnone
    rw [hsum, hparts.parts, List.map_cons, List.sum_cons, List.map_append, List.map_append,
      List.sum_append, List.sum_append, add_assoc, add_assoc]
  have hbody := yields_handledBody hparts hsuites hbelow
  rw [hheld]
  simp only [tryStatement, hparts.find_final hsuites]
  rcases hparts.atEnd with rfl | ⟨f, rfl, hf⟩
  · simpa using hbody
  · have hfinal := ((hparts.counted hbelow).2.2.2 f (by simp)).counts.suite (Or.inl hf)
    have hguarded : Yields (.block (.jump .setupFinally 0 ++ handledBody (ofNode n).place
        ++ .plain .popBlock ++ .literal .none)) _ :=
      Yields.block (((Yields.none_append rfl hbody).append_none rfl).append_none rfl)
    rw [List.map_singleton, List.sum_singleton]
    exact ((hguarded.append_none rfl).append hfinal).append_none rfl

/-! ## Managed blocks -/

theorem yields_managed {bind inner : Draft} {ns ms : Multiset Node} (hbind : Yields bind ns)
    (hinner : Yields inner ms) : Yields (managed bind inner) (ns + ms) := by
  have hblock : Yields (.block (.jump .setupWith 0 ++ bind ++ inner ++ .plain .popBlock
      ++ .literal .none)) (ns + ms) :=
    Yields.block ((((Yields.none_append rfl hbind).append hinner).append_none rfl).append_none rfl)
  exact (hblock.append_none rfl).append_none rfl

theorem yields_withItem (h : AllCount n) (hfit : n.itemFits = true) {inner : Draft}
    {ns : Multiset Node} (hinner : Yields inner ns) :
    Yields (withItem inner (ofNode n)) (n.held + ns) := by
  rw [Node.itemFits, Bool.and_eq_true, Bool.and_eq_true] at hfit
  obtain ⟨⟨hother, hfree⟩, hfit⟩ := hfit
  have hkeeps : n.keepsAll = true ∧ n.label.kind ≠ .lambda := by
    rw [Node.isFree, Bool.and_eq_true] at hfree
    rw [Node.keepsAll]
    cases hk : n.label.kind <;> rw [hk] at hother <;>
      first | cases hother; done | exact ⟨hfree.1, by simp⟩
  split at hfit
  · rename_i v hparts
    rw [Node.caughtFits, Bool.and_eq_true, Bool.and_eq_true, Bool.or_eq_true, Bool.or_eq_true,
      bne_iff_ne, Option.isNone_iff_eq_none, Bool.and_eq_true, beq_iff_eq] at hfit
    obtain ⟨⟨hexpr, hbinds⟩, hvalue⟩ := hfit
    have hmem : v ∈ n.children := Node.mem_children_of_mem_named (by simp [hparts])
    have hv := h.children v hmem
    have hfound : ((ofNode n).place.field? .value).or (ofNode n).place.named.head? =
        some (ofNode v) := by
      rw [field?_ofNode, named_ofNode, hparts]
      rcases hvalue with hnone | ⟨hfield, honce⟩
      · rw [hnone]
        rfl
      · rw [Node.child?_of_holdsOnce honce hmem hfield]
        rfl
    have hheld : n.held = v.held := by
      rw [h.placed.held_eq_named hkeeps.2 hkeeps.1, hparts, List.map_singleton, List.sum_singleton]
    simp only [withItem, hfound, need, kind_ofNode]
    rw [hheld]
    by_cases hkind : v.label.kind = .asPattern
    · obtain ⟨fs, ms, hsum, hfirst, hname⟩ :=
        yields_bind hv hkind (hbinds.resolve_left (not_not_intro hkind))
      rw [if_pos hkind, hsum, add_assoc]
      exact hfirst.append (yields_managed hname hinner)
    · rw [if_neg hkind]
      have hdrop : Yields (.plain .popTop) 0 := Yields.of_none rfl
      have hmanaged := yields_managed hdrop hinner
      rw [zero_add] at hmanaged
      exact (hv.counts.value hexpr).append hmanaged
  · cases hfit

theorem yields_withItems {cs : List Node} (h : ∀ c ∈ cs, AllCount c ∧ c.itemFits = true)
    {inner : Draft} {ns : Multiset Node} (hinner : Yields inner ns) :
    Yields ((cs.map ofNode).foldr (fun item inner => withItem inner item) inner)
      ((cs.map Node.held).sum + ns) := by
  induction cs with
  | nil => simpa using hinner
  | cons c cs ih =>
    obtain ⟨⟨hc, hfit⟩, hcs⟩ := List.forall_mem_cons.mp h
    rw [List.map_cons, List.foldr_cons, List.map_cons, List.sum_cons, add_assoc]
    exact yields_withItem hc hfit (ih hcs)

/-- What is below a `with` is below its items and its body. -/
theorem held_of_withStatement {b : Node} (h : n.Placed n.label.kind)
    (hkind : n.label.kind = .withStatement) (hb : n.child? .body = some b)
    (hblock : b.label.kind = .block) :
    n.held = ((n.named.filter (·.label.kind == .withClause)).map Node.held).sum + b.held := by
  have hfit := h.fit (by rw [Node.isParameterList, hkind]; rfl)
  rw [hkind] at hfit
  simp only [Node.childrenFit, Bool.and_eq_true, List.all_eq_true, Bool.or_eq_true,
    beq_iff_eq] at hfit
  obtain ⟨⟨hlive, -⟩, honce⟩ := hfit
  -- The child under the field is a block.
  have hbody : ∀ c ∈ n.live, c.label.field = some .body → c.label.kind ≠ .withClause := by
    intro c hc hfield hclause
    have hmem := (List.mem_filter.mp (List.mem_filter.mp hc).1).1
    rw [Node.child?_of_holdsOnce honce hmem hfield, Option.some.injEq] at hb
    rw [← hb, hclause] at hblock
    cases hblock
  apply h.held_eq_kind_add_field (by simp [hkind]) (by rw [Node.keepsAll, hkind]) honce hb
  intro c hc
  by_cases hfield : c.label.field = some .body
  · simp [hfield, hbody c hc hfield]
  · simp [hfield, (hlive c hc).resolve_right hfield]

theorem yields_withStatement (h : n.Placed n.label.kind) (hbelow : ∀ c ∈ n.children, AllCount c)
    (hsuites : n.SuitesFit n.label.kind) (hkind : n.label.kind = .withStatement) :
    Yields (withStatement (ofNode n).place) n.held := by
  have hfit := h.fit (by rw [Node.isParameterList, hkind]; rfl)
  rw [hkind] at hfit hsuites
  obtain ⟨b, hparts, hblock, hfield⟩ := Node.suiteParts_eq_singleton (beq_iff_eq.mp hsuites.takes)
  have hchild := child?_of_singleton hsuites hparts hfield rfl
  have hbody : Yields (blockOf ((ofNode n).place.field? .body)) b.held := by
    rw [field?_ofNode, hchild]
    exact ((hbelow b (Node.mem_children_of_child? hchild)).isSuite hblock).yields_block
  have hone : (n.named.filter (·.label.kind == .withClause)).length ≤ 1 := by
    simp only [Node.childrenFit, Bool.and_eq_true, decide_eq_true_eq] at hfit
    refine le_trans (List.Sublist.length_le ?_) hfit.1.2
    exact List.filter_sublist.filter _
  have hmem : ∀ c ∈ n.named.filter (·.label.kind == .withClause),
      AllCount c ∧ c.label.kind = .withClause := by
    intro c hc
    obtain ⟨hc, hclause⟩ := List.mem_filter.mp hc
    exact ⟨hbelow c (Node.mem_children_of_mem_named hc), beq_iff_eq.mp hclause⟩
  have hfind : (ofNode n).place.named.find? (·.kind == .withClause) =
      (n.named.filter (·.label.kind == .withClause)).head?.map ofNode := by
    rw [← List.head?_filter, filter_named_ofNode n (· == .withClause) fun _ => rfl, List.head?_map]
  rw [held_of_withStatement h hkind hchild hblock]
  simp only [withStatement, hfind]
  generalize n.named.filter (·.label.kind == .withClause) = clauses at hone hmem ⊢
  rcases clauses with _ | ⟨c, _ | ⟨d, rest⟩⟩
  · simpa using hbody
  · obtain ⟨hc, hclause⟩ := hmem c (by simp)
    have hitems := hc.placed.fit (by rw [Node.isParameterList, hclause]; rfl)
    rw [hclause] at hitems
    rw [List.map_singleton, List.sum_singleton,
      hc.placed.held_eq_named (by simp [hclause]) (by rw [Node.keepsAll, hclause])]
    simp only [List.head?_cons, Option.map_some, named_ofNode]
    apply yields_withItems _ hbody
    intro item hitem
    exact ⟨hc.children item (Node.mem_children_of_mem_named hitem),
      List.all_eq_true.mp hitems item hitem⟩
  · simp at hone

/-! ## Decorated definitions -/

theorem yields_decoratedDefinition (h : n.Placed n.label.kind)
    (hbelow : ∀ c ∈ n.children, AllCount c) (hsuites : n.SuitesFit n.label.kind)
    (hkind : n.label.kind = .decoratedDefinition) :
    Yields (decoratedDefinition (ofNode n).place) n.held := by
  have hfit := h.fit (by rw [Node.isParameterList, hkind]; rfl)
  rw [hkind] at hfit hsuites
  obtain ⟨c, hc, hdefinition, hchild, -⟩ := Node.items_of_decorated hsuites hkind none
  simp only [Node.childrenFit, Bool.and_eq_true, List.all_eq_true, bne_iff_ne, ne_eq] at hfit
  obtain ⟨hlive, honce⟩ := hfit
  have hheld : n.held =
      ((n.named.filter (·.label.kind == .decorator)).map Node.held).sum + c.held :=
    h.held_eq_kind_add_field (by simp [hkind]) (by rw [Node.keepsAll, hkind]) honce hchild hlive
  have hdecorators : ∀ c ∈ n.named.filter (·.label.kind == .decorator),
      AllCount c ∧ c.label.kind = .decorator := by
    intro c hc
    obtain ⟨hc, hdecorator⟩ := List.mem_filter.mp hc
    exact ⟨hbelow c (Node.mem_children_of_mem_named hc), beq_iff_eq.mp hdecorator⟩
  have hcount := hbelow c hc
  have hfits := Node.suitesFit_of_fits hcount.fits
  rw [hheld, decoratedDefinition, filter_named_ofNode n (· == .decorator) fun _ => rfl,
    field?_ofNode, hchild]
  show Yields (if (ofNode c).kind = .classDefinition then _ else _) _
  rw [kind_ofNode]
  split
  · rename_i hclass
    exact yields_classDefinition hcount.placed hfits hcount.children hclass hdecorators
  · rename_i hclass
    have hfunction : c.label.kind = .functionDefinition := by
      cases hk : c.label.kind <;> rw [hk] at hdefinition hclass <;>
        first | rfl | exact absurd rfl hclass | cases hdefinition
    exact yields_functionDefinition hcount.placed hfits hcount.children hfunction hdecorators

/-! ## All other statements -/

/-- A clause that no rule is for, the last clause of a `try` and a statement of another grammar run
their suites and drop the values between them. -/
theorem yields_suite (h : n.Placed n.label.kind) (hbelow : ∀ c ∈ n.children, AllCount c)
    (hn : n.label.kind = .finallyClause ∨ n.label.kind.isOther = true ∧ n.isFree = true) :
    Yields (ofNode n).roles.suite n.held := by
  have hnot : n.label.kind ≠ .lambda ∧ n.keepsAll = true ∧ n.isParameterList = false := by
    rcases hn with hk | ⟨hother, hfree⟩
    · simp [Node.keepsAll, Node.isParameterList, hk, Kind.isOther]
    · refine ⟨?_, ?_, isParameterList_of_isFree hfree⟩
      · intro hk
        rw [hk] at hother
        cases hother
      · rw [Node.isFree, Bool.and_eq_true] at hfree
        rw [Node.keepsAll]
        cases hk : n.label.kind <;> rw [hk] at hother <;> first | exact hfree.1 | cases hother
  have hfit : ∀ c ∈ n.children, (c.isExpression || c.isSuitePart) = true := by
    have hfit := h.fit hnot.2.2
    rcases hn with hk | ⟨hother, -⟩
    · rw [hk] at hfit
      exact List.all_eq_true.mp hfit
    · cases hk : n.label.kind <;> rw [hk] at hother hfit <;>
        first | cases hother; done | exact List.all_eq_true.mp hfit
  have hrole : (ofNode n).roles.suite = all ((n.named.map ofNode).map suitePart) := by
    rw [← named_ofNode, roles_ofNode]
    rfl
  rw [hrole, h.held_eq_named hnot.1 hnot.2.1]
  apply Yields.all_nodes
  intro c hc
  have hmem := Node.mem_children_of_mem_named hc
  have hcount := hbelow c hmem
  have hpart := hfit c hmem
  rw [Bool.or_eq_true, Node.isSuitePart, Bool.or_eq_true, beq_iff_eq, Bool.and_eq_true,
    Bool.and_eq_true] at hpart
  rw [suitePart, kind_ofNode]
  by_cases hblock : c.label.kind = .block
  · rw [if_pos hblock]
    exact (hcount.isSuite hblock).yields_block
  rw [if_neg hblock]
  by_cases hclause : c.label.kind.isClause = true
  · rw [if_pos hclause]
    apply hcount.counts.suite
    rcases hpart with hexpr | hsuite
    · refine Or.inr ⟨?_, isFree_of_isExpression hexpr⟩
      rw [Node.isExpression, Bool.and_eq_true, Bool.and_eq_true] at hexpr
      cases hk : c.label.kind <;> rw [hk] at hclause hexpr <;>
        first | rfl | exact absurd hclause (by decide) | exact absurd hexpr.1.1 (by decide)
    · obtain ⟨⟨hother, -⟩, hfree⟩ := hsuite.resolve_left hblock
      exact Or.inr ⟨hother, hfree⟩
  · rw [if_neg hclause]
    rcases hpart with hexpr | hsuite
    · exact (hcount.counts.value hexpr).append_none rfl
    · exact absurd (hsuite.resolve_left hblock).1.2 hclause

/-! ## All nodes -/

/-- The code of a definition without decorators. -/
theorem yields_definition (h : n.Placed n.label.kind) (hbelow : ∀ c ∈ n.children, AllCount c)
    (hfit : n.SuitesFit n.label.kind) (hn : n.label.kind.isDefinition = true) :
    Yields (statementBody (ofNode n).place) n.held := by
  have hkind : (ofNode n).place.kind = n.label.kind := kind_ofNode n
  have hdefinition : ∀ c ∈ ([] : List Node), AllCount c ∧ c.label.kind = .decorator := nofun
  rw [statementBody, hkind]
  cases hk : n.label.kind <;> rw [hk] at hn <;> first | cases hn; done | skip
  · simpa using yields_functionDefinition h hfit hbelow hk hdefinition
  · simpa using yields_classDefinition h hfit hbelow hk hdefinition

theorem yields_statementBody (h : n.Placed n.label.kind) (hbelow : ∀ c ∈ n.children, AllCount c)
    (hfit : n.SuitesFit n.label.kind) (hn : n.label.kind.isStatement = true)
    (hfree : n.isFree = true) : Yields (statementBody (ofNode n).place) n.held := by
  have hkind : (ofNode n).place.kind = n.label.kind := kind_ofNode n
  by_cases hdefinition : n.label.kind.isDefinition = true
  · exact yields_definition h hbelow hfit hdefinition
  by_cases hsimple : isSimple n.label.kind = true
  · exact yields_simple h hbelow hsimple
  rw [statementBody, hkind]
  cases hk : n.label.kind <;> rw [hk] at hn hdefinition hsimple <;>
    first
      | cases hn; done
      | exact absurd rfl hdefinition
      | exact absurd rfl hsimple
      | exact yields_decoratedDefinition h hbelow hfit hk
      | exact yields_ifStatement h hbelow hfit hk
      | exact yields_whileStatement h hbelow hfit hk
      | exact yields_forStatement h hbelow hfit hk
      | exact yields_tryStatement h hbelow hfit hk
      | exact yields_withStatement h hbelow hfit hk
      | skip
  have hrole : (ofNode n).roles.suite = suite (ofNode n).place := by
    rw [roles_ofNode]
    rfl
  rw [← hrole]
  exact yields_suite h hbelow (Or.inr ⟨by rw [hk]; rfl, hfree⟩)

theorem counts_of_children (h : n.Placed n.label.kind) (hbelow : ∀ c ∈ n.children, AllCount c)
    (hfit : n.SuitesFit n.label.kind) : Counts n where
  value hn := by
    rw [roles_ofNode]
    exact yields_value h hbelow hn
  target hn := by
    rw [roles_ofNode]
    exact yields_target h hbelow hn
  chain hkind _ hchain := yields_chain h hbelow hkind hchain
  statement hn hfree := by
    rw [roles_statement_ofNode]
    exact Yields.none_append rfl (yields_statementBody h hbelow hfit hn hfree)
  suite hn := yields_suite h hbelow hn

/-- Wherever lambdas stand where they should, all code makes the lambdas below it. -/
theorem allCount_of_places (hfits : n.fits = true) (hplaces : n.places = true) : AllCount n := by
  induction n using Node.induction with
  | node n ih =>
    have hplaced := Node.placed_of_places hplaces
    have hfit := Node.suitesFit_of_fits hfits
    have hbelow : ∀ c ∈ n.children, AllCount c := fun c hc =>
      ih c hc (hfit.children c hc) (hplaced.children c hc)
    exact ⟨counts_of_children hplaced hbelow hfit, hfits, hplaces, hbelow⟩

end Compound

/-- A whole source makes its lambdas, each once. -/
theorem yields_moduleDraft {root : Node} (h : root.isScript = true) :
    Yields (moduleDraft (ofNode root).place) root.held := by
  obtain ⟨hsource, hfree, hhere, hchildren⟩ := Node.isScript_iff.mp h
  have hplaced := Node.placed_of_placesHere hhere hchildren
  have hsuite : IsSuite root := ⟨hplaced, Or.inr hfree, fun c hc =>
    allCount_of_places ((Node.isSource_iff.mp hsource).2 c hc) (hchildren c hc)⟩
  exact hsuite.yields_namespaceSuite.append_none rfl

end UnitAtlas.Reading
