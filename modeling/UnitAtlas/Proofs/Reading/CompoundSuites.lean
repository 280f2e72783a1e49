-- The rules for compound and simple statements draw what the grammar lets them: a compound
-- statement draws the definitions of its suites, one suite after the other, and a simple one has
-- none. From these rules it follows for all nodes.
import UnitAtlas.Proofs.Reading.Suites

namespace UnitAtlas.Reading

open Syntax Draft

/-! ## Single suites -/

section Single

variable {n b : Node}

theorem draws_blockOf {part : Option Reading} (hpart : part = some (ofNode b)) (hb : AllDrawn b)
    (hblock : b.label.kind = .block) (hwhole : (blockOf part).Whole) :
    Draws (blockOf part).parts (b.items none) := by
  subst hpart
  rw [Node.items_block hblock]
  exact hb.drawn.block hblock hwhole

/-- The suites of a node are drawn when all of them are. -/
theorem draws_itemsAmong {ps : List Draft} {bs : List Node} (hparts : n.suiteParts = bs)
    (hkinds : ∀ c ∈ bs, c.label.kind.defines = false)
    (h : Draws ps (bs.flatMap (Node.items none))) : Draws ps (Node.itemsAmong n.children) := by
  apply draws_of_suites
  · rwa [hparts]
  · rwa [hparts]

theorem draws_elseBody (hn : AllDrawn n) (hkind : n.label.kind = .elseClause)
    (hwhole : (elseBody (ofNode n)).Whole) :
    Draws (elseBody (ofNode n)).parts (Node.itemsAmong n.children) := by
  have hfit := Node.suitesFit_of_fits hn.drawn.fits
  rw [hkind] at hfit
  obtain ⟨b, hparts, hblock, hfield⟩ := Node.suiteParts_eq_singleton (beq_iff_eq.mp hfit.takes)
  have hb : AllDrawn b := hn.suiteParts b (by rw [hparts]; exact List.mem_singleton_self b)
  have hbody := field?_of_singleton hfit hparts hfield rfl
  have helse : elseBody (ofNode n) = (ofNode b).place.block := by rw [elseBody, hbody]
  rw [helse] at hwhole ⊢
  exact draws_of_block hparts hblock (hb.drawn.block hblock hwhole)

end Single

/-! ## Branches -/

theorem isCode_end (more : Bool) (depth : Nat) :
    (if more then .jump .forward depth else .skip : Draft).IsCode := by
  split <;> trivial

/-- The alternatives of an `if` draw their suites in order. -/
theorem draws_alternatives {cs : List Node} (h : ∀ c ∈ cs, AllDrawn c)
    (hkinds : ∀ c ∈ cs, c.label.kind = .elifClause ∨ c.label.kind = .elseClause)
    (hwhole : (alternatives (cs.map ofNode)).Whole) :
    Draws (alternatives (cs.map ofNode)).parts (cs.flatMap (Node.items none)) := by
  induction cs with
  | nil => exact .nil
  | cons c cs ih =>
    obtain ⟨hc, hcs⟩ := List.forall_mem_cons.mp h
    obtain ⟨hkind, hkinds⟩ := List.forall_mem_cons.mp hkinds
    rw [List.map_cons, alternatives, line_ofNode, kind_ofNode] at hwhole ⊢
    rw [List.flatMap_cons]
    obtain ⟨-, hwhole⟩ := hwhole
    rcases hkind with hkind | hkind
    · rw [Node.items_other (by rw [hkind]; rfl) (by rw [hkind]; decide)]
      refine Draws.line_append _ ?_
      rw [if_pos hkind] at hwhole ⊢
      obtain ⟨condition, hcondition, hwhole⟩ := whole_need.mp hwhole
      rw [hcondition, need]
      obtain ⟨⟨-, hbranch⟩, hrest⟩ := hwhole
      have hfit := Node.suitesFit_of_fits hc.drawn.fits
      rw [hkind] at hfit
      obtain ⟨b, hparts, hblock, hfield⟩ := Node.suiteParts_eq_singleton (beq_iff_eq.mp hfit.takes)
      have hb : AllDrawn b := hc.suiteParts b (by rw [hparts]; exact List.mem_singleton_self b)
      have hsuite := draws_blockOf (field?_of_singleton hfit hparts hfield rfl) hb hblock
        hbranch.1.2
      have hcode := ((below_isCode c).field? condition hcondition).value
      refine Draws.append ?_ (ih hcs hkinds hrest)
      refine Draws.code_append hcode (Draws.append_code ?_ (isCode_end _ _))
      refine Draws.code_append (isCode_jump _ _) ?_
      refine draws_itemsAmong hparts ?_ ?_
      · rw [List.forall_mem_singleton, hblock]
        rfl
      · rwa [List.flatMap_singleton]
    · rw [Node.items_other (by rw [hkind]; rfl) (by rw [hkind]; decide)]
      refine Draws.line_append _ ?_
      rw [if_neg (by rw [hkind]; decide)] at hwhole ⊢
      obtain ⟨⟨hbody, -⟩, hrest⟩ := hwhole
      refine Draws.append (Draws.append_code (draws_elseBody hc hkind hbody) ?_)
        (ih hcs hkinds hrest)
      split <;> trivial

theorem draws_ifStatement {n : Node} (hn : ∀ c ∈ n.suiteParts, AllDrawn c)
    (hfit : n.SuitesFit .ifStatement) (hwhole : (ifStatement (ofNode n).place).Whole) :
    Draws (ifStatement (ofNode n).place).parts (Node.itemsAmong n.children) := by
  obtain ⟨b, alternates, h⟩ := exists_branchParts hfit
  have hdrawn : AllDrawn b ∧ ∀ c ∈ alternates, AllDrawn c := by
    rw [← List.forall_mem_cons, ← h.parts]
    exact hn
  have hbody : (ofNode n).place.field? .consequence = some (ofNode b) := by
    rw [field?_ofNode, h.body, Option.map_some]
  have hothers : (ofNode n).place.fields .alternative = alternates.map ofNode := by
    rw [fields_ofNode, h.others]
  rw [ifStatement] at hwhole ⊢
  obtain ⟨condition, hcondition, hwhole⟩ := whole_need.mp hwhole
  simp only [hcondition, need]
  obtain ⟨-, hbranch, hrest⟩ := hwhole
  rw [hothers] at hrest
  refine Draws.code_append ((below_isCode n).field? condition hcondition).value ?_
  refine draws_itemsAmong h.parts ?_ ?_
  · rw [List.forall_mem_cons, h.block]
    refine ⟨rfl, ?_⟩
    intro c hc
    rcases h.kinds c hc with hkind | hkind <;> rw [hkind] <;> rfl
  · rw [List.flatMap_cons, parts_block, parts_append, hothers]
    refine Draws.append ?_ (draws_alternatives hdrawn.2 h.kinds hrest)
    refine Draws.append_code (Draws.code_append (isCode_jump _ _) ?_) (isCode_end _ _)
    exact draws_blockOf hbody hdrawn.1 h.block hbranch.1.2

/-! ## Loops -/

theorem draws_repeated {test body : Draft} {is : List Item} (htest : test.IsCode)
    (exit : Opcode.Jump) (h : Draws body.parts is) :
    Draws (repeated test exit body).parts is := by
  refine Draws.append_code ?_ (d := .plain .popBlock) (by simp)
  refine Draws.append_code ?_ isCode_again
  exact Draws.append (Draws.code_append htest (Draws.of_code (isCode_jump exit 0))) h

/-- A clause that may be missing. -/
theorem draws_otherwise {others : List Node} {part : Option Reading}
    (h : others = [] ∧ part = none ∨ ∃ e, others = [e] ∧ AllDrawn e ∧
      e.label.kind = .elseClause ∧ part = some (ofNode e))
    (hwhole : (optional part elseBody).Whole) :
    Draws (optional part elseBody).parts (others.flatMap (Node.items none)) := by
  rcases h with ⟨rfl, rfl⟩ | ⟨e, rfl, he, hkind, rfl⟩
  · exact .nil
  · rw [List.flatMap_singleton, Node.items_other (by rw [hkind]; rfl) (by rw [hkind]; decide)]
    exact .pass _ (draws_elseBody he hkind hwhole)

/-- Body and `else` of a loop, once the code around them is known. -/
theorem draws_loop {n : Node} {k : Kind} (hn : ∀ c ∈ n.suiteParts, AllDrawn c)
    (hfit : n.SuitesFit k) (hk : k = .whileStatement ∨ k = .forStatement)
    (hbody : (blockOf ((ofNode n).place.field? .body)).Whole)
    (helse : (optional ((ofNode n).place.field? .alternative) elseBody).Whole) :
    ∃ is js, Draws (blockOf ((ofNode n).place.field? .body)).parts is ∧
      Draws (optional ((ofNode n).place.field? .alternative) elseBody).parts js ∧
      ∀ ps, Draws ps (is ++ js) → Draws ps (Node.itemsAmong n.children) := by
  obtain ⟨b, others, h⟩ := exists_loopParts hfit hk
  have hb : AllDrawn b := hn b (by simp [h.parts])
  have hfield : (ofNode n).place.field? .body = some (ofNode b) := by
    rw [field?_ofNode, h.body, Option.map_some]
  refine ⟨_, others.flatMap (Node.items none), draws_blockOf hfield hb h.block hbody,
    draws_otherwise ?_ helse, ?_⟩
  · rw [field?_ofNode]
    rcases h.orElse with ⟨hnil, hnone⟩ | ⟨e, he, hkind, hsome⟩
    · exact Or.inl ⟨hnil, by rw [hnone, Option.map_none]⟩
    · exact Or.inr ⟨e, he, hn e (by simp [h.parts, he]), hkind, by rw [hsome, Option.map_some]⟩
  · intro ps hps
    refine draws_itemsAmong h.parts ?_ ?_
    · rw [List.forall_mem_cons, h.block]
      refine ⟨rfl, ?_⟩
      rcases h.orElse with ⟨rfl, -⟩ | ⟨e, rfl, hkind, -⟩
      · exact nofun
      · rw [List.forall_mem_singleton, hkind]
        rfl
    · rwa [List.flatMap_cons]

theorem draws_whileStatement {n : Node} (hn : ∀ c ∈ n.suiteParts, AllDrawn c)
    (hfit : n.SuitesFit .whileStatement) (hwhole : (whileStatement (ofNode n).place).Whole) :
    Draws (whileStatement (ofNode n).place).parts (Node.itemsAmong n.children) := by
  rw [whileStatement] at hwhole ⊢
  obtain ⟨condition, hcondition, hwhole⟩ := whole_need.mp hwhole.2
  simp only [hcondition, need, parts_block]
  obtain ⟨⟨⟨⟨-, hbody⟩, -⟩, -⟩, helse⟩ := hwhole
  obtain ⟨is, js, his, hjs, hitems⟩ := draws_loop hn hfit (Or.inl rfl) hbody helse
  apply hitems
  have htest := ((below_isCode n).field? condition hcondition).value
  exact Draws.code_append (isCode_jump _ _) ((draws_repeated htest _ his).append hjs)

theorem draws_forStatement {n : Node} (hn : ∀ c ∈ n.suiteParts, AllDrawn c)
    (hfit : n.SuitesFit .forStatement) (hwhole : (forStatement (ofNode n).place).Whole) :
    Draws (forStatement (ofNode n).place).parts (Node.itemsAmong n.children) := by
  rw [forStatement] at hwhole ⊢
  obtain ⟨iterable, hiterable, hwhole⟩ := whole_need.mp hwhole.2
  simp only [hiterable, need, parts_block]
  obtain ⟨⟨-, ⟨⟨-, hinner⟩, -⟩, -⟩, helse⟩ := hwhole
  obtain ⟨element, helement, -, hbody⟩ := whole_need.mp hinner
  simp only [helement]
  obtain ⟨is, js, his, hjs, hitems⟩ := draws_loop hn hfit (Or.inr rfl) hbody helse
  apply hitems
  have hvalue := ((below_isCode n).field? iterable hiterable).value
  have htarget := ((below_isCode n).field? element helement).target
  refine Draws.code_append (isCode_jump _ _) (Draws.append ?_ hjs)
  have hinner : Draws (element.roles.target ++ blockOf ((ofNode n).place.field? .body)).parts is :=
    Draws.code_append htarget his
  have hbefore : (iterable.roles.value ++ .plain .getIterator : Draft).IsCode := by simp [hvalue]
  exact Draws.code_append hbefore (draws_repeated isCode_skip .forIterator hinner)

/-! ## Handlers -/

section Handlers

theorem isCode_catch {rs : List Reading} (h : ∀ r ∈ rs, Gives IsCode r) {caught : Catch}
    (hcaught : catchOf rs = some caught) :
    (optional caught.type (·.roles.value)).IsCode ∧ (storeOrDrop caught.name).IsCode := by
  cases rs with
  | nil => cases hcaught
  | cons r rest =>
    obtain ⟨hr, hrest⟩ := List.forall_mem_cons.mp h
    rw [catchOf] at hcaught
    split at hcaught
    · cases hcaught
      exact ⟨closed_optional closed_isCode hr.place.head? fun _ hr => hr.value,
        closed_storeOrDrop closed_isCode hr.place.field?⟩
    · cases hcaught
      exact ⟨hr.value, closed_storeOrDrop closed_isCode fun r hr => hrest r (List.mem_of_head? hr)⟩

theorem draws_handler {c : Node} (hc : AllDrawn c) (hkind : c.label.kind.isHandler = true)
    (hwhole : (handler (ofNode c)).Whole) :
    Draws (handler (ofNode c)).parts (c.items none) := by
  obtain ⟨b, hparts, hblock, hblocks⟩ := exists_block_of_isHandler hc.drawn.fits hkind
  have hsuites : (ofNode c).place.named.filter (·.kind == .block) = [ofNode b] := by
    rw [filter_named_ofNode c (· == .block) fun _ => rfl, hblocks, List.map_singleton]
  have hb : AllDrawn b := hc.suiteParts b (by simp [hparts])
  have hdefines : c.label.kind.defines = false := by
    cases hk : c.label.kind <;> rw [hk] at hkind <;> first | rfl | cases hkind
  have hnot : c.label.kind ≠ .block := by
    intro hk
    rw [hk] at hkind
    cases hkind
  rw [Node.items_other hdefines hnot]
  simp only [handler, line_ofNode, handlerSuites, hsuites] at hwhole ⊢
  refine Draws.line_append _ ?_
  obtain ⟨-, hwhole⟩ := hwhole
  have hgives : ∀ r ∈ (ofNode c).place.named.filter (·.kind != .block), Gives IsCode r :=
    fun r hr => (below_isCode c).named r (List.mem_filter.mp hr).1
  have hsuite : (all [(ofNode b).place.block]).Whole →
      Draws (all [(ofNode b).place.block]).parts (Node.itemsAmong c.children) := by
    intro h
    rw [parts_all, List.flatMap_singleton]
    exact draws_of_block hparts hblock (hb.drawn.block hblock (whole_all.mp h _ (by simp)))
  split at hwhole
  · rename_i caught hcatch
    obtain ⟨htype, hname⟩ := isCode_catch hgives hcatch
    have hbefore : (.jump .popIfFalse 0 ++ .plain .popTop ++ storeOrDrop caught.name
        ++ .plain .popTop : Draft).IsCode := by simp [hname]
    have hfront : (.plain .dupTop ++ optional caught.type (·.roles.value)
        ++ .counted .compare exceptionMatch : Draft).IsCode := by simp [htype]
    refine Draws.code_append hfront (Draws.append_code ?_ (isCode_jump _ _))
    exact Draws.code_append hbefore (hsuite hwhole.2.1.2)
  · rename_i hcatch
    have hfront : (.plain .popTop ++ .plain .popTop ++ .plain .popTop : Draft).IsCode := by simp
    refine Draws.append_code ?_ (isCode_jump _ _)
    exact Draws.code_append hfront (hsuite hwhole.1.2)

theorem draws_handlers {cs : List Node} (h : ∀ c ∈ cs, AllDrawn c)
    (hkinds : ∀ c ∈ cs, c.label.kind.isHandler = true)
    (hwhole : (all ((cs.map ofNode).map handler)).Whole) :
    Draws (all ((cs.map ofNode).map handler)).parts (cs.flatMap (Node.items none)) := by
  induction cs with
  | nil => exact .nil
  | cons c cs ih =>
    obtain ⟨hc, hcs⟩ := List.forall_mem_cons.mp h
    obtain ⟨hkind, hkinds⟩ := List.forall_mem_cons.mp hkinds
    exact (draws_handler hc hkind hwhole.1).append (ih hcs hkinds hwhole.2)

namespace TryParts

variable {n b : Node} {handlers otherwise final : List Node}

theorem drawn (h : TryParts n b handlers otherwise final) (hn : ∀ c ∈ n.suiteParts, AllDrawn c) :
    AllDrawn b ∧ (∀ c ∈ handlers, AllDrawn c) ∧ (∀ c ∈ otherwise, AllDrawn c) ∧
      ∀ c ∈ final, AllDrawn c := by
  have hparts := hn
  rw [h.parts] at hparts
  simpa only [List.forall_mem_cons, List.forall_mem_append] using hparts

/-- The body under its handlers, with the `else` that only handlers let run. -/
theorem draws_handledBody (h : TryParts n b handlers otherwise final)
    (hfit : n.SuitesFit .tryStatement) (hn : ∀ c ∈ n.suiteParts, AllDrawn c)
    (hwhole : (handledBody (ofNode n).place).Whole) :
    Draws (handledBody (ofNode n).place).parts
      (b.items none ++ (handlers ++ otherwise).flatMap (Node.items none)) := by
  obtain ⟨hb, hhandlers, hotherwise, -⟩ := h.drawn hn
  simp only [handledBody, h.filter_handlers hfit, h.find_otherwise hfit] at hwhole ⊢
  by_cases hempty : handlers = []
  · have hnone := h.otherwise_eq_nil hempty
    subst hempty hnone
    simp only [List.map_nil, List.isEmpty_nil, if_true, List.append_nil, List.flatMap_nil]
      at hwhole ⊢
    exact draws_blockOf h.body hb h.block hwhole
  · have hsome : ¬ (handlers.map ofNode).isEmpty = true := by simpa using hempty
    rw [if_neg hsome] at hwhole ⊢
    obtain ⟨⟨⟨⟨⟨⟨-, hbody⟩, -⟩, -⟩, hrest⟩, -⟩, helse⟩ := hwhole
    have helse : Draws (optional ((otherwise.head?).map ofNode) elseBody).parts
        (otherwise.flatMap (Node.items none)) := by
      refine draws_otherwise ?_ helse
      rcases h.orElse with rfl | ⟨-, e, rfl, he⟩
      · exact Or.inl ⟨rfl, rfl⟩
      · exact Or.inr ⟨e, rfl, hotherwise e (by simp), he, rfl⟩
    have hbody := draws_blockOf h.body hb h.block hbody
    have hrest := draws_handlers hhandlers h.handles hrest
    rw [List.flatMap_append, ← List.append_assoc]
    refine Draws.append ?_ helse
    refine Draws.append_code (Draws.append ?_ hrest) (d := .plain .endFinally) (by simp)
    refine Draws.append_code (Draws.append_code ?_ (d := .plain .popBlock) (by simp))
      (isCode_jump _ _)
    exact Draws.code_append (isCode_jump _ _) hbody

end TryParts

theorem draws_tryStatement {n : Node} (hn : ∀ c ∈ n.suiteParts, AllDrawn c)
    (hfit : n.SuitesFit .tryStatement) (hwhole : (tryStatement (ofNode n).place).Whole) :
    Draws (tryStatement (ofNode n).place).parts (Node.itemsAmong n.children) := by
  obtain ⟨b, handlers, otherwise, final, h⟩ := tryParts_of_suitesFit hfit
  have hkinds : ∀ c ∈ b :: (handlers ++ (otherwise ++ final)), c.label.kind.defines = false := by
    simp only [List.forall_mem_cons, List.forall_mem_append]
    refine ⟨by rw [h.block]; rfl, ?_, ?_, ?_⟩
    · intro c hc
      have hhandler := h.handles c hc
      cases hk : c.label.kind <;> rw [hk] at hhandler <;> first | rfl | cases hhandler
    · intro c hc
      rw [h.otherwise_kind c hc]
      rfl
    · intro c hc
      rw [h.final_kind c hc]
      rfl
  refine draws_itemsAmong h.parts hkinds ?_
  rw [List.flatMap_cons, ← List.append_assoc, List.flatMap_append, ← List.append_assoc]
  simp only [tryStatement, h.find_final hfit] at hwhole ⊢
  rcases h.atEnd with rfl | ⟨f, rfl, hf⟩
  · rw [List.flatMap_nil, List.append_nil]
    exact h.draws_handledBody hfit hn hwhole
  · obtain ⟨⟨⟨⟨⟨⟨-, hbody⟩, -⟩, -⟩, -⟩, hsuite⟩, -⟩ := hwhole
    have hfinal : AllDrawn f := (h.drawn hn).2.2.2 f (by simp)
    have hfitf := Node.suitesFit_of_fits hfinal.drawn.fits
    have hsuite := hfinal.drawn.suite (suites_of_hasRule_eq_false hfitf (by rw [hf]; rfl)) hsuite
    have hitems : f.items none = .start f.label :: Node.itemsAmong f.children :=
      Node.items_other (by rw [hf]; rfl) (by rw [hf]; decide) none
    have hbefore := Draws.append_code (d := .plain .popBlock ++ .literal .none)
      (Draws.code_append (isCode_jump .setupFinally 0) (h.draws_handledBody hfit hn hbody)) (by simp)
    have hafter := Draws.append_code (d := .plain .endFinally) (Draws.line_append f.label hsuite)
      (by simp)
    have hboth := hbefore.append hafter
    rw [List.flatMap_singleton, hitems]
    simpa only [Option.map_some, List.head?_cons, line_ofNode, parts_append, parts_block,
      List.append_assoc, List.flatMap_append] using hboth

end Handlers

/-! ## Managed blocks -/

theorem draws_managed {bind inner : Draft} {is : List Item} (hbind : bind.IsCode)
    (h : Draws inner.parts is) : Draws (managed bind inner).parts is := by
  have hfront : (.jump .setupWith 0 ++ bind : Draft).IsCode := by simp [hbind]
  have hboth := (h.code_append hfront).append_code (d := .plain .popBlock ++ .literal .none ++
    .plain .withCleanup ++ .plain .endFinally) (by simp)
  simpa only [managed, parts_append, parts_block, List.append_assoc] using hboth

theorem draws_withItem {item : Reading} (hitem : Gives IsCode item) {inner : Draft}
    {is : List Item} (hwhole : (withItem inner item).Whole) :
    inner.Whole ∧ (Draws inner.parts is → Draws (withItem inner item).parts is) := by
  rw [withItem] at hwhole ⊢
  obtain ⟨v, hv, hwhole⟩ := whole_need.mp hwhole
  simp only [hv, need]
  have hgives : Gives IsCode v := by
    rcases Option.or_eq_some_iff.mp hv with hv | ⟨-, hv⟩
    · exact hitem.place.field? v hv
    · exact hitem.place.head? v hv
  split at hwhole
  · rename_i hpattern
    rw [if_pos hpattern]
    refine ⟨hwhole.2.1.1.1.1.2, ?_⟩
    intro h
    refine Draws.code_append ?_ (draws_managed ?_ h)
    · exact closed_optional closed_isCode hgives.place.head? fun _ hr => hr.value
    · exact closed_storeOrDrop closed_isCode hgives.place.field?
  · rename_i hplain
    rw [if_neg hplain]
    refine ⟨hwhole.2.1.1.1.1.2, ?_⟩
    intro h
    exact Draws.code_append hgives.value (draws_managed (by simp) h)

theorem draws_withStatement {n : Node} (hn : ∀ c ∈ n.suiteParts, AllDrawn c)
    (hfit : n.SuitesFit .withStatement) (hwhole : (withStatement (ofNode n).place).Whole) :
    Draws (withStatement (ofNode n).place).parts (Node.itemsAmong n.children) := by
  obtain ⟨b, hparts, hblock, hfield⟩ := Node.suiteParts_eq_singleton (beq_iff_eq.mp hfit.takes)
  have hb : AllDrawn b := hn b (by simp [hparts])
  have hbody := field?_of_singleton hfit hparts hfield rfl
  have hitems : ∀ items : List Reading, (∀ r ∈ items, Gives IsCode r) →
      (items.foldr (fun item inner => withItem inner item)
        (blockOf ((ofNode n).place.field? .body))).Whole →
      Draws (items.foldr (fun item inner => withItem inner item)
        (blockOf ((ofNode n).place.field? .body))).parts (b.items none) := by
    intro items
    induction items with
    | nil => exact fun _ hwhole => draws_blockOf hbody hb hblock hwhole
    | cons item items ih =>
      intro hgives hwhole
      obtain ⟨hitem, hgives⟩ := List.forall_mem_cons.mp hgives
      obtain ⟨hinner, hdraws⟩ := draws_withItem hitem hwhole
      exact hdraws (ih hgives hinner)
  refine draws_itemsAmong hparts ?_ ?_
  · rw [List.forall_mem_singleton, hblock]
    rfl
  · rw [List.flatMap_singleton]
    refine hitems _ ?_ hwhole
    split
    · rename_i clause hclause
      exact ((below_isCode n).named clause (List.mem_of_find?_eq_some hclause)).place.named
    · exact nofun

/-! ## Simple statements -/

/-- The statements that have no suites. -/
def isSimple : Kind → Bool
  | .expressionStatement | .returnStatement | .passStatement | .breakStatement
  | .continueStatement | .importStatement | .importFromStatement | .futureImportStatement
  | .globalStatement | .nonlocalStatement | .raiseStatement | .assertStatement
  | .deleteStatement | .printStatement | .execStatement => true
  | _ => false

section Simple

variable {p : Place Reading}

theorem isCode_withText (f : Field) {use : String → Draft} (huse : ∀ text, (use text).IsCode) :
    (p.withText f use).IsCode :=
  closed_withText closed_isCode f huse

theorem isCode_importItem (r : Reading) : (importItem r).IsCode := by
  unfold importItem
  split
  · apply isCode_withText
    intro module
    apply isCode_withText
    intro name
    have hparts : (all ((dottedParts module).tail.map (.named .loadAttribute ·))).IsCode :=
      isCode_all_map fun part _ => isCode_named _ part
    exact ⟨⟨trivial, trivial⟩, ⟨trivial, hparts⟩, trivial⟩
  · simp [importLevel, importPlain, store]

theorem isCode_importedName (r : Reading) : (importedName r).IsCode := by
  unfold importedName
  split
  · apply isCode_withText
    intro wanted
    apply isCode_withText
    intro name
    simp [store]
  · simp [store]

theorem isCode_importFrom (module : String) (p : Place Reading) :
    (importFrom module p).IsCode := by
  have hnames : (all ((p.fields .name).map importedName)).IsCode :=
    isCode_all_map fun r _ => isCode_importedName r
  unfold importFrom
  split <;> simp [importLevel, hnames]

theorem isCode_expressionPart {r : Reading} (h : Gives IsCode r) : (expressionPart r).IsCode := by
  unfold expressionPart
  split
  · exact closed_assignment closed_isCode h
  · exact closed_augmentedAssignment closed_isCode h.place
  · exact ⟨h.value, by simp⟩

theorem isCode_assertStatement (hp : GivesBelow IsCode p) : (assertStatement p).IsCode := by
  have hnamed := hp.named
  unfold assertStatement
  split
  · trivial
  · rename_i condition rest hparts
    rw [hparts, List.forall_mem_cons] at hnamed
    have hmessage : (optional rest.head? fun message =>
        message.roles.value ++ .counted .callFunction 1).IsCode :=
      closed_optional closed_isCode (fun r hr => hnamed.2 r (List.mem_of_head? hr))
        fun r hr => ⟨hr.value, isCode_counted _ _⟩
    refine ⟨hnamed.1.value, ?_⟩
    show (_ ++ _ : Draft).IsCode
    simp [hmessage]

theorem isCode_deletion {r : Reading} (h : Gives IsCode r) : (deletion r).IsCode := by
  unfold deletion
  split
  · trivial
  · exact closed_attributeOf closed_isCode h.place _
  · exact ⟨closed_operands closed_isCode h.place, by simp⟩
  · exact ⟨h.value, by simp⟩

theorem isCode_deleteStatement (hp : GivesBelow IsCode p) : (deleteStatement p).IsCode := by
  have hnamed := hp.named
  apply isCode_all_map
  intro r hr
  apply isCode_deletion
  unfold deletedParts at hr
  split at hr
  · rename_i only honly
    rw [honly, List.forall_mem_singleton] at hnamed
    split at hr
    · exact hnamed.place.named r hr
    · rw [List.mem_singleton.mp hr]
      exact hnamed
  · exact hnamed r hr

theorem isCode_simple (hp : GivesBelow IsCode p) (hkind : isSimple p.kind = true) :
    (statementBody p).IsCode := by
  have hoperands := closed_operands closed_isCode hp
  have hfirst := closed_firstValue closed_isCode hp
  have hexpressions : (expressionStatement p).IsCode :=
    isCode_all_map fun r hr => isCode_expressionPart (hp.named r hr)
  have himports : (importStatement p).IsCode := isCode_all_map fun r _ => isCode_importItem r
  have himportFrom := fun module => isCode_importFrom module p
  have hnamed : (p.withText .moduleName fun module => importFrom module p).IsCode :=
    isCode_withText _ himportFrom
  have hglobals : (all (p.named.map fun r => .declareGlobal r.text)).IsCode :=
    isCode_all_map fun _ _ => trivial
  have hcollection := closed_collection closed_isCode hp
  have hassert := isCode_assertStatement hp
  have hdelete := isCode_deleteStatement hp
  have hprinted : (all (p.named.map fun r => r.roles.value ++ .plain .printItem)).IsCode :=
    isCode_all_map fun r hr => ⟨(hp.named r hr).value, by simp⟩
  have hprint : (printStatement p).IsCode := ⟨hprinted, by simp⟩
  cases hk : p.kind <;> rw [hk] at hkind <;>
    first
      | cases hkind; done
      | simp only [statementBody, hk]
        first | trivial | simp [*]

end Simple

/-! ## All nodes -/

theorem roles_statement_ofNode (n : Node) :
    (ofNode n).roles.statement = .line n.label.line ++ statementBody (ofNode n).place := by
  have hline : (ofNode n).place.line = n.label.line := line_ofNode n
  rw [roles_ofNode, ← hline]
  rfl

/-- A statement draws what stands below it. -/
theorem draws_statementBody {n : Node} (hfit : n.SuitesFit n.label.kind)
    (h : ∀ c ∈ n.children, AllDrawn c) (hdefines : n.label.kind.defines = false)
    (hblock : n.label.kind ≠ .block) (hwhole : (statementBody (ofNode n).place).Whole) :
    Draws (statementBody (ofNode n).place).parts (Node.itemsAmong n.children) := by
  have hparts : ∀ c ∈ n.suiteParts, AllDrawn c := fun c hc => h c (List.mem_filter.mp hc).1
  have hplace : (ofNode n).place.kind = n.label.kind := kind_ofNode n
  by_cases hsimple : isSimple n.label.kind = true
  · have hcode := isCode_simple (below_isCode n) (hplace ▸ hsimple)
    refine (Draws.of_code hcode).of_thins (Node.thins_itemsAmong ?_)
    intro c hc
    apply Node.thins_of_holdsSuite_eq_false
    have hempty : n.suiteParts = [] := by
      have htakes := hfit.takes
      cases hk : n.label.kind <;> rw [hk] at hsimple htakes <;>
        first
          | cases hsimple; done
          | exact List.map_eq_nil_iff.mp (List.isEmpty_iff.mp htakes)
    rcases hheld : c.holdsSuite with _ | _
    · rfl
    · have hmem : c ∈ n.suiteParts := List.mem_filter.mpr ⟨hc, hheld⟩
      rw [hempty] at hmem
      cases hmem
  · by_cases hrule : hasRule n.label.kind = true
    · -- Compound statements have rules of their own.
      rw [statementBody, hplace] at hwhole ⊢
      cases hk : n.label.kind <;> rw [hk] at hdefines hblock hrule hfit hwhole <;>
        first
          | exact draws_ifStatement hparts hfit hwhole
          | exact draws_whileStatement hparts hfit hwhole
          | exact draws_forStatement hparts hfit hwhole
          | exact draws_tryStatement hparts hfit hwhole
          | exact draws_withStatement hparts hfit hwhole
          | exact absurd rfl hblock
          | cases hrule; done
          | cases hdefines
    · -- And everything else is left to the general rule.
      rw [Bool.not_eq_true] at hrule
      have hbody : statementBody (ofNode n).place = (ofNode n).roles.suite := by
        have hrole : (ofNode n).roles.suite = suite (ofNode n).place := by
          rw [roles_ofNode]
          rfl
        rw [hrole, statementBody, hplace]
        cases hk : n.label.kind <;> rw [hk] at hsimple hrule <;>
          first | rfl | exact absurd rfl hsimple | cases hrule
      rw [hbody] at hwhole ⊢
      exact draws_suite hfit h (suites_of_hasRule_eq_false hfit hrule) hwhole

theorem drawn_of_children {n : Node} (hn : n.fits = true) (h : ∀ c ∈ n.children, AllDrawn c) :
    Drawn n := by
  have hfit := Node.suitesFit_of_fits hn
  refine ⟨hn, ?_, draws_suite hfit h, ?_⟩
  · intro hblock hwhole
    rw [hblock] at hfit
    exact draws_block hfit h hwhole
  · intro hdefines hblock hwhole
    rw [roles_statement_ofNode] at hwhole ⊢
    rw [Node.items_other hdefines hblock]
    exact Draws.line_append _ (draws_statementBody hfit h hdefines hblock hwhole.2)

/-- All statements that fit the grammar draw their definitions in document order. -/
theorem allDrawn_of_fits {n : Node} (hn : n.fits = true) : AllDrawn n := by
  induction n using Node.induction with
  | node n ih =>
    have hchildren : ∀ c ∈ n.children, AllDrawn c :=
      fun c hc => ih c hc ((Node.fits_iff.mp hn).2 c hc)
    exact ⟨drawn_of_children hn hchildren, hchildren⟩

end UnitAtlas.Reading
