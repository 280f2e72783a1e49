-- The suites and clauses of compound statements, as the grammar gives them, and where the rules
-- find them: under a field, or among the named children by their kind.
import Mathlib.Data.List.TakeWhile
import UnitAtlas.Proofs.Reading.Nodes
import UnitAtlas.Proofs.Syntax.Suites

namespace UnitAtlas.Reading

open Syntax

/-! ## Single suites -/

section Single

variable {n b : Node}

/-- The suite under a field that is the only suite of a node. -/
theorem child?_of_singleton {as : Kind} (hfit : n.SuitesFit as) (hparts : n.suiteParts = [b])
    {f : Field} (hfield : b.label.field = some f) (hf : f.isSuite = true) :
    n.child? f = some b := by
  rw [hfit.child?_eq (by simp [hparts]) hf, hparts]
  simp [hfield]

theorem field?_of_singleton {as : Kind} (hfit : n.SuitesFit as) (hparts : n.suiteParts = [b])
    {f : Field} (hfield : b.label.field = some f) (hf : f.isSuite = true) :
    (ofNode n).place.field? f = some (ofNode b) := by
  rw [field?_ofNode, child?_of_singleton hfit hparts hfield hf]
  rfl

end Single

/-! ## Branches -/

/-- The parts of an `if`: the suite that its condition guards, and the alternatives. -/
structure BranchParts (n b : Node) (alternates : List Node) : Prop where
  parts : n.suiteParts = b :: alternates
  block : b.label.kind = .block
  body : n.child? .consequence = some b
  others : n.children.filter (·.label.field == some .alternative) = alternates
  kinds : ∀ c ∈ alternates, c.label.kind = .elifClause ∨ c.label.kind = .elseClause

theorem exists_branchParts {n : Node} (hfit : n.SuitesFit .ifStatement) :
    ∃ b alternates, BranchParts n b alternates := by
  have htakes := hfit.takes
  rcases hparts : n.suiteParts with _ | ⟨b, alternates⟩
  · rw [hparts] at htakes
    cases htakes
  rw [hparts] at htakes
  simp only [List.map_cons, Kind.takes, Bool.and_eq_true, beq_iff_eq, Prod.mk.injEq,
    List.all_map, List.all_eq_true, Function.comp_apply] at htakes
  obtain ⟨⟨hblock, hfield⟩, halternates⟩ := htakes
  have hends : ∀ c ∈ alternates, (c.label.kind = .elifClause ∨ c.label.kind = .elseClause) ∧
      c.label.field = some .alternative := by
    intro c hc
    have hends := halternates c hc
    unfold Kind.endsBranch at hends
    split at hends
    · rename_i heq
      exact ⟨Or.inl (congrArg Prod.fst heq), congrArg Prod.snd heq⟩
    · rename_i heq
      exact ⟨Or.inr (congrArg Prod.fst heq), congrArg Prod.snd heq⟩
    · cases hends
  have hne : n.suiteParts ≠ [] := by simp [hparts]
  refine ⟨b, alternates, hparts, hblock, ?_, ?_, fun c hc => (hends c hc).1⟩
  · rw [hfit.child?_eq hne rfl, hparts]
    simp [hfield]
  · rw [hfit.fields_eq hne rfl, hparts, List.filter_cons_of_neg (by simp [hfield]),
      List.filter_eq_self]
    intro c hc
    simp [(hends c hc).2]

/-! ## Loops -/

/-- The parts of a loop: its body, and maybe an `else`. -/
structure LoopParts (n b : Node) (others : List Node) : Prop where
  parts : n.suiteParts = b :: others
  block : b.label.kind = .block
  body : n.child? .body = some b
  orElse : others = [] ∧ n.child? .alternative = none ∨
    ∃ e, others = [e] ∧ e.label.kind = .elseClause ∧ n.child? .alternative = some e

theorem exists_loopParts {n : Node} {k : Kind} (hfit : n.SuitesFit k)
    (hk : k = .whileStatement ∨ k = .forStatement) : ∃ b others, LoopParts n b others := by
  have htakes := hfit.takes
  have hloop : k.takes (n.suiteParts.map fun c => (c.label.kind, c.label.field)) =
      Kind.takes .whileStatement (n.suiteParts.map fun c => (c.label.kind, c.label.field)) := by
    rcases hk with rfl | rfl <;> rfl
  rw [hloop, Kind.takes, Bool.or_eq_true, beq_iff_eq, beq_iff_eq] at htakes
  rcases htakes with htakes | htakes
  · obtain ⟨b, hparts, hblock, hfield⟩ := Node.suiteParts_eq_singleton htakes
    refine ⟨b, [], hparts, hblock, child?_of_singleton hfit hparts hfield rfl, Or.inl ⟨rfl, ?_⟩⟩
    rw [hfit.child?_eq (by simp [hparts]) rfl, hparts]
    simp [hfield]
  · obtain ⟨b, others, hparts, hb, hothers⟩ := List.map_eq_cons_iff.mp htakes
    obtain ⟨e, rfl, he⟩ := List.map_eq_singleton_iff.mp hothers
    rw [Prod.mk.injEq] at hb he
    have hne : n.suiteParts ≠ [] := by simp [hparts]
    refine ⟨b, [e], hparts, hb.1, ?_, Or.inr ⟨e, rfl, he.1, ?_⟩⟩
    · rw [hfit.child?_eq hne rfl, hparts]
      simp [hb.2]
    · rw [hfit.child?_eq hne rfl, hparts]
      simp [hb.2, he.2]

/-! ## Handlers -/

/-- A clause of a `try` has a suite. -/
theorem holdsSuite_of_takes {c : Node} (hfit : c.fits = true)
    (htakes : c.label.kind.takes [] = false) : c.holdsSuite = true := by
  have h := (Node.suitesFit_of_fits hfit).takes
  rcases hparts : c.suiteParts with _ | ⟨b, rest⟩
  · rw [hparts, List.map_nil, htakes] at h
    cases h
  · have hb : b ∈ c.suiteParts := by rw [hparts]; exact List.mem_cons_self
    obtain ⟨hmem, hheld⟩ := List.mem_filter.mp hb
    exact Node.holdsSuite_iff.mpr (Or.inr (Or.inr ⟨b, hmem, hheld⟩))

/-- A handler has one suite. -/
theorem exists_block_of_isHandler {c : Node} (hfits : c.fits = true)
    (hkind : c.label.kind.isHandler = true) :
    ∃ b, c.suiteParts = [b] ∧ b.label.kind = .block ∧
      c.named.filter (·.label.kind == .block) = [b] := by
  have hfit := Node.suitesFit_of_fits hfits
  have hkinds : ((c.suiteParts.map fun c => (c.label.kind, c.label.field)).map Prod.fst) =
      [.block] := by
    have htakes := hfit.takes
    cases hk : c.label.kind <;> rw [hk] at hkind htakes <;>
      first | exact beq_iff_eq.mp htakes | cases hkind
  rw [List.map_map] at hkinds
  obtain ⟨b, hparts, hblock⟩ := List.map_eq_singleton_iff.mp hkinds
  refine ⟨b, hparts, hblock, ?_⟩
  rw [hfit.named_filter (q := (· == .block)), hparts, List.filter_cons_of_pos (by simpa using hblock)]
  · rfl
  · intro d _ hd
    exact Node.holdsSuite_iff.mpr (Or.inl (beq_iff_eq.mp hd))

/-- What stands behind the body of a `try`. -/
theorem endsTry_iff {cs : List Node} (h : Kind.endsTry (cs.map (·.label.kind)) = true) :
    ∃ handlers otherwise final, cs = handlers ++ (otherwise ++ final) ∧
      (∀ c ∈ handlers, c.label.kind.isHandler = true) ∧
      (otherwise = [] ∨
        handlers ≠ [] ∧ ∃ e, otherwise = [e] ∧ e.label.kind = .elseClause) ∧
      (final = [] ∨ ∃ f, final = [f] ∧ f.label.kind = .finallyClause) := by
  have hsplit := List.takeWhile_append_dropWhile (p := fun c : Node => c.label.kind.isHandler)
    (l := cs)
  have hhandlers : ∀ c ∈ cs.takeWhile (fun c => c.label.kind.isHandler),
      c.label.kind.isHandler = true := fun c hc =>
    List.mem_takeWhile_imp (p := fun c : Node => c.label.kind.isHandler) hc
  have hdrop : (cs.map (·.label.kind)).dropWhile Kind.isHandler =
      (cs.dropWhile fun c => c.label.kind.isHandler).map (·.label.kind) :=
    List.dropWhile_map (p := Kind.isHandler) (f := fun c : Node => c.label.kind)
  have hany : ∀ rest : List Node, (∀ c ∈ rest, c.label.kind.isHandler = false) →
      cs.takeWhile (fun c => c.label.kind.isHandler) ++ rest = cs →
      (cs.map (·.label.kind)).any Kind.isHandler = true →
      cs.takeWhile (fun c => c.label.kind.isHandler) ≠ [] := by
    intro rest hrest hcs hany hnil
    rw [hnil, List.nil_append] at hcs
    rw [← hcs, List.any_map, List.any_eq_true] at hany
    obtain ⟨c, hc, hhandler⟩ := hany
    exact absurd hhandler (by simp [hrest c hc])
  unfold Kind.endsTry at h
  rw [hdrop] at h
  generalize (cs.dropWhile fun c => c.label.kind.isHandler) = rest at h hsplit
  split at h
  · rename_i hrest
    rw [List.map_eq_nil_iff] at hrest
    exact ⟨_, [], [], by rw [List.append_nil, ← hrest, hsplit], hhandlers, Or.inl rfl, Or.inl rfl⟩
  · rename_i hrest
    obtain ⟨f, rfl, hf⟩ := List.map_eq_singleton_iff.mp hrest
    exact ⟨_, [], [f], hsplit.symm, hhandlers, Or.inl rfl, Or.inr ⟨f, rfl, hf⟩⟩
  · rename_i hrest
    obtain ⟨e, rfl, he⟩ := List.map_eq_singleton_iff.mp hrest
    refine ⟨_, [e], [], hsplit.symm, hhandlers, Or.inr ⟨?_, e, rfl, he⟩, Or.inl rfl⟩
    refine hany [e] ?_ hsplit h
    rw [List.forall_mem_singleton, he]
    rfl
  · rename_i hrest
    obtain ⟨e, tail, rfl, he, htail⟩ := List.map_eq_cons_iff.mp hrest
    obtain ⟨f, rfl, hf⟩ := List.map_eq_singleton_iff.mp htail
    refine ⟨_, [e], [f], hsplit.symm, hhandlers, Or.inr ⟨?_, e, rfl, he⟩, Or.inr ⟨f, rfl, hf⟩⟩
    refine hany [e, f] ?_ hsplit h
    rw [List.forall_mem_cons, List.forall_mem_singleton, he, hf]
    exact ⟨rfl, rfl⟩
  · cases h

/-- The parts of a `try`: its body, its handlers, and maybe an `else` and a `finally`. -/
structure TryParts (n b : Node) (handlers otherwise final : List Node) : Prop where
  parts : n.suiteParts = b :: (handlers ++ (otherwise ++ final))
  block : b.label.kind = .block
  body : (ofNode n).place.field? .body = some (ofNode b)
  handles : ∀ c ∈ handlers, c.label.kind.isHandler = true
  orElse : otherwise = [] ∨ handlers ≠ [] ∧ ∃ e, otherwise = [e] ∧ e.label.kind = .elseClause
  atEnd : final = [] ∨ ∃ f, final = [f] ∧ f.label.kind = .finallyClause

theorem tryParts_of_suitesFit {n : Node} (hfit : n.SuitesFit .tryStatement) :
    ∃ b handlers otherwise final, TryParts n b handlers otherwise final := by
  have htakes := hfit.takes
  rcases hparts : n.suiteParts with _ | ⟨b, rest⟩
  · rw [hparts] at htakes
    cases htakes
  · rw [hparts] at htakes
    simp only [List.map_cons, Kind.takes, Bool.and_eq_true, beq_iff_eq, Prod.mk.injEq,
      List.map_map] at htakes
    obtain ⟨⟨hblock, hfield⟩, hends⟩ := htakes
    obtain ⟨handlers, otherwise, final, rfl, hhandlers, hotherwise, hfinal⟩ := endsTry_iff hends
    refine ⟨b, handlers, otherwise, final, hparts, hblock, ?_, hhandlers, hotherwise, hfinal⟩
    rw [field?_ofNode, hfit.child?_eq (by simp [hparts]) rfl, hparts]
    simp [hfield]

namespace TryParts

variable {n b : Node} {handlers otherwise final : List Node}

theorem otherwise_kind (h : TryParts n b handlers otherwise final) :
    ∀ c ∈ otherwise, c.label.kind = .elseClause := by
  rcases h.orElse with rfl | ⟨-, e, rfl, he⟩
  · exact nofun
  · exact List.forall_mem_singleton.mpr he

/-- Only handlers let an `else` run. -/
theorem otherwise_eq_nil (h : TryParts n b handlers otherwise final) (hempty : handlers = []) :
    otherwise = [] := by
  rcases h.orElse with hnil | ⟨hne, -⟩
  · exact hnil
  · exact absurd hempty hne

theorem final_kind (h : TryParts n b handlers otherwise final) :
    ∀ c ∈ final, c.label.kind = .finallyClause := by
  rcases h.atEnd with rfl | ⟨f, rfl, hf⟩
  · exact nofun
  · exact List.forall_mem_singleton.mpr hf

/-- Clauses of some kinds are found among the clauses behind the body. -/
theorem filter_clauses (h : TryParts n b handlers otherwise final)
    (hfit : n.SuitesFit .tryStatement) {q : Reading → Bool} (q' : Kind → Bool)
    (hq : ∀ r, q r = q' r.kind) (hblock : q' .block = false)
    (hclause : ∀ k, q' k = true → k.takes [] = false) :
    (ofNode n).place.named.filter q =
      ((handlers ++ (otherwise ++ final)).filter fun c => q' c.label.kind).map ofNode := by
  rw [filter_named_ofNode n q' hq, hfit.named_filter, h.parts,
    List.filter_cons_of_neg (by simp [h.block, hblock])]
  intro c hc hkind
  exact holdsSuite_of_takes hc (hclause _ hkind)

theorem handler_kind (h : TryParts n b handlers otherwise final) {k : Kind}
    (hk : k.isHandler = false) : ∀ c ∈ handlers, ¬ (c.label.kind == k) = true := by
  intro c hc hkind
  have hhandler := h.handles c hc
  rw [beq_iff_eq.mp hkind, hk] at hhandler
  cases hhandler

theorem filter_handlers (h : TryParts n b handlers otherwise final)
    (hfit : n.SuitesFit .tryStatement) :
    (ofNode n).place.named.filter isHandler = handlers.map ofNode := by
  rw [h.filter_clauses hfit Kind.isHandler, List.filter_append,
    List.filter_eq_self.mpr h.handles, List.filter_eq_nil_iff.mpr, List.append_nil]
  · intro c hc
    rcases List.mem_append.mp hc with hc | hc
    · rw [h.otherwise_kind c hc]
      decide
    · rw [h.final_kind c hc]
      decide
  · intro r
    rw [isHandler]
    cases r.kind <;> rfl
  · rfl
  · intro k hk
    cases k <;> first | rfl | cases hk

theorem find_otherwise (h : TryParts n b handlers otherwise final)
    (hfit : n.SuitesFit .tryStatement) :
    (ofNode n).place.named.find? (·.kind == .elseClause) = (otherwise.head?).map ofNode := by
  rw [← List.head?_filter, h.filter_clauses hfit (· == .elseClause), List.filter_append,
    List.filter_append, List.filter_eq_nil_iff.mpr (h.handler_kind rfl),
    List.filter_eq_self.mpr, List.filter_eq_nil_iff.mpr, List.append_nil, List.nil_append,
    List.head?_map]
  · intro c hc
    rw [h.final_kind c hc]
    decide
  · intro c hc
    rw [h.otherwise_kind c hc]
    decide
  · exact fun _ => rfl
  · rfl
  · intro k hk
    rw [beq_iff_eq.mp hk]
    rfl

theorem find_final (h : TryParts n b handlers otherwise final)
    (hfit : n.SuitesFit .tryStatement) :
    (ofNode n).place.named.find? (·.kind == .finallyClause) = (final.head?).map ofNode := by
  rw [← List.head?_filter, h.filter_clauses hfit (· == .finallyClause),
    List.filter_append, List.filter_append, List.filter_eq_nil_iff.mpr (h.handler_kind rfl),
    List.filter_eq_nil_iff.mpr, List.filter_eq_self.mpr, List.nil_append, List.nil_append,
    List.head?_map]
  · intro c hc
    rw [h.final_kind c hc]
    decide
  · intro c hc
    rw [h.otherwise_kind c hc]
    decide
  · exact fun _ => rfl
  · rfl
  · intro k hk
    rw [beq_iff_eq.mp hk]
    rfl

end TryParts

end UnitAtlas.Reading
