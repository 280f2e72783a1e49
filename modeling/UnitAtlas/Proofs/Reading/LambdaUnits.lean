-- The units of lambdas on their lines. A unit inside another one never starts before it does: those
-- of lambdas start where their lambdas do, which stand below what the unit around them is made of.
import UnitAtlas.Proofs.Reading.CompoundLambdas
import UnitAtlas.Proofs.Reading.NestedUnits

namespace UnitAtlas

open Syntax Draft CodeUnit

/-! ## Lambdas below a node -/

namespace Syntax.Node

variable {m n : Node}

theorem mem_lambdas_cases (h : m ∈ n.lambdas) :
    m = n ∧ n.label.kind = .lambda ∨ ∃ c ∈ n.children, m ∈ c.lambdas := by
  rw [lambdas_eq] at h
  rcases List.mem_append.mp h with h | h
  · left
    split at h
    · rename_i hkind
      exact ⟨List.mem_singleton.mp h, beq_iff_eq.mp hkind⟩
    · cases h
  · obtain ⟨c, hc, hm⟩ := List.mem_flatMap.mp h
    exact Or.inr ⟨c, (List.mem_filter.mp hc).1, hm⟩

theorem within_of_mem_lambdas (h : m ∈ n.lambdas) : m.Within n ∧ m.label.kind = .lambda := by
  induction n using Node.induction with
  | node n ih =>
    rcases mem_lambdas_cases h with ⟨rfl, hkind⟩ | ⟨c, hc, hm⟩
    · exact ⟨.refl, hkind⟩
    · obtain ⟨hwithin, hkind⟩ := ih c hc hm
      exact ⟨.child hc hwithin, hkind⟩

theorem mem_sum_held {cs : List Node} (h : m ∈ (cs.map held).sum) : ∃ c ∈ cs, m ∈ c.held := by
  induction cs with
  | nil => cases h
  | cons c cs ih =>
    rw [List.map_cons, List.sum_cons] at h
    rcases Multiset.mem_add.mp h with h | h
    · exact ⟨c, List.mem_cons_self, h⟩
    · obtain ⟨x, hx, h⟩ := ih h
      exact ⟨x, List.mem_cons_of_mem c hx, h⟩

/-- What is below a node whose lines are in order starts no earlier than the node. -/
theorem Within.sorted (h : m.Within n) (hn : n.lines.Pairwise (· ≤ ·)) :
    (n.label.line :: m.lines).Pairwise (· ≤ ·) := by
  refine List.pairwise_cons.mpr ⟨?_, hn.sublist h.sublist_lines⟩
  intro x hx
  have hmem := h.sublist_lines.subset hx
  rw [lines_eq] at hn hmem
  rcases List.mem_cons.mp hmem with rfl | hmem
  · exact UInt32.le_refl _
  · exact (List.pairwise_cons.mp hn).1 x hmem

end Syntax.Node

/-! ## Lambdas of a draft -/

namespace Draft

/-- What a part makes, the draft makes. -/
theorem lambdas_subset_of_mem_parts {d q : Draft} (h : q ∈ d.parts) : q.lambdas ⊆ d.lambdas := by
  induction d with
  | skip => cases h
  | seq first second ihfirst ihsecond =>
    rcases List.mem_append.mp h with h | h
    · exact fun x hx => Multiset.mem_add.mpr (Or.inl (ihfirst h hx))
    · exact fun x hx => Multiset.mem_add.mpr (Or.inr (ihsecond h hx))
  | block body ih => exact ih h
  | loop body ih => exact ih h
  | _ =>
    rw [List.mem_singleton.mp h]
    exact fun _ hx => hx

/-- A lambda directly inside a unit is made of one that the draft of the unit makes. -/
theorem exists_of_isLambda {filename : String} {shape : UnitShape} {body : Draft} {u v : CodeUnit}
    (h : body.toUnit filename shape = .ok u) (hv : v ∈ u.nested) (hlambda : v.isLambda = true) :
    ∃ part ∈ body.lambdas, part.2.toUnit filename part.1 = .ok v := by
  obtain ⟨inner, code, hpart, hmade⟩ := exists_of_mem_nested h hv
  rw [isLambda_of_toUnit hmade, beq_iff_eq] at hlambda
  refine ⟨(inner, code), lambdas_subset_of_mem_parts hpart ?_, hmade⟩
  rw [lambdas_unit, if_pos hlambda]
  exact Multiset.mem_add.mpr (Or.inl (Multiset.mem_singleton_self _))

end Draft

namespace Reading

variable {filename : String}

/-! ## Units of lambdas -/

/-- The unit is made of the lambda, whose lines are in order from `first` on. -/
structure LambdaOn (filename : String) (first : UInt32) (m : Node) (v : CodeUnit) : Prop where
  makes : (lambdaPart m).2.toUnit filename (lambdaPart m).1 = .ok v
  count : AllCount m
  kind : m.label.kind = .lambda
  sorted : (first :: m.lines).Pairwise (· ≤ ·)

/-- Lambdas directly inside a unit are made of those that its draft is made for. -/
theorem exists_lambdaOn {shape : UnitShape} {body d : Draft} {u v : CodeUnit} {first : UInt32}
    {ns : Multiset Node} (hmade : body.toUnit filename shape = .ok u)
    (hsub : body.lambdas ⊆ d.lambdas) (hyields : Yields d ns) (hwhole : d.Whole)
    (hns : ∀ m ∈ ns, AllCount m ∧ m.label.kind = .lambda ∧ (first :: m.lines).Pairwise (· ≤ ·))
    (hv : v ∈ u.nested) (hlambda : v.isLambda = true) : ∃ m, LambdaOn filename first m v := by
  obtain ⟨part, hpart, hv⟩ := exists_of_isLambda hmade hv hlambda
  have hmem := hsub hpart
  rw [hyields hwhole, Multiset.mem_map] at hmem
  obtain ⟨m, hm, rfl⟩ := hmem
  obtain ⟨hcount, hkind, hsorted⟩ := hns m hm
  exact ⟨m, hv, hcount, hkind, hsorted⟩

namespace LambdaOn

variable {first : UInt32} {m : Node} {v w : CodeUnit}

theorem firstLine (h : LambdaOn filename first m v) : v.info.firstLine = m.label.line :=
  (info_of_toUnit h.makes).2

theorem first_le (h : LambdaOn filename first m v) : first ≤ v.info.firstLine := by
  have hsorted := h.sorted
  rw [Node.lines_eq] at hsorted
  rw [h.firstLine]
  exact (List.pairwise_cons.mp hsorted).1 _ List.mem_cons_self

/-- The value of the lambda is what the lambdas inside are below. -/
theorem inward (h : LambdaOn filename first m v) (hw : w ∈ v.nested) (hlambda : w.isLambda = true) :
    ∃ k, LambdaOn filename v.info.firstLine k w := by
  obtain ⟨hmade, hcount, hkind, hsorted⟩ := id h
  have hfit := hcount.placed.fit (by rw [Node.isParameterList, hkind]; rfl)
  rw [hkind] at hfit
  obtain ⟨-, hbody⟩ := (Bool.and_eq_true _ _).mp hfit
  have hvalue : Yields (lambdaPart m).2 (((m.child? .body).map Node.held).getD 0) := by
    rw [lambdaPart, field?_ofNode m .body]
    rcases hchild : m.child? .body with _ | b
    · exact Yields.of_none rfl
    · have hb := hcount.children b (Node.mem_children_of_child? hchild)
      exact (hb.counts.value ((Option.all_eq_true _ _).mp hbody b hchild)).append_none rfl
  refine exists_lambdaOn hmade (fun _ hx => hx) hvalue (whole_of_toUnit hmade) ?_ hw hlambda
  intro k hk
  rcases hchild : m.child? .body with _ | b
  · rw [hchild] at hk
    cases hk
  · rw [hchild] at hk
    obtain ⟨hwithin, hkindk⟩ := Node.within_of_mem_lambdas (Multiset.mem_coe.mp hk)
    have hbelow := Node.Within.child (Node.mem_children_of_child? hchild) hwithin
    refine ⟨hbelow.keeps (fun _ hc => hc.children) hcount, hkindk, ?_⟩
    rw [h.firstLine]
    exact hbelow.sorted (List.pairwise_cons.mp hsorted).2

end LambdaOn

/-! ## All units inside others -/

/-- No unit directly inside starts before the unit itself. -/
def StartsFirst (p : CodeUnit) : Prop := ∀ v ∈ p.nested, p.info.firstLine ≤ v.info.firstLine

theorem LambdaOn.startsFirst {first : UInt32} {m : Node} {v : CodeUnit}
    (h : LambdaOn filename first m v) (hcode : OfCode filename v) : v.Throughout StartsFirst := by
  induction v using CodeUnit.induction generalizing first m with
  | unit v ih =>
    have hinside : ∀ w ∈ v.nested, ∃ k, LambdaOn filename v.info.firstLine k w := fun w hw =>
      h.inward hw (hcode.nested w hw).isLambda
    refine throughout_iff.mpr ⟨?_, ?_⟩
    · intro w hw
      obtain ⟨k, hk⟩ := hinside w hw
      exact hk.first_le
    · intro w hw
      obtain ⟨k, hk⟩ := hinside w hw
      exact ih w hw hk (hcode.nested w hw)

/-- A unit on its lines that is made for the lambdas below a node. -/
structure Lambdas (filename : String) (n : Node) (u : CodeUnit) : Prop where
  lies : LiesOn filename n u
  count : ∀ c ∈ n.children, AllCount c
  lambdas : ∀ v ∈ u.nested, v.isLambda = true → ∃ m, LambdaOn filename u.info.firstLine m v

namespace Lambdas

variable {n : Node} {u v : CodeUnit}

/-- The code of each definition below makes the lambdas of its decorators and its own. -/
theorem yields_definitionDraft {d : Definition} (hstated : d.IsStated)
    (hstatement : AllCount d.statement) (hkind : d.node.label.kind.isDefinition = true) :
    Yields (definitionDraft d) ((d.decorators.map Node.held).sum + d.node.held) := by
  have hnode := hstated.within.keeps (fun _ hc => AllCount.children hc) hstatement
  have hfit := Node.suitesFit_of_fits hnode.fits
  have hdecorators : ∀ c ∈ d.decorators, AllCount c ∧ c.label.kind = .decorator := by
    intro c hc
    obtain ⟨hchild, hkind⟩ := hstated.of_mem_decorators hc
    exact ⟨hstatement.children c hchild, hkind⟩
  refine Yields.none_append rfl ?_
  cases hk : d.node.label.kind <;> rw [hk] at hkind <;> first | cases hkind; done | skip
  · rw [if_neg (by simp [Definition.isClass, hk])]
    exact yields_functionDefinition hnode.placed hfit hnode.children hk hdecorators
  · rw [if_pos (by simp [Definition.isClass, hk])]
    exact yields_classDefinition hnode.placed hfit hnode.children hk hdecorators

theorem inward (h : Lambdas filename n u) {d : Definition} (hd : d ∈ n.definitions)
    (hv : Makes filename d v) : Lambdas filename d.node v := by
  obtain ⟨hstated, c, hc, hbelow⟩ := Node.isStated_of_mem_definitions h.lies.ordered.fits hd
  obtain ⟨-, hkind⟩ := h.lies.holds.fits_of_mem d (Node.mem_definitions.mp hd)
  have hstatement := hbelow.keeps (fun _ hc => AllCount.children hc) (h.count c hc)
  have hnode := hstated.within.keeps (fun _ hc => AllCount.children hc) hstatement
  refine ⟨h.lies.inward hd hv, hnode.children, ?_⟩
  intro w hw hlambda
  obtain ⟨values, shape, body, makes, hparts, hmade⟩ := id hv
  have hsub : body.lambdas ⊆ (definitionDraft d).lambdas := by
    have hunit : .unit shape body ∈ (definitionDraft d).parts := by simp [hparts.parts]
    refine fun x hx => lambdas_subset_of_mem_parts hunit ?_
    rw [lambdas_unit]
    exact Multiset.mem_add.mpr (Or.inr hx)
  refine exists_lambdaOn hmade hsub (yields_definitionDraft hstated hstatement hkind)
    (h.lies.holds.whole_of_mem hd) ?_ hw hlambda
  -- All these lambdas stand below the statement.
  intro m hm
  obtain ⟨hwithin, hkind⟩ : m.Within d.statement ∧ m.label.kind = .lambda := by
    rcases Multiset.mem_add.mp hm with hm | hm
    · obtain ⟨c, hc, hm⟩ := Node.mem_sum_held hm
      obtain ⟨hwithin, hkind⟩ := Node.within_of_mem_lambdas (Multiset.mem_coe.mp hm)
      exact ⟨.trans hwithin (.child (hstated.of_mem_decorators hc).1 .refl), hkind⟩
    · obtain ⟨hwithin, hkind⟩ := Node.within_of_mem_lambdas (Multiset.mem_coe.mp hm)
      exact ⟨hwithin.trans hstated.within, hkind⟩
  refine ⟨hwithin.keeps (fun _ hc => AllCount.children hc) hstatement, hkind, ?_⟩
  rw [hv.firstLine, h.lies.ordered.line_eq hd]
  exact hwithin.sorted (List.pairwise_cons.mp (h.lies.ordered.sorted_statement hd)).2

theorem startsFirst (h : Lambdas filename n u) : u.Throughout StartsFirst := by
  induction u using CodeUnit.induction generalizing n with
  | unit u ih =>
    refine throughout_iff.mpr ⟨?_, ?_⟩
    · intro v hv
      rcases hlambda : v.isLambda with _ | _
      · obtain ⟨d, hd, hmakes⟩ := h.lies.holds.exists_definition hv hlambda
        rw [hmakes.firstLine]
        exact h.lies.ordered.first_le_line hd
      · obtain ⟨m, hm⟩ := h.lambdas v hv hlambda
        exact hm.first_le
    · intro v hv
      rcases hlambda : v.isLambda with _ | _
      · obtain ⟨d, hd, hmakes⟩ := h.lies.holds.exists_definition hv hlambda
        exact ih v hv (h.inward hd hmakes)
      · obtain ⟨m, hm⟩ := h.lambdas v hv hlambda
        exact hm.startsFirst (h.lies.holds.ofCode_of_isLambda hv hlambda)

end Lambdas

end Reading

end UnitAtlas
