-- Looking up names, literals and nested units in the tables of a unit. A lookup gives an index and
-- adds an entry at the end of its table at most, so whatever lookups come later, the index still
-- finds what was asked for; and nothing is entered that was there to be found.
import Mathlib.Data.List.Nodup
import Mathlib.Data.List.Pairwise
import UnitAtlas.Proofs.Draft.Tables

namespace UnitAtlas

open Opcode

/-! ## Requests -/

/-- What is looked up in the tables of a unit. -/
inductive Request where
  | name (s : String)
  | varName (s : String)
  | literal (l : Literal)
  | unit (u : CodeUnit)

/-- The instructions that the index of a request is for. -/
def Request.family : Request → Family
  | .name _ => .named
  | .varName _ => .variable
  | .literal _ | .unit _ => .constant

namespace Tables

/-- The index that a request gets, and the tables behind it. -/
def serve (t : Tables) : Request → Nat × Tables
  | .name s => ((Builder.intern t.names s).1, { t with names := (Builder.intern t.names s).2 })
  | .varName s =>
    ((Builder.intern t.varNames s).1, { t with varNames := (Builder.intern t.varNames s).2 })
  | .literal l =>
    ((Builder.internLiteral t.consts l).1,
      { t with consts := (Builder.internLiteral t.consts l).2 })
  | .unit u => (t.consts.length, { t with consts := t.consts ++ [.unit u] })

/-- There is what a request asks for at an index. A literal may be another one that equals it. -/
def Holds (t : Tables) (i : Nat) : Request → Prop
  | .name s => t.names[i]? = some s
  | .varName s => t.varNames[i]? = some s
  | .literal l => ∃ m, t.consts[i]? = some (.literal m) ∧ m.same l = true
  | .unit u => t.consts[i]? = some (.unit u)

theorem Le.refl (t : Tables) : t.Le t :=
  ⟨List.prefix_refl _, List.prefix_refl _, List.prefix_refl _⟩

theorem Le.trans {t t' t'' : Tables} (h : t.Le t') (h' : t'.Le t'') : t.Le t'' :=
  ⟨h.consts.trans h'.consts, h.names.trans h'.names, h.varNames.trans h'.varNames⟩

theorem Holds.mono {t t' : Tables} {i : Nat} {r : Request} (h : t.Holds i r) (hle : t.Le t') :
    t'.Holds i r := by
  cases r with
  | name s => exact getElem?_of_prefix hle.names h
  | varName s => exact getElem?_of_prefix hle.varNames h
  | literal l =>
    obtain ⟨m, hm, hsame⟩ := h
    exact ⟨m, getElem?_of_prefix hle.consts hm, hsame⟩
  | unit u => exact getElem?_of_prefix hle.consts h

theorem le_serve (t : Tables) (r : Request) : t.Le (t.serve r).2 := by
  cases r with
  | name s => exact ⟨List.prefix_refl _, (Builder.intern_spec t.names s).2, List.prefix_refl _⟩
  | varName s =>
    exact ⟨List.prefix_refl _, List.prefix_refl _, (Builder.intern_spec t.varNames s).2⟩
  | literal l =>
    exact ⟨(Builder.internLiteral_spec t.consts l).2.1, List.prefix_refl _, List.prefix_refl _⟩
  | unit u => exact ⟨List.prefix_append _ _, List.prefix_refl _, List.prefix_refl _⟩

/-- A literal that equals itself gets an entry that equals it. -/
theorem holds_serve (t : Tables) {r : Request}
    (hr : ∀ l, r = .literal l → l.same l = true) : (t.serve r).2.Holds (t.serve r).1 r := by
  cases r with
  | name s => exact Builder.getElem?_intern t.names s
  | varName s => exact Builder.getElem?_intern t.varNames s
  | literal l =>
    obtain ⟨m, hm, rfl | hsame⟩ := Builder.getElem?_internLiteral t.consts l
    · exact ⟨m, hm, hr m rfl⟩
    · exact ⟨m, hm, hsame⟩
  | unit u => exact List.getElem?_concat_length

end Tables

/-! ## Entries are not repeated -/

def Constant.literal? {U : Type} : Constant U → Option Literal
  | .literal l => some l
  | .unit _ => none

/-- The literals that a stretch of a constant table holds. -/
def CodeUnit.literalsOf (cs : List (Constant CodeUnit)) : List Literal :=
  cs.filterMap Constant.literal?

namespace Builder

theorem intern_eq (table : List String) (name : String) :
    (intern table name).2 = if name ∈ table then table else table ++ [name] := by
  unfold intern
  rcases h : table.idxOf? name with _ | i
  · rw [if_neg (List.idxOf?_eq_none_iff.mp h)]
  · rw [if_pos (List.isSome_idxOf?.mp (by rw [h]; rfl))]

theorem nodup_intern {table : List String} (h : table.Nodup) (name : String) :
    (intern table name).2.Nodup := by
  rw [intern_eq]
  split
  · exact h
  · rw [← List.concat_eq_append]
    exact List.Nodup.concat ‹_› h

/-- Behind the parameters, which may have been declared twice, each name is new. -/
theorem intern_behind {ps added : List String} (hadded : added.Nodup)
    (hnew : ∀ s ∈ added, s ∉ ps) (name : String) :
    ∃ added', (intern (ps ++ added) name).2 = ps ++ added' ∧ added'.Nodup ∧
      ∀ s ∈ added', s ∉ ps := by
  rw [intern_eq]
  split
  · exact ⟨added, rfl, hadded, hnew⟩
  · rename_i hname
    obtain ⟨hps, hadded'⟩ := not_or.mp (mt List.mem_append.mpr hname)
    refine ⟨added ++ [name], List.append_assoc _ _ _, ?_, ?_⟩
    · rw [← List.concat_eq_append]
      exact hadded.concat hadded'
    · exact List.forall_mem_append.mpr ⟨hnew, List.forall_mem_singleton.mpr hps⟩

theorem pairwise_internLiteral {consts : List (Constant CodeUnit)} (l : Literal)
    (h : (CodeUnit.literalsOf consts).Pairwise fun l m => l.same m = false) :
    (CodeUnit.literalsOf (internLiteral consts l).2).Pairwise fun l m => l.same m = false := by
  unfold internLiteral
  rcases hfind : consts.findIdx? (isSame l) with _ | i
  · have hnone := List.findIdx?_eq_none_iff.mp hfind
    rw [CodeUnit.literalsOf, List.filterMap_append, List.pairwise_append]
    refine ⟨h, List.pairwise_singleton _ _, ?_⟩
    intro m hm k hk
    obtain ⟨c, hc, hcm⟩ := List.mem_filterMap.mp hm
    obtain rfl : k = l := List.mem_singleton.mp hk
    cases c with
    | literal m' =>
      cases hcm
      exact hnone _ hc
    | unit u => cases hcm
  · exact h

end Builder

/-- No name stands in a table twice, but for parameters, and no two literals are equal. -/
structure Tables.Distinct (parameters : List String) (t : Tables) : Prop where
  names : t.names.Nodup
  varNames : ∃ added, t.varNames = parameters ++ added ∧ added.Nodup ∧ ∀ s ∈ added, s ∉ parameters
  literals : (CodeUnit.literalsOf t.consts).Pairwise fun l m => l.same m = false

theorem Tables.Distinct.serve {parameters : List String} {t : Tables} (h : t.Distinct parameters)
    (r : Request) : (t.serve r).2.Distinct parameters := by
  cases r with
  | name s => exact ⟨Builder.nodup_intern h.names s, h.varNames, h.literals⟩
  | varName s =>
    obtain ⟨added, hvars, hadded, hnew⟩ := h.varNames
    refine ⟨h.names, ?_, h.literals⟩
    show ∃ added', (Builder.intern t.varNames s).2 = _ ∧ _
    rw [hvars]
    exact Builder.intern_behind hadded hnew s
  | literal l => exact ⟨h.names, h.varNames, Builder.pairwise_internLiteral l h.literals⟩
  | unit u =>
    refine ⟨h.names, h.varNames, ?_⟩
    show (CodeUnit.literalsOf (t.consts ++ [.unit u])).Pairwise _
    rw [CodeUnit.literalsOf, List.filterMap_append]
    exact (List.append_nil _).symm ▸ h.literals

/-! ## Lookups one after the other -/

/-- A request, and the tables that it is made of. -/
structure Lookup where
  before : Tables
  request : Request

namespace Lookup

/-- The index that is given. -/
def index (x : Lookup) : Nat := (x.before.serve x.request).1

/-- The tables behind the lookup. -/
def after (x : Lookup) : Tables := (x.before.serve x.request).2

/-- Whether it gives the constant at an index. -/
def takes (i : Nat) (x : Lookup) : Bool := x.request.family == .constant && x.index == i

/-- There is no new constant, or it is the one whose index is given. -/
theorem length_consts_after (x : Lookup) :
    x.after.consts.length = x.before.consts.length ∨
      x.after.consts.length = x.before.consts.length + 1 ∧
        x.request.family = .constant ∧ x.index = x.before.consts.length := by
  obtain ⟨t, r⟩ := x
  cases r with
  | name s => exact Or.inl rfl
  | varName s => exact Or.inl rfl
  | literal l =>
    show (Builder.internLiteral t.consts l).2.length = t.consts.length ∨
      (Builder.internLiteral t.consts l).2.length = t.consts.length + 1 ∧
        Family.constant = .constant ∧ (Builder.internLiteral t.consts l).1 = t.consts.length
    unfold Builder.internLiteral
    split
    · exact Or.inl rfl
    · exact Or.inr ⟨List.length_append, rfl, rfl⟩
  | unit u => exact Or.inr ⟨List.length_append, rfl, rfl⟩

/-- A constant that a lookup does not give is not new in it. -/
theorem entered_of_not_takes (x : Lookup) {i : Nat} (hx : x.takes i = false) :
    i < x.after.consts.length ↔ i < x.before.consts.length := by
  rcases x.length_consts_after with hlength | ⟨hlength, hfamily, hindex⟩
  · rw [hlength]
  · have hne : x.before.consts.length ≠ i := by
      simpa [takes, hfamily, hindex] using hx
    omega

/-- A unit is given to the lookup that asks for it, and is new in it. -/
theorem entered_of_takes (x : Lookup) {i : Nat} (hx : x.takes i = true) {t : Tables}
    (hle : x.after.Le t) {u : CodeUnit} (hi : t.consts[i]? = some (.unit u)) :
    x.request = .unit u ∧ ¬ i < x.before.consts.length ∧ i < x.after.consts.length := by
  obtain ⟨before, r⟩ := x
  obtain ⟨hfamily, hindex⟩ := Bool.and_eq_true_iff.mp hx
  have hindex : (before.serve r).1 = i := of_decide_eq_true hindex
  cases r with
  | name s => cases hfamily
  | varName s => cases hfamily
  | literal l =>
    obtain ⟨m, hm, -⟩ := Builder.getElem?_internLiteral before.consts l
    have hentry := Tables.getElem?_of_prefix hle.consts hm
    rw [show (Builder.internLiteral before.consts l).1 = i from hindex, hi] at hentry
    cases hentry
  | unit v =>
    obtain rfl : before.consts.length = i := hindex
    have hentry := Tables.getElem?_of_prefix hle.consts
      (List.getElem?_concat_length (l := before.consts) (a := .unit v))
    rw [hi] at hentry
    cases hentry
    refine ⟨rfl, Nat.lt_irrefl _, ?_⟩
    show _ < (before.consts ++ [_]).length
    rw [List.length_append]
    exact Nat.lt_add_one _

/-- Lookups that lead from tables to others: each is made of the tables that the one before it left
behind. -/
inductive Leads : Tables → List Lookup → Tables → Prop
  | nil (t : Tables) : Leads t [] t
  | cons (x : Lookup) {xs : List Lookup} {t : Tables} (h : Leads x.after xs t) :
      Leads x.before (x :: xs) t

namespace Leads

variable {t t' t'' : Tables} {xs ys : List Lookup}

theorem append (h : Leads t xs t') (h' : Leads t' ys t'') : Leads t (xs ++ ys) t'' := by
  induction h with
  | nil => exact h'
  | cons x _ ih => exact .cons x (ih h')

theorem le (h : Leads t xs t') : t.Le t' := by
  induction h with
  | nil t => exact Tables.Le.refl t
  | cons x _ ih => exact (x.before.le_serve x.request).trans ih

/-- What a lookup leaves behind is only added to. -/
theorem after_le (h : Leads t xs t') {x : Lookup} (hx : x ∈ xs) : x.after.Le t' := by
  induction h with
  | nil => cases hx
  | cons y h ih =>
    rcases List.mem_cons.mp hx with rfl | hx
    · exact h.le
    · exact ih hx

theorem distinct {parameters : List String} (h : Leads t xs t') (ht : t.Distinct parameters) :
    t'.Distinct parameters := by
  induction h with
  | nil => exact ht
  | cons x _ ih => exact ih (ht.serve x.request)

/-- A unit among the constants is given to one lookup, the one that asked for it; none is given to
another. -/
theorem own (h : Leads t xs t') {i : Nat} {u : CodeUnit} (hi : t'.consts[i]? = some (.unit u)) :
    (xs.filter (takes i)).map request = if i < t.consts.length then [] else [.unit u] := by
  induction h with
  | nil t =>
    rw [if_pos (List.getElem?_eq_some_iff.mp hi).1]
    rfl
  | @cons x xs t' h ih =>
    have hrest := ih hi
    rcases hx : x.takes i with _ | _
    · rw [List.filter_cons_of_neg (by rw [hx]; decide), hrest]
      simp only [x.entered_of_not_takes hx]
    · obtain ⟨hrequest, hnew, hentered⟩ := x.entered_of_takes hx h.le hi
      rw [List.filter_cons_of_pos hx, List.map_cons, hrest, hrequest, if_neg hnew,
        if_pos hentered]

end Leads

end Lookup

end UnitAtlas
