-- When two entities have one qualified name. A text is told by its pieces between the marks and by
-- the marks themselves. In a qualified name the pieces are the names below the module, and each
-- mark says whether the element before it takes arguments, so as long as no name holds a mark,
-- nothing else of a path is lost.
import UnitAtlas.Entity.Path

namespace UnitAtlas

/-- Two kinds agree on taking arguments when both or none are functions or methods. -/
theorem UnitKind.takesArguments_eq_iff {k k' : UnitKind} :
    k.takesArguments = k'.takesArguments ↔
      ((k = .function ∨ k = .method) ↔ (k' = .function ∨ k' = .method)) := by
  cases k <;> cases k' <;> decide

namespace AncestryPath

/-! ## Marks -/

/-- The characters that stand between names. -/
def isMark (ch : Char) : Bool := ch == '.' || ch == '@'

/-- The mark behind an element that takes arguments, or that does not. -/
def mark (takesArguments : Bool) : Char := if takesArguments then '@' else '.'

/-- No mark is in the name. -/
def Unmarked (e : PathElement) : Prop := '.' ∉ e.name.toList ∧ '@' ∉ e.name.toList

theorem isMark_mark (b : Bool) : isMark (mark b) = true := by
  cases b <;> rfl

theorem eq_of_mark_eq : ∀ a b : Bool, mark a = mark b → a = b := by decide

theorem toList_separator (kind : UnitKind) :
    (separator kind).toList = [mark kind.takesArguments] := by
  unfold separator mark
  split <;> rfl

theorem Unmarked.isMark_eq_false {e : PathElement} (h : Unmarked e) :
    ∀ ch ∈ e.name.toList, isMark ch = false := by
  intro ch hch
  simp only [isMark, Bool.or_eq_false_iff, beq_eq_false_iff_ne]
  constructor
  · rintro rfl
    exact h.1 hch
  · rintro rfl
    exact h.2 hch

/-! ## Pieces and marks of joined names -/

/-- A list is told by its pieces and by what it was split at. -/
theorem eq_iff_splitOnP_filter {α : Type} (p : α → Bool) (as bs : List α) :
    as = bs ↔ as.splitOnP p = bs.splitOnP p ∧ as.filter p = bs.filter p := by
  constructor
  · rintro rfl
    exact ⟨rfl, rfl⟩
  · rintro ⟨hpieces, hmarks⟩
    rw [← List.splitOnP_spec (p := p) as, ← List.splitOnP_spec (p := p) bs, hpieces, hmarks]

theorem toList_joined_cons (e f : PathElement) (rest : AncestryPath) :
    (joined (e :: f :: rest)).toList =
      e.name.toList ++ mark e.kind.takesArguments :: (joined (f :: rest)).toList := by
  rw [joined_cons_cons, String.toList_append, String.toList_append, toList_separator,
    List.append_assoc]
  rfl

theorem splitOnP_joined {path : AncestryPath} (hne : path ≠ []) (h : ∀ e ∈ path, Unmarked e) :
    (joined path).toList.splitOnP isMark = (path.map (·.name)).map String.toList := by
  induction path with
  | nil => exact absurd rfl hne
  | cons e rest ih =>
    obtain ⟨he, hrest⟩ := List.forall_mem_cons.mp h
    cases rest with
    | nil => exact List.splitOnP_eq_singleton he.isMark_eq_false
    | cons f rest =>
      rw [toList_joined_cons, List.splitOnP_append_cons_of_forall_mem he.isMark_eq_false _
        (isMark_mark _), ih (List.cons_ne_nil f rest) hrest]
      rfl

theorem filter_joined {path : AncestryPath} (h : ∀ e ∈ path, Unmarked e) :
    (joined path).toList.filter isMark =
      (path.dropLast.map (·.kind.takesArguments)).map mark := by
  induction path with
  | nil => rfl
  | cons e rest ih =>
    obtain ⟨he, hrest⟩ := List.forall_mem_cons.mp h
    have hname : e.name.toList.filter isMark = [] := by
      rw [List.filter_eq_nil_iff]
      intro ch hch
      rw [he.isMark_eq_false ch hch]
      exact Bool.false_ne_true
    cases rest with
    | nil => exact hname
    | cons f rest =>
      rw [toList_joined_cons, List.filter_append, hname, List.nil_append,
        List.filter_cons_of_pos (isMark_mark _), ih hrest]
      rfl

theorem joined_eq_joined {p q : AncestryPath} (hp : p ≠ []) (hq : q ≠ [])
    (hpnames : ∀ e ∈ p, Unmarked e) (hqnames : ∀ e ∈ q, Unmarked e) :
    joined p = joined q ↔
      p.map (·.name) = q.map (·.name) ∧
        p.dropLast.map (·.kind.takesArguments) = q.dropLast.map (·.kind.takesArguments) := by
  rw [← String.toList_inj, eq_iff_splitOnP_filter isMark, splitOnP_joined hp hpnames,
    splitOnP_joined hq hqnames, filter_joined hpnames, filter_joined hqnames,
    List.map_inj_right fun _ _ => String.toList_inj.mp, List.map_inj_right eq_of_mark_eq]

/-! ## The law -/

/-- A path from a module down, with names that hold no mark. -/
structure Plain (path : AncestryPath) : Prop where
  module : path.head?.map (·.kind) = some .module
  long : 2 ≤ path.length
  unmarked : ∀ e ∈ path.tail, Unmarked e

/-- The module is left out of the name. -/
theorem Plain.qualifiedName_eq {path : AncestryPath} (h : path.Plain) :
    path.tail ≠ [] ∧ path.qualifiedName = joined path.tail := by
  obtain ⟨hmodule, hlong, -⟩ := h
  match path with
  | [] => cases hmodule
  | [e] => exact absurd hlong (Nat.lt_irrefl 1)
  | ⟨kind, name⟩ :: e :: rest =>
    cases hmodule
    exact ⟨List.cons_ne_nil e rest, rfl⟩

theorem map_eq_map_iff_of_length {α β : Type} {f : α → β} {as bs : List α}
    (h : as.length = bs.length) :
    as.map f = bs.map f ↔ ∀ (i : Nat) (x y : α), as[i]? = some x → bs[i]? = some y → f x = f y := by
  constructor
  · intro hmap i x y hx hy
    have hi := congrArg (·[i]?) hmap
    simp only [List.getElem?_map, hx, hy, Option.map_some, Option.some.injEq] at hi
    exact hi
  · intro hall
    refine List.ext_getElem (by simpa using h) fun i hi hi' => ?_
    rw [List.length_map] at hi hi'
    rw [List.getElem_map, List.getElem_map]
    exact hall i _ _ (List.getElem?_eq_getElem hi) (List.getElem?_eq_getElem hi')

/-- Paths from a module down whose names hold no mark have one qualified name just when they have
the same names below the module, and at each place but the last agree on whether a function or a
method stands there. -/
theorem qualified_names_are_unambiguous (p q : AncestryPath) (hp : p.Plain) (hq : q.Plain) :
    p.qualifiedName = q.qualifiedName ↔
      p.tail.map (·.name) = q.tail.map (·.name) ∧
        ∀ (i : Nat) (x y : PathElement), p.tail.dropLast[i]? = some x →
          q.tail.dropLast[i]? = some y →
            ((x.kind = .function ∨ x.kind = .method) ↔
              (y.kind = .function ∨ y.kind = .method)) := by
  obtain ⟨hpne, hpname⟩ := hp.qualifiedName_eq
  obtain ⟨hqne, hqname⟩ := hq.qualifiedName_eq
  rw [hpname, hqname, joined_eq_joined hpne hqne hp.unmarked hq.unmarked]
  refine and_congr_right fun hnames => ?_
  have hlength : p.tail.length = q.tail.length := by
    simpa using congrArg List.length hnames
  rw [map_eq_map_iff_of_length (by rw [List.length_dropLast, List.length_dropLast, hlength])]
  simp only [UnitKind.takesArguments_eq_iff]

/-- A method in a class and a function inside it, with an empty name at the end. -/
theorem a_method_and_a_function_share_a_name :
    Plain [⟨.module, "m"⟩, ⟨.classBody, "C"⟩, ⟨.method, "f"⟩, ⟨.function, ""⟩] ∧
      Plain [⟨.module, "<module>"⟩, ⟨.unknown, "C"⟩, ⟨.function, "f"⟩, ⟨.classBody, ""⟩] ∧
      qualifiedName [⟨.module, "m"⟩, ⟨.classBody, "C"⟩, ⟨.method, "f"⟩, ⟨.function, ""⟩] =
        qualifiedName [⟨.module, "<module>"⟩, ⟨.unknown, "C"⟩, ⟨.function, "f"⟩,
          ⟨.classBody, ""⟩] := by
  have hp : Plain [⟨.module, "m"⟩, ⟨.classBody, "C"⟩, ⟨.method, "f"⟩, ⟨.function, ""⟩] :=
    ⟨rfl, by decide, by simp [Unmarked]⟩
  have hq : Plain [⟨.module, "<module>"⟩, ⟨.unknown, "C"⟩, ⟨.function, "f"⟩, ⟨.classBody, ""⟩] :=
    ⟨rfl, by decide, by simp [Unmarked]⟩
  refine ⟨hp, hq, (qualified_names_are_unambiguous _ _ hp hq).mpr ⟨rfl, ?_⟩⟩
  intro i x y hx hy
  match i with
  | 0 => cases hx; cases hy; decide
  | 1 => cases hx; cases hy; decide
  | i + 2 => cases hx

end AncestryPath

end UnitAtlas
