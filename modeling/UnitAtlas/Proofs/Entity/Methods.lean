-- What naming the methods does to a list of entities. An element becomes a method when it is a
-- function directly after a class, as the paths had it before; nothing that is shown changes, and
-- the paths of a map go on fitting together.
import UnitAtlas.Entity.Methods
import UnitAtlas.Proofs.Entity.Preorder

namespace UnitAtlas

namespace AncestryPath

/-! ## One element after another -/

/-- What becomes of an element after one of kind `before`. -/
def named (before : UnitKind) (e : PathElement) : PathElement :=
  ⟨if e.kind = .function ∧ before = .classBody then .method else e.kind, e.name⟩

theorem named_kind_eq_classBody {before : UnitKind} {e : PathElement} :
    (named before e).kind = .classBody ↔ e.kind = .classBody := by
  unfold named
  split
  · rename_i h
    simp [h.1]
  · exact Iff.rfl

theorem takesArguments_named (before : UnitKind) (e : PathElement) :
    (named before e).kind.takesArguments = e.kind.takesArguments := by
  unfold named
  split
  · rename_i h
    rw [h.1]
    rfl
  · rfl

/-- Of what stands before, it only counts whether it is a class. -/
theorem methodsAfter_congr {k k' : UnitKind} (h : k = .classBody ↔ k' = .classBody)
    (path : AncestryPath) : methodsAfter k path = methodsAfter k' path := by
  cases path with
  | nil => rfl
  | cons e rest => simp only [methodsAfter, h]

/-- So an element may look at what stood before it, whether this was renamed or not. -/
theorem methodsAfter_cons (before : UnitKind) (e : PathElement) (rest : AncestryPath) :
    methodsAfter before (e :: rest) = named before e :: methodsAfter e.kind rest := by
  rw [methodsAfter]
  exact congrArg (List.cons _) (methodsAfter_congr named_kind_eq_classBody rest)

theorem named_of_ne {before : UnitKind} (h : before ≠ .classBody) (e : PathElement) :
    named before e = e := by
  rw [named, if_neg fun hclass => h hclass.2]

/-- The first element has nothing before it, and no class for that. -/
theorem labelMethods_eq (path : AncestryPath) : path.labelMethods = methodsAfter .module path := by
  cases path with
  | nil => rfl
  | cons e rest =>
    rw [methodsAfter_cons, named_of_ne (by decide)]
    rfl

/-! ## Whole paths -/

theorem length_methodsAfter (before : UnitKind) (path : AncestryPath) :
    (methodsAfter before path).length = path.length := by
  induction path generalizing before with
  | nil => rfl
  | cons e rest ih => rw [methodsAfter_cons, List.length_cons, List.length_cons, ih]

theorem getElem?_methodsAfter_succ {path : AncestryPath} {i : Nat} {x : PathElement}
    (before : UnitKind) (hx : path[i]? = some x) :
    (methodsAfter before path)[i + 1]? = path[i + 1]?.map (named x.kind) := by
  induction path generalizing before i with
  | nil => cases hx
  | cons e rest ih =>
    rw [methodsAfter_cons, List.getElem?_cons_succ, List.getElem?_cons_succ]
    cases i with
    | succ i => exact ih e.kind hx
    | zero =>
      cases hx
      cases rest with
      | nil => rfl
      | cons f rest =>
        rw [methodsAfter_cons]
        rfl

theorem methodsAfter_methodsAfter (before : UnitKind) (path : AncestryPath) :
    methodsAfter before (methodsAfter before path) = methodsAfter before path := by
  induction path generalizing before with
  | nil => rfl
  | cons e rest ih =>
    have hnamed : named before (named before e) = named before e := by
      unfold named
      split <;> simp_all
    rw [methodsAfter_cons, methodsAfter_cons, hnamed,
      methodsAfter_congr named_kind_eq_classBody, ih]

theorem methodsAfter_take (before : UnitKind) (path : AncestryPath) (n : Nat) :
    methodsAfter before (path.take n) = (methodsAfter before path).take n := by
  induction path generalizing before n with
  | nil => rw [List.take_nil]; exact List.take_nil.symm
  | cons e rest ih =>
    cases n with
    | zero => rfl
    | succ n => rw [List.take_succ_cons, methodsAfter_cons, methodsAfter_cons, ih]; rfl

theorem joined_methodsAfter (before : UnitKind) (path : AncestryPath) :
    joined (methodsAfter before path) = joined path := by
  induction path generalizing before with
  | nil => rfl
  | cons e rest ih =>
    rw [methodsAfter_cons]
    cases rest with
    | nil => rfl
    | cons f rest =>
      have hrest := ih e.kind
      rw [methodsAfter_cons] at hrest ⊢
      rw [joined_cons_cons, joined_cons_cons, hrest, separator, takesArguments_named]
      rfl

theorem labelMethods_labelMethods (path : AncestryPath) :
    path.labelMethods.labelMethods = path.labelMethods := by
  rw [labelMethods_eq, labelMethods_eq, methodsAfter_methodsAfter]

/-- What an element becomes does not hang on what comes behind it. -/
theorem labelMethods_dropLast (path : AncestryPath) :
    labelMethods path.dropLast = path.labelMethods.dropLast := by
  rw [labelMethods_eq, labelMethods_eq, List.dropLast_eq_take, List.dropLast_eq_take,
    methodsAfter_take, length_methodsAfter]

/-- The first element keeps its kind, so a module in front is left out as before. -/
theorem qualifiedName_labelMethods (path : AncestryPath) :
    path.labelMethods.qualifiedName = path.qualifiedName := by
  match path with
  | [] => rfl
  | [e] => rfl
  | ⟨kind, name⟩ :: f :: rest =>
    have hinner := joined_methodsAfter kind (f :: rest)
    have hwhole := joined_methodsAfter .module (⟨kind, name⟩ :: f :: rest)
    rw [← labelMethods_eq] at hwhole
    cases kind with
    | module => exact hinner
    | _ => exact hwhole

/-! ## Which elements become methods -/

/-- At `i` stands a function, directly after a class. -/
def IsMethodAt (path : AncestryPath) (i : Nat) : Prop :=
  ∃ j x y, i = j + 1 ∧ path[j]? = some x ∧ x.kind = .classBody ∧
    path[i]? = some y ∧ y.kind = .function

theorem getElem?_labelMethods_of_isMethodAt {path : AncestryPath} {i : Nat} {e : PathElement}
    (h : path.IsMethodAt i) (he : path[i]? = some e) :
    path.labelMethods[i]? = some ⟨.method, e.name⟩ := by
  obtain ⟨j, x, y, rfl, hx, hclass, hy, hfunction⟩ := h
  cases hy.symm.trans he
  rw [labelMethods_eq, getElem?_methodsAfter_succ _ hx, he, Option.map_some, named,
    if_pos ⟨hfunction, hclass⟩]

theorem getElem?_labelMethods_of_not_isMethodAt {path : AncestryPath} {i : Nat}
    (h : ¬ path.IsMethodAt i) : path.labelMethods[i]? = path[i]? := by
  cases i with
  | zero => cases path <;> rfl
  | succ j =>
    rcases hy : path[j + 1]? with _ | y
    · rw [List.getElem?_eq_none_iff] at hy ⊢
      rwa [labelMethods_eq, length_methodsAfter]
    · obtain ⟨hj, -⟩ := List.getElem?_eq_some_iff.mp hy
      have hx : path[j]? = some path[j] := List.getElem?_eq_getElem (Nat.lt_of_succ_lt hj)
      rw [labelMethods_eq, getElem?_methodsAfter_succ _ hx, hy, Option.map_some, named, if_neg]
      rintro ⟨hfunction, hclass⟩
      exact h ⟨j, _, y, rfl, hx, hclass, hy, hfunction⟩

end AncestryPath

/-! ## Entities -/

/-- The entity `e'` is `e` with its methods named, and its kind read off the path. -/
structure Entity.Labels (e e' : Entity) : Prop where
  method : ∀ i x, e.path.IsMethodAt i → e.path[i]? = some x →
    e'.path[i]? = some ⟨.method, x.name⟩
  other : ∀ i, ¬ e.path.IsMethodAt i → e'.path[i]? = e.path[i]?
  kind : ∀ x, e'.path.getLast? = some x → e'.kind = x.kind
  kind_of_empty : e.path = [] → e'.kind = e.kind
  name : e'.name = e.name
  lines : e'.lines = e.lines
  window : e'.window = e.window
  args : e'.args = e.args
  identity : e'.identity = e.identity

theorem Entity.labels_labelMethods (e : Entity) : e.Labels e.labelMethods where
  method _ _ h hx := AncestryPath.getElem?_labelMethods_of_isMethodAt h hx
  other _ h := AncestryPath.getElem?_labelMethods_of_not_isMethodAt h
  kind x hx := by
    have hx : e.path.labelMethods.getLast? = some x := hx
    rw [Entity.labelMethods, hx]
    rfl
  kind_of_empty h := by
    rw [Entity.labelMethods, h]
    rfl
  name := rfl
  lines := rfl
  window := rfl
  args := rfl
  identity := rfl

theorem Entity.labelMethods_labelMethods (e : Entity) :
    e.labelMethods.labelMethods = e.labelMethods := by
  unfold Entity.labelMethods
  simp only [AncestryPath.labelMethods_labelMethods]
  cases e.path.labelMethods.getLast? <;> rfl

theorem Entity.displayText_labelMethods (e : Entity) :
    e.labelMethods.displayText = e.displayText :=
  congrArg (· ++ e.args) (AncestryPath.qualifiedName_labelMethods e.path)

namespace EntityTree

/-- The entity at a place of the labelled list is the labelled entity of that place. -/
theorem getElem?_labelMethods {entities : List Entity} {i : Nat} {e' : Entity} :
    (labelMethods entities)[i]? = some e' ↔
      ∃ e, entities[i]? = some e ∧ e.labelMethods = e' := by
  rw [labelMethods, List.getElem?_map, Option.map_eq_some_iff]

/-- Naming the methods makes each function directly after a class a method, in every path, and each
entity of the kind that its path then ends with. Nothing else changes, least of all what is shown;
doing it twice is doing it once; and in a map each path still goes on from that of the entity one
step further up. -/
theorem methods_are_named_and_nothing_else (entities : List Entity) :
    (labelMethods entities).length = entities.length ∧
      (∀ (i : Nat) (e e' : Entity), entities[i]? = some e → (labelMethods entities)[i]? = some e' →
        e.Labels e' ∧ e'.displayText = e.displayText) ∧
      labelMethods (labelMethods entities) = labelMethods entities ∧
      ∀ (c : Classifier) (root : CodeUnit), build c root = .ok entities →
        root.addresses.length = (labelMethods entities).length ∧
          ∀ (i : Nat) (a : List Nat) (e' : Entity), root.addresses[i]? = some a → a ≠ [] →
            (labelMethods entities)[i]? = some e' →
              ∃ j < i, ∃ parent', root.addresses[j]? = some a.dropLast ∧
                (labelMethods entities)[j]? = some parent' ∧ e'.path.dropLast = parent'.path := by
  refine ⟨List.length_map _, ?_, ?_, ?_⟩
  · intro i e e' he he'
    obtain ⟨_, h, rfl⟩ := getElem?_labelMethods.mp he'
    cases he.symm.trans h
    exact ⟨e.labels_labelMethods, e.displayText_labelMethods⟩
  · rw [labelMethods, labelMethods, List.map_map]
    exact List.map_congr_left fun e _ => e.labelMethods_labelMethods
  · intro c root h
    refine ⟨(length_addresses h).trans (List.length_map _).symm, ?_⟩
    intro i a e' ha hne he'
    obtain ⟨e, he, rfl⟩ := getElem?_labelMethods.mp he'
    obtain ⟨j, hj, parent, haj, hparent, hpath⟩ := exists_parent h ha he hne
    refine ⟨j, hj, _, haj, getElem?_labelMethods.mpr ⟨parent, hparent, rfl⟩, ?_⟩
    show e.path.labelMethods.dropLast = parent.path.labelMethods
    rw [← AncestryPath.labelMethods_dropLast, hpath, AncestryPath.child, List.dropLast_concat]

/-- A class in a function in a class: only what stands directly in a class is a method. -/
example :
    AncestryPath.labelMethods [⟨.module, "m"⟩, ⟨.classBody, "C"⟩, ⟨.function, "f"⟩,
        ⟨.function, "g"⟩, ⟨.classBody, "D"⟩, ⟨.function, "h"⟩] =
      [⟨.module, "m"⟩, ⟨.classBody, "C"⟩, ⟨.method, "f"⟩, ⟨.function, "g"⟩, ⟨.classBody, "D"⟩,
        ⟨.method, "h"⟩] := by
  decide

end EntityTree

end UnitAtlas
