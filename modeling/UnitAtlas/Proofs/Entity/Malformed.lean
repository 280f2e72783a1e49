-- What stops the building of a map. Each unit is looked at in its turn, for its line table first
-- and then, when it is taken for a function, for the names of its parameters. The first unit that
-- is malformed is the one that is reported, however many there are.
import UnitAtlas.Proofs.Entity.Preorder
import UnitAtlas.Proofs.Unit.LineTable

namespace UnitAtlas

open CodeUnit Fault LineTable

/-! ## What can be wrong with a unit -/

/-- Fewer names than the counts and flags ask for. -/
def CodeUnit.LacksNames (u : CodeUnit) : Prop :=
  u.info.varNames.length < Parameters.needed u.info

/-- The counts of a unit and the names of both catch-all parameters make a machine word. -/
def CodeUnit.CountsFit (u : CodeUnit) : Prop :=
  u.info.argCount + u.info.kwOnlyCount + 2 < Parameters.countBound

instance (u : CodeUnit) : Decidable u.LacksNames := inferInstanceAs (Decidable (_ < _))

instance (u : CodeUnit) : Decidable u.CountsFit := inferInstanceAs (Decidable (_ < _))

theorem CodeUnit.CountsFit.needed_lt {u : CodeUnit} (h : u.CountsFit) :
    Parameters.needed u.info < Parameters.countBound := by
  have hvarArgs := Bool.toNat_le (u.info.flags.contains .varArgs)
  have hvarKeywords := Bool.toNat_le (u.info.flags.contains .varKeywords)
  unfold CountsFit at h
  unfold Parameters.needed
  omega

/-- What is said of a unit that lacks names. -/
def Parameters.shortage (u : CodeUnit) : DecodeError :=
  .parameters u.info.name (needed u.info) u.info.varNames.length

/-- How an error comes out: a count of names that is no machine word stops the sum. -/
def Parameters.reported : DecodeError → Fault DecodeError
  | .parameters unit needed available =>
    if countBound ≤ needed then .panic "attempt to add with overflow"
    else .error (.parameters unit needed available)
  | e => .error e

theorem Parameters.error?_display (u : CodeUnit) :
    error? (display .function u) = if u.LacksNames then some (reported (shortage u)) else none := by
  show error? (if needed u.info ≤ u.info.varNames.length then _ else _) = _
  by_cases h : u.LacksNames
  · rw [if_neg (Nat.not_le.mpr h), if_pos h]
    unfold reported shortage
    dsimp only
    split <;> rfl
  · rw [if_pos (Nat.not_lt.mp h), if_neg h]
    rfl

theorem LineTable.reported_of_error {u : CodeUnit} {e : DecodeError} (h : resolveSpan u = .error e) :
    Parameters.reported e = .error e := by
  rcases resolveSpan_eq_error.mp h with ⟨-, rfl⟩ | ⟨-, -, rfl⟩ <;> rfl

namespace EntityTree

variable {c : Classifier}

/-- What is wrong with the unit at an address of the tree under `root`. A unit whose table cannot
be read is taken for nothing, so its parameters are not asked for. -/
inductive Malformed (c : Classifier) (root : CodeUnit) (a : List Nat) : DecodeError → Prop
  | odd {u : CodeUnit} (hu : root.at? a = some u) (hodd : u.info.lineTable.length % 2 = 1) :
      Malformed c root a (.oddLineTable u.info.name u.info.lineTable.length)
  | overflow {u : CodeUnit} (hu : root.at? a = some u) (heven : u.info.lineTable.length % 2 = 0)
      (hover : RunsOver u) :
      Malformed c root a (.lineOverflow u.info.name u.info.firstLine.toNat)
  | short {p u : CodeUnit} (ha : a ≠ []) (hp : root.at? a.dropLast = some p)
      (hu : root.at? a = some u) (hfunction : c.isClass p u = .ok false) (hshort : u.LacksNames) :
      Malformed c root a
        (.parameters u.info.name (Parameters.needed u.info) u.info.varNames.length)

/-- What is wrong with the parameters of `u` directly inside `p`, if it is taken for a function. -/
def lacking? (c : Classifier) (p u : CodeUnit) : Option DecodeError :=
  match c.isClass p u with
  | .ok false => if u.LacksNames then some (Parameters.shortage u) else none
  | _ => none

/-- What is wrong at an address, if anything. -/
def malformed? (c : Classifier) (root : CodeUnit) (a : List Nat) : Option DecodeError :=
  (root.at? a).bind fun u =>
    (error? (resolveSpan u)).or <|
      if a = [] then none else (root.at? a.dropLast).bind fun p => lacking? c p u

theorem malformed?_nil (root : CodeUnit) : malformed? c root [] = error? (resolveSpan root) :=
  Option.or_none

theorem malformed?_single {u v : CodeUnit} {i : Nat} (h : u.nested[i]? = some v) :
    malformed? c u [i] = (error? (resolveSpan v)).or (lacking? c u v) := by
  simp [malformed?, h]

theorem malformed?_cons {u v : CodeUnit} {i : Nat} (h : u.nested[i]? = some v) {a : List Nat}
    (ha : a ≠ []) : malformed? c u (i :: a) = malformed? c v a := by
  simp [malformed?, List.dropLast_cons_of_ne_nil ha, h, ha]

theorem lacking?_eq_some {p u : CodeUnit} {e : DecodeError} :
    lacking? c p u = some e ↔
      c.isClass p u = .ok false ∧ u.LacksNames ∧ e = Parameters.shortage u := by
  unfold lacking?
  split
  · rename_i hclass
    by_cases hshort : u.LacksNames
    · simp [hclass, hshort, eq_comm]
    · simp [hshort]
  · rename_i hclass
    simp only [reduceCtorEq, false_iff, not_and]
    exact fun h => absurd h hclass

/-- A unit that is taken for anything has a table that can be read. -/
theorem error?_resolveSpan_of_isClass {p u : CodeUnit} {b : Bool} (h : c.isClass p u = .ok b) :
    error? (resolveSpan u) = none := by
  obtain ⟨range, hrange, -⟩ := Fault.bind_eq_ok.mp h
  obtain ⟨span, hspan, -⟩ := Fault.bind_eq_ok.mp hrange
  exact error?_eq_none.mpr ⟨span, hspan⟩

theorem malformed?_eq_some {root : CodeUnit} {a : List Nat} {e : DecodeError} :
    malformed? c root a = some e ↔ Malformed c root a e := by
  unfold malformed?
  constructor
  · intro h
    obtain ⟨u, hu, h⟩ := Option.bind_eq_some_iff.mp h
    rcases Option.or_eq_some_iff.mp h with htable | ⟨-, h⟩
    · rcases resolveSpan_eq_error.mp (error?_eq_some.mp htable) with ⟨hodd, rfl⟩ | ⟨heven, hover, rfl⟩
      · exact .odd hu hodd
      · exact .overflow hu heven hover
    · split at h
      · cases h
      · rename_i ha
        obtain ⟨p, hp, h⟩ := Option.bind_eq_some_iff.mp h
        obtain ⟨hfunction, hshort, rfl⟩ := lacking?_eq_some.mp h
        exact .short ha hp hu hfunction hshort
  · intro h
    cases h with
    | odd hu hodd =>
      rw [hu, Option.bind_some, resolveSpan_eq_error.mpr (Or.inl ⟨hodd, rfl⟩)]
      rfl
    | overflow hu heven hover =>
      rw [hu, Option.bind_some, resolveSpan_eq_error.mpr (Or.inr ⟨heven, hover, rfl⟩)]
      rfl
    | short ha hp hu hfunction hshort =>
      rw [hu, Option.bind_some, error?_resolveSpan_of_isClass hfunction, if_neg ha, hp]
      exact lacking?_eq_some.mpr ⟨hfunction, hshort, rfl⟩

/-! ## The walk stops at the first malformed unit -/

theorem error?_ofUnit (u : CodeUnit) (kind : UnitKind) (path : AncestryPath) (window : ByteRange) :
    error? (Entity.ofUnit u kind path window) =
      ((error? (resolveSpan u)).map .error).or (error? (Parameters.display kind u)) := by
  rw [← error?_ofError]
  refine error?_bind fun lines _ => ?_
  rw [error?_bind (o := none) fun _ _ => rfl, Option.or_none]

/-- Once its window is found, only the parameters of a nested unit are left to be refused. -/
theorem error?_display_kindOf {parent v : CodeUnit} {range : ByteRange}
    (hrange : Window.extract c.glue parent v = .ok range) :
    error? (Parameters.display (kindOf c parent range) v) =
      (lacking? c parent v).map Parameters.reported := by
  rw [lacking?, isClass_of_extract hrange, kindOf]
  cases c.glueMatches parent.info.code range with
  | true => rfl
  | false =>
    show error? (Parameters.display .function v) = _
    rw [Parameters.error?_display]
    show _ = Option.map Parameters.reported (if v.LacksNames then _ else none)
    split <;> rfl

/-- A nested unit fails by what is wrong with itself, or else by what is below it. -/
theorem error?_belowOne {path : AncestryPath} {parent v : CodeUnit} {breaks : List Breakpoint}
    {o : Option (Fault DecodeError)} (hparent : scan parent = .ok breaks)
    (hinner : ∀ span path, resolveSpan v = .ok span → error? (below c path v) = o) :
    error? (belowOne c path parent (.unit v)) =
      (((error? (resolveSpan v)).or (lacking? c parent v)).map Parameters.reported).or o := by
  rcases hspan : resolveSpan v with e | span
  · have hextract : Window.extract c.glue parent v = .error e := by
      rw [Window.extract, hspan]
      rfl
    rw [belowOne, hextract]
    show some (Fault.error e) = some (Parameters.reported e)
    rw [reported_of_error hspan]
  · obtain ⟨range, hrange⟩ : ∃ range, Window.extract c.glue parent v = .ok range := by
      rw [Window.extract, hspan, hparent]
      exact ⟨_, rfl⟩
    let kind := kindOf c parent range
    let childPath := path.child kind v.info.name
    have hown : error? (Entity.ofUnit v kind childPath range) =
        (lacking? c parent v).map Parameters.reported := by
      rw [error?_ofUnit, hspan, ← error?_display_kindOf hrange]
      rfl
    rw [belowOne, hrange]
    show _ = Option.or (Option.map Parameters.reported (lacking? c parent v)) o
    rw [← hown]
    refine error?_bind (x := Entity.ofUnit v kind childPath range) fun e _ => ?_
    rw [error?_bind (o := none) fun _ _ => rfl, Option.or_none]
    exact hinner span childPath hspan

/-- What is wrong first at the addresses through `v`: with `v` itself, or else below it. -/
theorem head?_turn {u v : CodeUnit} {i : Nat} (hv : u.nested[i]? = some v) :
    ((v.addresses.map (i :: ·)).filterMap (malformed? c u)).head? =
      ((error? (resolveSpan v)).or (lacking? c u v)).or
        (v.inside.filterMap (malformed? c v)).head? := by
  have hinside : v.inside.filterMap (malformed? c u ∘ (i :: ·)) =
      v.inside.filterMap (malformed? c v) := by
    refine List.filterMap_congr fun a ha => ?_
    refine malformed?_cons hv ?_
    rintro rfl
    rw [inside_eq, mem_insideFrom] at ha
    obtain ⟨j, w, rest, hnil, -⟩ := ha
    cases hnil
  rw [List.filterMap_map, addresses, List.filterMap_cons, hinside, Function.comp_apply,
    malformed?_single hv]
  cases (error? (resolveSpan v)).or (lacking? c u v) <;> rfl

theorem error?_belowAll {u : CodeUnit} {breaks : List Breakpoint} (hu : scan u = .ok breaks)
    (ih : ∀ v ∈ u.nested, ∀ span path, resolveSpan v = .ok span →
      error? (below c path v) =
        (v.inside.filterMap (malformed? c v)).head?.map Parameters.reported)
    {next : Nat} {cs : List (Constant CodeUnit)} (hcs : u.nested.drop next = unitsOf cs)
    (path : AncestryPath) :
    error? (belowAll c path u cs) =
      ((insideFrom next cs).filterMap (malformed? c u)).head?.map Parameters.reported := by
  induction cs generalizing next with
  | nil => rfl
  | cons k cs ihcs =>
    have hlater : error? (belowAll c path u (k :: cs)) =
        (error? (belowOne c path u k)).or (error? (belowAll c path u cs)) := by
      rw [belowAll]
      refine error?_bind fun here _ => ?_
      rw [error?_bind (o := none) fun _ _ => rfl, Option.or_none]
    rw [hlater]
    cases k with
    | literal l =>
      rw [insideFrom_literal]
      exact ihcs hcs
    | unit v =>
      obtain ⟨hv, hrest⟩ := getElem?_of_drop hcs
      rw [ihcs hrest, error?_belowOne hu (ih v (List.mem_of_getElem? hv)), insideFrom_unit,
        List.filterMap_append, List.head?_append, head?_turn hv]
      simp only [Option.map_or]

theorem error?_below {u : CodeUnit} {span : LineSpan} (path : AncestryPath)
    (hspan : resolveSpan u = .ok span) :
    error? (below c path u) =
      (u.inside.filterMap (malformed? c u)).head?.map Parameters.reported := by
  induction u using CodeUnit.induction generalizing span path with
  | unit u ih =>
    obtain ⟨breaks, hbreaks⟩ := scan_ok_of_resolveSpan hspan
    rw [inside_eq]
    cases u with
    | mk info consts =>
      rw [below]
      exact error?_belowAll hbreaks (fun v hv span path => ih v hv path) rfl path

theorem error?_build (root : CodeUnit) :
    error? (build c root) =
      (root.addresses.filterMap (malformed? c root)).head?.map Parameters.reported := by
  have hfirst : error? (Entity.ofUnit root .module [⟨.module, root.info.name⟩]
      ⟨0, root.info.code.length⟩) = (error? (resolveSpan root)).map .error := by
    rw [error?_ofUnit]
    exact Option.or_none
  rw [addresses, List.filterMap_cons, malformed?_nil]
  rcases hspan : resolveSpan root with e | span
  · rw [hspan] at hfirst
    rw [build, error?_eq_some.mp hfirst]
    show some (Fault.error e) = some (Parameters.reported e)
    rw [reported_of_error hspan]
  · rw [hspan] at hfirst
    refine (error?_bind fun first _ => ?_).trans (by rw [hfirst]; rfl)
    rw [error?_bind (o := none) fun _ _ => rfl, Option.or_none]
    exact error?_below _ hspan

/-! ## The law -/

/-- In an ascending list, the first value of a partial function is the one at the least place. -/
theorem head?_filterMap_eq_some {β : Type} {f : List Nat → Option β} {as : List (List Nat)}
    (hsorted : as.Pairwise (· < ·)) {y : β} :
    (as.filterMap f).head? = some y ↔
      ∃ a ∈ as, f a = some y ∧ ∀ b ∈ as, (f b).isSome → a ≤ b := by
  rw [List.head?_filterMap, List.findSome?_eq_some_iff]
  constructor
  · rintro ⟨before, a, behind, rfl, ha, hnone⟩
    refine ⟨a, by simp, ha, ?_⟩
    intro b hb hsome
    rcases List.mem_append.mp hb with hb | hb
    · rw [hnone b hb] at hsome
      cases hsome
    · rcases List.mem_cons.mp hb with rfl | hb
      · exact le_refl b
      · exact le_of_lt ((List.pairwise_cons.mp (List.pairwise_append.mp hsorted).2.1).1 b hb)
  · rintro ⟨a, ha, hy, hleast⟩
    obtain ⟨before, behind, rfl⟩ := List.append_of_mem ha
    refine ⟨before, a, behind, rfl, hy, ?_⟩
    intro b hb
    have hlt : b < a :=
      (List.pairwise_append.mp hsorted).2.2 b hb a List.mem_cons_self
    by_contra hsome
    exact absurd hlt (not_lt_of_ge (hleast b (List.mem_append_left _ hb)
      (Option.ne_none_iff_isSome.mp hsome)))

/-- The unit at `a` is malformed by `e`, and no unit before it is malformed. -/
structure FirstMalformed (c : Classifier) (root : CodeUnit) (a : List Nat) (e : DecodeError) :
    Prop where
  malformed : Malformed c root a e
  first : ∀ b e', Malformed c root b e' → a ≤ b

theorem mem_addresses_of_malformed? {root : CodeUnit} {a : List Nat} {e : DecodeError}
    (h : malformed? c root a = some e) : a ∈ root.addresses := by
  obtain ⟨u, hu, -⟩ := Option.bind_eq_some_iff.mp h
  exact mem_addresses.mpr (Option.isSome_of_eq_some hu)

theorem head?_malformed {root : CodeUnit} {e : DecodeError} :
    (root.addresses.filterMap (malformed? c root)).head? = some e ↔
      ∃ a, FirstMalformed c root a e := by
  rw [head?_filterMap_eq_some (pairwise_addresses root)]
  constructor
  · rintro ⟨a, -, ha, hleast⟩
    refine ⟨a, malformed?_eq_some.mp ha, ?_⟩
    intro b e' hb
    have hb := malformed?_eq_some.mpr hb
    exact hleast b (mem_addresses_of_malformed? hb) (Option.isSome_of_eq_some hb)
  · rintro ⟨a, hmalformed, hfirst⟩
    have ha := malformed?_eq_some.mpr hmalformed
    refine ⟨a, mem_addresses_of_malformed? ha, ha, ?_⟩
    intro b _ hb
    obtain ⟨e', hb⟩ := Option.isSome_iff_exists.mp hb
    exact hfirst b e' (malformed?_eq_some.mp hb)

theorem Malformed.exists_first {root : CodeUnit} {a : List Nat} {e : DecodeError}
    (h : Malformed c root a e) : ∃ b e', FirstMalformed c root b e' := by
  rcases hhead : (root.addresses.filterMap (malformed? c root)).head? with _ | e'
  · have hnil := List.head?_eq_none_iff.mp hhead
    have ha := malformed?_eq_some.mpr h
    have hmem : e ∈ root.addresses.filterMap (malformed? c root) :=
      List.mem_filterMap.mpr ⟨a, mem_addresses_of_malformed? ha, ha⟩
    rw [hnil] at hmem
    cases hmem
  · obtain ⟨b, hb⟩ := head?_malformed.mp hhead
    exact ⟨b, e', hb⟩

/-- Each of the three defects makes a unit malformed, if only by one of the others. -/
theorem exists_malformed {root u : CodeUnit} {a : List Nat} (hu : root.at? a = some u)
    (h : u.info.lineTable.length % 2 = 1 ∨ RunsOver u ∨
      ∃ p, a ≠ [] ∧ root.at? a.dropLast = some p ∧ c.isClass p u = .ok false ∧ u.LacksNames) :
    ∃ e, Malformed c root a e := by
  rcases h with hodd | hover | ⟨p, ha, hp, hfunction, hshort⟩
  · exact ⟨_, .odd hu hodd⟩
  · rcases Nat.mod_two_eq_zero_or_one u.info.lineTable.length with heven | hodd
    · exact ⟨_, .overflow hu heven hover⟩
    · exact ⟨_, .odd hu hodd⟩
  · exact ⟨_, .short ha hp hu hfunction hshort⟩

/-- A map is not built just when there is a malformed unit, and the first one says why. -/
theorem build_eq_error {root : CodeUnit} {fault : Fault DecodeError} :
    build c root = .error fault ↔
      ∃ a e, FirstMalformed c root a e ∧ fault = Parameters.reported e := by
  rw [← error?_eq_some, error?_build, Option.map_eq_some_iff]
  constructor
  · rintro ⟨e, he, rfl⟩
    obtain ⟨a, ha⟩ := head?_malformed.mp he
    exact ⟨a, e, ha, rfl⟩
  · rintro ⟨a, e, ha, rfl⟩
    exact ⟨e, head?_malformed.mpr ⟨a, ha⟩, rfl⟩

theorem Malformed.reported_eq {root : CodeUnit} {a : List Nat} {e : DecodeError}
    (h : Malformed c root a e) (hfit : root.Throughout CountsFit) :
    Parameters.reported e = .error e := by
  cases h with
  | odd hu hodd => rfl
  | overflow hu heven hover => rfl
  | short ha hp hu hfunction hshort => exact if_neg (Nat.not_le.mpr (hfit _ _ hu).needed_lt)

/-- As long as the counts of each unit fit, a map is refused just when some unit is malformed, and
the first malformed unit, parents before their nested units and these in the order of the constant
table, is the one that is named, for its table rather than for its parameters. -/
theorem the_first_malformed_unit_is_reported (c : Classifier) (root : CodeUnit)
    (hfit : root.Throughout CountsFit) :
    ((∃ fault, build c root = .error fault) ↔
      ∃ a u, root.at? a = some u ∧
        (u.info.lineTable.length % 2 = 1 ∨ RunsOver u ∨
          ∃ p, a ≠ [] ∧ root.at? a.dropLast = some p ∧ c.isClass p u = .ok false ∧
            u.LacksNames)) ∧
      ∀ fault, build c root = .error fault ↔
        ∃ a e, FirstMalformed c root a e ∧ fault = .error e := by
  have herror : ∀ fault, build c root = .error fault ↔
      ∃ a e, FirstMalformed c root a e ∧ fault = .error e := by
    intro fault
    rw [build_eq_error]
    constructor
    · rintro ⟨a, e, ha, rfl⟩
      exact ⟨a, e, ha, ha.malformed.reported_eq hfit⟩
    · rintro ⟨a, e, ha, rfl⟩
      exact ⟨a, e, ha, (ha.malformed.reported_eq hfit).symm⟩
  refine ⟨?_, herror⟩
  constructor
  · rintro ⟨fault, hfault⟩
    obtain ⟨a, e, ⟨hmalformed, -⟩, -⟩ := (herror fault).mp hfault
    cases hmalformed with
    | odd hu hodd => exact ⟨a, _, hu, Or.inl hodd⟩
    | overflow hu heven hover => exact ⟨a, _, hu, Or.inr (Or.inl hover)⟩
    | short ha hp hu hfunction hshort =>
      exact ⟨a, _, hu, Or.inr (Or.inr ⟨_, ha, hp, hfunction, hshort⟩)⟩
  · rintro ⟨a, u, hu, h⟩
    obtain ⟨e, he⟩ := exists_malformed hu h
    obtain ⟨b, e', hfirst⟩ := he.exists_first
    exact ⟨_, build_eq_error.mpr ⟨b, e', hfirst, rfl⟩⟩

/-! ### A class with a method that lacks a name, before a function with half a pair -/

def shortMethod : CodeUnit :=
  ⟨⟨"m", "m.py", 3, [100, 0, 0, 83], [], [], ["self"], 2, 0, .empty⟩, []⟩

/-- It lacks a name as well, but a class has no parameters. -/
def shortClass : CodeUnit :=
  ⟨⟨"C", "m.py", 2, [100, 0, 0, 132, 0, 0, 90, 0, 0, 82, 83], [0, 1], [], [], 1, 0, .empty⟩,
    [.unit shortMethod]⟩

def halfFunction : CodeUnit := ⟨⟨"f", "m.py", 4, [100, 0, 0, 83], [3], [], [], 0, 0, .empty⟩, []⟩

def brokenModule : CodeUnit :=
  ⟨⟨"<module>", "m.py", 1,
    [100, 0, 0, 102, 0, 0, 100, 1, 0, 132, 0, 0, 131, 0, 0, 89, 90, 0, 0,
      100, 2, 0, 132, 0, 0, 90, 1, 0, 100, 3, 0, 83],
    [0, 1, 19, 2, 9, 2], [], [], 0, 0, .empty⟩,
    [.literal (.str "C"), .unit shortClass, .unit halfFunction, .literal .none]⟩

theorem a_method_is_reported_before_a_later_function :
    brokenModule.Throughout CountsFit ∧
      build ⟨3, [89]⟩ brokenModule = .error (.error (.parameters "m" 2 1)) ∧
      ∃ a, FirstMalformed ⟨3, [89]⟩ brokenModule a (.parameters "m" 2 1) := by
  have hmethod : shortMethod.Throughout CountsFit := throughout_iff.mpr ⟨by decide, nofun⟩
  have hfunction : halfFunction.Throughout CountsFit := throughout_iff.mpr ⟨by decide, nofun⟩
  have hclass : shortClass.Throughout CountsFit :=
    throughout_iff.mpr ⟨by decide, List.forall_mem_singleton.mpr hmethod⟩
  have hfit : brokenModule.Throughout CountsFit :=
    throughout_iff.mpr ⟨by decide,
      List.forall_mem_cons.mpr ⟨hclass, List.forall_mem_singleton.mpr hfunction⟩⟩
  have hbuild : build ⟨3, [89]⟩ brokenModule = .error (.error (.parameters "m" 2 1)) := rfl
  obtain ⟨a, e, hfirst, he⟩ :=
    ((the_first_malformed_unit_is_reported ⟨3, [89]⟩ brokenModule hfit).2 _).mp hbuild
  cases he
  exact ⟨hfit, hbuild, a, hfirst⟩

end EntityTree

end UnitAtlas
