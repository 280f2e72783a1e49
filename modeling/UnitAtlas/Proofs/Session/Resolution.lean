-- Where requests are found. A relative request is looked for in one place after the other: in the
-- search paths as they were added, in the two directories of the host, and at last where the
-- program runs. The first place that has it wins. Handshakes add search paths behind the others
-- only, so a request that a search path has is found there for good.
import UnitAtlas.Proofs.Session.Lookup

namespace UnitAtlas

namespace LookupEnv

/-! ## Places -/

/-- A place where relative requests are looked for. -/
inductive Place where
  | searchPath (i : Nat)
  | slot (slot : PrefixSlot)
  | here
  deriving Repr, DecidableEq

namespace Place

/-- The path of a request in a place, if the environment has that place. -/
def path? (env : LookupEnv) (request : String) : Place → Option String
  | searchPath i => (env.searchPaths[i]?).map (Path.join · request)
  | slot s => (s.held env).map (Path.join · request)
  | here => some request

/-- The first place is looked at before the second. -/
inductive Before : Place → Place → Prop where
  | added {i j : Nat} (h : i < j) : Before (searchPath i) (searchPath j)
  | searchPath_slot (i : Nat) (s : PrefixSlot) : Before (searchPath i) (slot s)
  | exec_base : Before (slot .exec) (slot .base)
  | searchPath_here (i : Nat) : Before (searchPath i) here
  | slot_here (s : PrefixSlot) : Before (slot s) here

theorem Before.asymm {p q : Place} (h : p.Before q) : ¬ q.Before p := by
  cases h with
  | added hij =>
    rintro (hji | _)
    exact absurd hij hji.asymm
  | searchPath_slot | exec_base | searchPath_here | slot_here => nofun

end Place

/-- The request is at this path in a place, and in no place before it. -/
structure FoundAt (env : LookupEnv) (fs : FileSystem) (request : String) (place : Place)
    (path : String) : Prop where
  path_eq : place.path? env request = some path
  isThere : fs.isThere path = true
  first : ∀ (earlier : Place) p, earlier.Before place → earlier.path? env request = some p →
    fs.isThere p = false

/-! ## Looking in all places -/

variable {env : LookupEnv} {fs : FileSystem} {request path : String} {place : Place}

/-- The places of an environment in their order. -/
def places (env : LookupEnv) : List Place :=
  (List.range env.searchPaths.length).map .searchPath ++ [.slot .exec, .slot .base, .here]

theorem pairwise_places (env : LookupEnv) : env.places.Pairwise Place.Before := by
  unfold places
  rw [List.pairwise_append]
  refine ⟨?_, ?_, ?_⟩
  · rw [List.pairwise_map]
    exact List.pairwise_lt_range.imp Place.Before.added
  · simp only [List.pairwise_cons, List.mem_cons, List.not_mem_nil, or_false, forall_eq_or_imp,
      forall_eq, false_implies, implies_true, List.Pairwise.nil, and_true]
    exact ⟨⟨.exec_base, .slot_here _⟩, .slot_here _⟩
  · intro p hp q hq
    obtain ⟨i, -, rfl⟩ := List.mem_map.mp hp
    simp only [List.mem_cons, List.not_mem_nil, or_false] at hq
    rcases hq with rfl | rfl | rfl
    · exact .searchPath_slot i .exec
    · exact .searchPath_slot i .base
    · exact .searchPath_here i

/-- A place that holds a path is among the places. -/
theorem mem_places (h : place.path? env request = some path) : place ∈ env.places := by
  unfold places
  rw [List.mem_append, List.mem_map]
  cases place with
  | searchPath i =>
    obtain ⟨base, hbase, -⟩ := Option.map_eq_some_iff.mp h
    obtain ⟨hi, -⟩ := List.getElem?_eq_some_iff.mp hbase
    exact Or.inl ⟨i, List.mem_range.mpr hi, rfl⟩
  | slot s => cases s <;> simp
  | here => simp

theorem filterMap_range_getElem? {α β : Type} (xs : List α) (f : α → β) :
    ((List.range xs.length).filterMap fun i => (xs[i]?).map f) = xs.map f := by
  induction xs with
  | nil => rfl
  | cons x xs ih =>
    rw [List.length_cons, List.range_succ_eq_map, List.filterMap_cons, List.filterMap_map]
    simp only [List.getElem?_cons_zero, Option.map_some, Function.comp_def,
      List.getElem?_cons_succ, List.map_cons, ih]

/-- What is tried is the request in each place. -/
theorem candidates_eq (env : LookupEnv) (request : String) :
    env.candidates request = env.places.filterMap (Place.path? env request) := by
  have hsearch : (List.range env.searchPaths.length).filterMap
      (Place.path? env request ∘ Place.searchPath) = env.searchPaths.map (Path.join · request) :=
    filterMap_range_getElem? env.searchPaths _
  unfold candidates places
  rw [List.filterMap_append, List.filterMap_map, hsearch, List.map_append, List.map_append,
    List.append_assoc, List.append_assoc]
  refine congrArg _ ?_
  rcases env with ⟨searchPaths, _ | exec, _ | base⟩ <;> rfl

theorem resolve_of_relative (h : Path.isAbsolute request = false) :
    env.resolve fs request =
      env.places.findSome? fun place => (place.path? env request).filter fs.isThere := by
  unfold resolve
  rw [if_neg (by rw [h]; exact Bool.false_ne_true), candidates_eq]
  induction env.places with
  | nil => rfl
  | cons place places ih =>
    rw [List.findSome?_cons, List.filterMap_cons]
    rcases place.path? env request with _ | path
    · exact ih
    · rw [List.find?_cons]
      cases hthere : fs.isThere path <;> simp [Option.filter, hthere, ih]

/-- The request is found in the place that comes first among those that have it. -/
theorem resolve_eq_some_iff (h : Path.isAbsolute request = false) :
    env.resolve fs request = some path ↔ ∃ place, env.FoundAt fs request place path := by
  have hpairs := env.pairwise_places
  rw [resolve_of_relative h, List.findSome?_eq_some_iff]
  simp only [Option.filter_eq_some_iff, Option.filter_eq_none_iff, Bool.not_eq_true]
  constructor
  · rintro ⟨earlier, place, later, hplaces, ⟨hpath, hthere⟩, hfirst⟩
    refine ⟨place, hpath, hthere, fun p q hbefore hq => hfirst p ?_ q hq⟩
    have hp := mem_places hq
    rw [hplaces] at hp hpairs
    rw [List.mem_append, List.mem_cons] at hp
    obtain ⟨-, hlater, -⟩ := List.pairwise_append.mp hpairs
    rcases hp with hp | rfl | hp
    · exact hp
    · exact absurd hbefore hbefore.asymm
    · exact absurd hbefore ((List.pairwise_cons.mp hlater).1 p hp).asymm
  · rintro ⟨place, hpath, hthere, hfirst⟩
    obtain ⟨earlier, later, hplaces⟩ := List.append_of_mem (mem_places hpath)
    refine ⟨earlier, place, later, hplaces, ⟨hpath, hthere⟩, fun p hp q hq => hfirst p q ?_ hq⟩
    rw [hplaces] at hpairs
    exact (List.pairwise_append.mp hpairs).2.2 p hp place List.mem_cons_self

/-- The request is found nowhere when no place has it. -/
theorem resolve_eq_none_iff (h : Path.isAbsolute request = false) :
    env.resolve fs request = none ↔
      ∀ (place : Place) path, place.path? env request = some path → fs.isThere path = false := by
  rw [resolve_of_relative h, List.findSome?_eq_none_iff]
  simp only [Option.filter_eq_none_iff, Bool.not_eq_true]
  exact ⟨fun hnone place path hpath => hnone place (mem_places hpath) path hpath,
    fun hnone place _ => hnone place⟩

/-! ## Later handshakes -/

/-- More handshakes leave a search path, and those before it, as they are. -/
theorem path?_afterAll {i j : Nat} (hi : i < env.searchPaths.length) (hj : j ≤ i)
    (later : List Occasion) (request : String) :
    (Place.searchPath j).path? (env.afterAll later) request =
      (Place.searchPath j).path? env request := by
  obtain ⟨added, hadded⟩ := searchPaths_grow_afterAll env later
  rw [Place.path?, Place.path?, ← hadded, List.getElem?_append_left (Nat.lt_of_le_of_lt hj hi)]

/-- What a search path has is found there behind any later handshakes. -/
theorem FoundAt.afterAll {i : Nat} (h : env.FoundAt fs request (.searchPath i) path)
    (later : List Occasion) : (env.afterAll later).FoundAt fs request (.searchPath i) path := by
  obtain ⟨hpath, hthere, hfirst⟩ := h
  obtain ⟨base, hbase, -⟩ := Option.map_eq_some_iff.mp hpath
  obtain ⟨hi, -⟩ := List.getElem?_eq_some_iff.mp hbase
  refine ⟨by rwa [path?_afterAll hi le_rfl later], hthere, fun earlier p hbefore hp => ?_⟩
  cases hbefore with
  | added hj =>
    rw [path?_afterAll hi hj.le later] at hp
    exact hfirst _ p (.added hj) hp

/-! ## The law -/

/-- Whatever handshakes an environment has behind it: an absolute request leads to itself or
nowhere, and a relative one to the first of its places that has it, and nowhere only if none has
it. What one of the search paths has is found there also behind any later handshakes, whatever they
store and wherever else the request would be found then. -/
theorem requests_go_to_the_first_place_that_has_them (start : LookupEnv)
    (occasions : List Occasion) (fs : FileSystem) (request : String) :
    let env := start.afterAll occasions
    (Path.isAbsolute request = true →
      env.resolve fs request = if fs.isThere request then some request else none) ∧
    (Path.isAbsolute request = false →
      (∀ path, env.resolve fs request = some path ↔
        ∃ place, env.FoundAt fs request place path) ∧
      (env.resolve fs request = none ↔
        ∀ (place : Place) path, place.path? env request = some path → fs.isThere path = false) ∧
      ∀ i path, env.FoundAt fs request (.searchPath i) path → ∀ later : List Occasion,
        (env.afterAll later).FoundAt fs request (.searchPath i) path ∧
          (env.afterAll later).resolve fs request = some path) := by
  intro env
  refine ⟨fun habsolute => ?_, fun hrelative => ?_⟩
  · unfold resolve
    rw [if_pos habsolute]
  · refine ⟨fun path => resolve_eq_some_iff hrelative, resolve_eq_none_iff hrelative, ?_⟩
    intro i path hfound later
    have hlater := hfound.afterAll later
    exact ⟨hlater, (resolve_eq_some_iff hrelative).mpr ⟨_, hlater⟩⟩

/-- A file that two directories have. -/
def twoCopies : FileSystem :=
  ⟨[], [(["a"], .directory), (["a", "m"], .file []), (["b"], .directory), (["b", "m"], .file [])]⟩

/-- A handshake that tells one of the directories as a search path and the other one as a prefix. -/
def searchInOne : List Occasion := [⟨twoCopies, ⟨":", "x:a", "", "b"⟩⟩]

/-- A handshake that tells the other directory for everything. -/
def searchInTheOther : List Occasion := [⟨twoCopies, ⟨":", "b", "b", "b"⟩⟩]

theorem a_copy_in_a_later_directory_is_passed_over :
    Path.isAbsolute "m" = false ∧
      (afterAll {} searchInOne).FoundAt twoCopies "m" (.searchPath 1) "a/m" ∧
      twoCopies.isThere "b/m" = true ∧
      ((afterAll {} searchInOne).afterAll searchInTheOther).resolve twoCopies "m" =
        some "a/m" := by
  have hrelative : Path.isAbsolute "m" = false := by decide +kernel
  have henv : afterAll {} searchInOne = ⟨["x", "a"], none, some "b"⟩ := by decide +kernel
  have hfirst : twoCopies.isThere "x/m" = false := by decide +kernel
  have hfound : (afterAll {} searchInOne).FoundAt twoCopies "m" (.searchPath 1) "a/m" := by
    rw [henv]
    refine ⟨by decide +kernel, by decide +kernel, fun earlier p hbefore hp => ?_⟩
    cases hbefore with
    | @added j _ hj =>
      obtain rfl : j = 0 := Nat.lt_one_iff.mp hj
      have hjoined : Place.path? ⟨["x", "a"], none, some "b"⟩ "m" (.searchPath 0) = some "x/m" := by
        decide +kernel
      rw [hjoined, Option.some.injEq] at hp
      exact hp ▸ hfirst
  obtain ⟨-, hlaw⟩ := requests_go_to_the_first_place_that_has_them {} searchInOne twoCopies "m"
  obtain ⟨-, -, hstays⟩ := hlaw hrelative
  exact ⟨hrelative, hfound, by decide +kernel, (hstays 1 "a/m" hfound searchInTheOther).2⟩

end LookupEnv

end UnitAtlas
