-- What handshakes do to the lookup. A handshake with a separator of one character adds its search
-- paths behind the old ones and replaces the directories that are there, whatever else of it is
-- wrong; any other handshake changes nothing. So over a sequence of handshakes, in file systems
-- that may change between them, the search paths only grow, and only at their end.
import Mathlib.Data.List.Infix
import UnitAtlas.Proofs.Files.Paths
import UnitAtlas.Session.Lookup

namespace UnitAtlas

/-! ## The parts of a text -/

/-- The text is these parts with the separator between them, and no part holds it. -/
structure SplitsInto (separator : Char) (text : String) (parts : List String) : Prop where
  ne_nil : parts ≠ []
  joined : (String.singleton separator).intercalate parts = text
  plain : ∀ part ∈ parts, separator ∉ part.toList

/-- Splitting at a character gives the parts. -/
theorem splitsInto_splitOn (separator : Char) (text : String) :
    SplitsInto separator text ((text.toList.splitOn separator).map String.ofList) where
  ne_nil := by
    rw [ne_eq, List.map_eq_nil_iff]
    exact List.splitOn_ne_nil separator text.toList
  joined := by
    have hid : String.toList ∘ String.ofList = id := funext fun _ => String.toList_ofList
    rw [← String.toList_inj, String.toList_intercalate, String.toList_singleton, List.map_map, hid,
      List.map_id, List.intercalate_splitOn]
  plain := by
    intro part hpart
    obtain ⟨piece, hpiece, rfl⟩ := List.mem_map.mp hpart
    rw [String.toList_ofList]
    exact notMem_of_mem_splitOn hpiece

namespace LookupEnv

/-! ## The directories of a handshake -/

/-- The directories that a handshake tells beside the search paths. -/
inductive PrefixSlot where
  | exec
  | base
  deriving Repr, DecidableEq

namespace PrefixSlot

def label : PrefixSlot → String
  | exec => "exec prefix"
  | base => "prefix"

/-- What a handshake tells for the slot. -/
def told (h : Handshake) : PrefixSlot → String
  | exec => h.execPrefix
  | base => h.basePrefix

/-- What an environment holds in the slot. -/
def held (env : LookupEnv) : PrefixSlot → Option String
  | exec => env.execPrefix
  | base => env.basePrefix

/-- The handshake tells a directory that is there. -/
def Fits (fs : FileSystem) (h : Handshake) (slot : PrefixSlot) : Prop :=
  slot.told h ≠ "" ∧ fs.isDirectory (slot.told h) = true

/-- The handshake tells something else than a directory. -/
def Lacks (fs : FileSystem) (h : Handshake) (slot : PrefixSlot) : Prop :=
  slot.told h ≠ "" ∧ fs.isDirectory (slot.told h) = false

instance (fs : FileSystem) (h : Handshake) (slot : PrefixSlot) : Decidable (Lacks fs h slot) :=
  inferInstanceAs (Decidable (_ ∧ _))

/-- What is no directory, each under its label. -/
def complaints (fs : FileSystem) (h : Handshake) : List String :=
  ([exec, base].filter fun slot => Lacks fs h slot).map fun slot => slot.label ++ " " ++ slot.told h

end PrefixSlot

/-! ## One handshake -/

/-- What a handshake with a separator of one character does. -/
structure Taken (fs : FileSystem) (h : Handshake) (before after : LookupEnv)
    (result : Except HandshakeError Unit) : Prop where
  searchPaths : ∃ separator parts, h.separator = String.singleton separator ∧
    SplitsInto separator h.searchPath parts ∧
    after.searchPaths = before.searchPaths ++ parts.filter (· ≠ "")
  stored : ∀ slot : PrefixSlot, slot.Fits fs h → slot.held after = some (slot.told h)
  kept : ∀ slot : PrefixSlot, ¬ slot.Fits fs h → slot.held after = slot.held before
  succeeds : result = .ok () ↔ ∀ slot : PrefixSlot, ¬ slot.Lacks fs h
  names : ∀ e, result = .error e →
    e.message = "not a directory: " ++ ", ".intercalate (PrefixSlot.complaints fs h)

/-- What a handshake does to an environment, and what comes of it. -/
structure Applied (fs : FileSystem) (h : Handshake) (before after : LookupEnv)
    (result : Except HandshakeError Unit) : Prop where
  silent : h.separator = "" → after = before ∧ result = .ok ()
  refused : h.separator ≠ "" → h.separator.length ≠ 1 → after = before ∧ ∃ e, result = .error e
  taken : h.separator.length = 1 → Taken fs h before after result

variable {fs : FileSystem} {h : Handshake} {env : LookupEnv}

theorem segments_eq (separator : Char) (text : String) :
    segments separator text =
      ((text.toList.splitOn separator).map String.ofList).filter (· ≠ "") := by
  unfold segments
  rw [List.filter_map, List.splitOn_eq_splitOnP]
  refine congrArg _ (List.filter_congr fun piece _ => ?_)
  have hempty : String.ofList piece = "" ↔ piece = [] := String.ofList_inj
  simp only [Function.comp_apply, ne_eq, hempty]
  cases piece <;> rfl

/-- What is no directory is listed under its label. -/
theorem complaints_eq (fs : FileSystem) (h : Handshake) :
    (invalid fs [("exec prefix", h.execPrefix), ("prefix", h.basePrefix)]).map
        (fun (label, raw) => s!"{label} {raw}") = PrefixSlot.complaints fs h := by
  have hlines : [("exec prefix", h.execPrefix), ("prefix", h.basePrefix)] =
      [PrefixSlot.exec, .base].map fun slot => (slot.label, slot.told h) := rfl
  rw [hlines, invalid, List.filter_map, List.map_map, PrefixSlot.complaints]
  refine congrArg₂ _ rfl (List.filter_congr fun slot _ => ?_)
  rw [Bool.eq_iff_iff, decide_eq_true_iff]
  simp [PrefixSlot.Lacks]

theorem complaints_eq_nil_iff :
    PrefixSlot.complaints fs h = [] ↔ ∀ slot : PrefixSlot, ¬ slot.Lacks fs h := by
  unfold PrefixSlot.complaints
  rw [List.map_eq_nil_iff, List.filter_eq_nil_iff]
  simp only [decide_eq_true_eq, List.forall_mem_cons]
  constructor
  · rintro ⟨hexec, hbase, -⟩ slot
    cases slot with
    | exec => exact hexec
    | base => exact hbase
  · intro hall
    exact ⟨hall .exec, hall .base, nofun⟩

/-- The environment behind a handshake that is taken. -/
def afterTaken (fs : FileSystem) (h : Handshake) (separator : Char) (env : LookupEnv) :
    LookupEnv where
  searchPaths := env.searchPaths ++ segments separator h.searchPath
  execPrefix := slot fs h.execPrefix env.execPrefix
  basePrefix := slot fs h.basePrefix env.basePrefix

theorem apply_singleton (fs : FileSystem) (env : LookupEnv) {separator : Char}
    (hseparator : h.separator.toList = [separator]) :
    (env.apply fs h).1 = afterTaken fs h separator env ∧
      ((env.apply fs h).2 = .ok () ↔ PrefixSlot.complaints fs h = []) ∧
      ∀ e, (env.apply fs h).2 = .error e →
        e.message = "not a directory: " ++ ", ".intercalate (PrefixSlot.complaints fs h) := by
  rw [← complaints_eq, List.map_eq_nil_iff]
  unfold apply
  rw [hseparator]
  dsimp only
  rcases invalid fs [("exec prefix", h.execPrefix), ("prefix", h.basePrefix)] with _ | ⟨bad, more⟩
  · exact ⟨rfl, ⟨fun _ => rfl, fun _ => rfl⟩, nofun⟩
  · refine ⟨rfl, ⟨nofun, nofun⟩, ?_⟩
    rintro e ⟨⟩
    rfl

theorem held_afterTaken (separator : Char) (env : LookupEnv) (s : PrefixSlot) :
    s.held (afterTaken fs h separator env) = slot fs (s.told h) (s.held env) := by
  cases s <;> rfl

theorem taken_apply {separator : Char} (hseparator : h.separator.toList = [separator]) :
    Taken fs h env (env.apply fs h).1 (env.apply fs h).2 := by
  obtain ⟨hafter, hsucceeds, hnames⟩ := apply_singleton fs env hseparator
  rw [hafter]
  refine ⟨⟨separator, _, ?_, splitsInto_splitOn separator h.searchPath, ?_⟩, ?_, ?_, ?_, hnames⟩
  · rw [← String.toList_inj, hseparator, String.toList_singleton]
  · rw [← segments_eq]
    rfl
  · intro s hs
    rw [held_afterTaken]
    exact if_pos hs
  · intro s hs
    rw [held_afterTaken]
    exact if_neg hs
  · rw [hsucceeds, complaints_eq_nil_iff]

/-- Each handshake does one of the three. -/
theorem applied_apply (fs : FileSystem) (h : Handshake) (env : LookupEnv) :
    Applied fs h env (env.apply fs h).1 (env.apply fs h).2 := by
  have hempty : h.separator = "" ↔ h.separator.toList = [] := String.toList_eq_nil_iff.symm
  have hlength : h.separator.length = h.separator.toList.length := String.length_toList.symm
  rcases hseparator : h.separator.toList with _ | ⟨separator, _ | ⟨other, rest⟩⟩
  · have happly : env.apply fs h = (env, .ok ()) := by
      unfold apply
      rw [hseparator]
    rw [happly]
    refine ⟨fun _ => ⟨rfl, rfl⟩, fun hne => absurd (hempty.mpr hseparator) hne, fun hone => ?_⟩
    rw [hlength, hseparator] at hone
    cases hone
  · refine ⟨fun hnone => ?_, fun _ hne => ?_, fun _ => taken_apply hseparator⟩
    · rw [hempty.mp hnone] at hseparator
      cases hseparator
    · rw [hlength, hseparator] at hne
      exact absurd rfl hne
  · have happly : env.apply fs h = (env, .error (.badSeparator h.separator)) := by
      unfold apply
      rw [hseparator]
    rw [happly]
    refine ⟨fun hnone => ?_, fun _ _ => ⟨rfl, _, rfl⟩, fun hone => ?_⟩
    · rw [hempty.mp hnone] at hseparator
      cases hseparator
    · rw [hlength, hseparator] at hone
      cases hone

/-- A handshake adds to the search paths at their end, if at all. -/
theorem Applied.searchPaths_grow {after : LookupEnv} {result : Except HandshakeError Unit}
    (happlied : Applied fs h env after result) : env.searchPaths <+: after.searchPaths := by
  by_cases hempty : h.separator = ""
  · rw [(happlied.silent hempty).1]
  · by_cases hone : h.separator.length = 1
    · obtain ⟨separator, parts, -, -, hpaths⟩ := (happlied.taken hone).searchPaths
      exact hpaths ▸ List.prefix_append _ _
    · rw [(happlied.refused hempty hone).1]

/-- What a slot holds has been there before, or is a directory that the handshake told. -/
theorem Applied.held_eq_some {after : LookupEnv} {result : Except HandshakeError Unit}
    (happlied : Applied fs h env after result) {slot : PrefixSlot} {path : String}
    (hheld : slot.held after = some path) :
    slot.held env = some path ∨ slot.told h = path ∧ h.separator.length = 1 ∧ slot.Fits fs h := by
  by_cases hempty : h.separator = ""
  · exact Or.inl ((happlied.silent hempty).1 ▸ hheld)
  · by_cases hone : h.separator.length = 1
    · by_cases hfits : slot.Fits fs h
      · rw [(happlied.taken hone).stored slot hfits, Option.some.injEq] at hheld
        exact Or.inr ⟨hheld, hone, hfits⟩
      · rw [(happlied.taken hone).kept slot hfits] at hheld
        exact Or.inl hheld
    · exact Or.inl ((happlied.refused hempty hone).1 ▸ hheld)

/-! ## Handshakes one after the other -/

/-- A handshake, and the file system that it is applied in. -/
structure Occasion where
  files : FileSystem
  handshake : Handshake

/-- The environment behind handshakes one after the other. -/
def afterAll (env : LookupEnv) (occasions : List Occasion) : LookupEnv :=
  occasions.foldl (fun env o => (env.apply o.files o.handshake).1) env

theorem afterAll_append (env : LookupEnv) (occasions later : List Occasion) :
    env.afterAll (occasions ++ later) = (env.afterAll occasions).afterAll later :=
  List.foldl_append

/-- What the next handshake comes to. -/
theorem afterAll_take_succ (env : LookupEnv) {occasions : List Occasion} {i : Nat} {o : Occasion}
    (ho : occasions[i]? = some o) :
    env.afterAll (occasions.take (i + 1)) =
      ((env.afterAll (occasions.take i)).apply o.files o.handshake).1 := by
  rw [List.take_add_one, ho, afterAll_append]
  rfl

theorem searchPaths_grow_afterAll (env : LookupEnv) (occasions : List Occasion) :
    env.searchPaths <+: (env.afterAll occasions).searchPaths := by
  induction occasions generalizing env with
  | nil => exact List.prefix_rfl
  | cons o occasions ih => exact (applied_apply _ _ _).searchPaths_grow.trans (ih _)

/-- The environment behind fewer of the handshakes has fewer search paths, all at the start. -/
theorem searchPaths_grow_take (env : LookupEnv) (occasions : List Occasion) {i j : Nat}
    (h : i ≤ j) :
    (env.afterAll (occasions.take i)).searchPaths <+:
      (env.afterAll (occasions.take j)).searchPaths := by
  have hsplit : occasions.take j = occasions.take i ++ (occasions.take j).drop i := by
    conv_lhs => rw [← List.take_append_drop i (occasions.take j), List.take_take, Nat.min_eq_left h]
  rw [hsplit, afterAll_append]
  exact searchPaths_grow_afterAll _ _

theorem held_afterAll {env : LookupEnv} {occasions : List Occasion} {slot : PrefixSlot}
    {path : String} (h : slot.held (env.afterAll occasions) = some path) :
    slot.held env = some path ∨ ∃ o ∈ occasions, slot.told o.handshake = path ∧
      o.handshake.separator.length = 1 ∧ slot.Fits o.files o.handshake := by
  induction occasions generalizing env with
  | nil => exact Or.inl h
  | cons o occasions ih =>
    rcases ih h with hheld | ⟨o', ho', hpath⟩
    · rcases (applied_apply _ _ _).held_eq_some hheld with hbefore | hnow
      · exact Or.inl hbefore
      · exact Or.inr ⟨o, List.mem_cons_self, hnow⟩
    · exact Or.inr ⟨o', List.mem_cons_of_mem o ho', hpath⟩

/-- Take any handshakes one after the other. Each of them does to the environment before it what
is said, and what comes of it is said too: nothing behind an empty separator, nothing but an error
behind one of several characters, and otherwise the parts of the search path are added and the
directories that are there are stored. So the search paths only grow at their end, and what
a slot holds was there at the start or was a directory when it was stored. -/
theorem handshakes_only_add (env : LookupEnv) (occasions : List Occasion) :
    (∀ (i : Nat) o, occasions[i]? = some o →
      Applied o.files o.handshake (env.afterAll (occasions.take i))
        (env.afterAll (occasions.take (i + 1)))
        ((env.afterAll (occasions.take i)).apply o.files o.handshake).2) ∧
      (∀ i j, i ≤ j → (env.afterAll (occasions.take i)).searchPaths <+:
        (env.afterAll (occasions.take j)).searchPaths) ∧
      ∀ (slot : PrefixSlot) path, slot.held (env.afterAll occasions) = some path →
        slot.held env = some path ∨ ∃ o ∈ occasions, slot.told o.handshake = path ∧
          o.handshake.separator.length = 1 ∧ slot.Fits o.files o.handshake := by
  refine ⟨fun i o ho => ?_, fun i j hij => searchPaths_grow_take env occasions hij,
    fun slot path hheld => held_afterAll hheld⟩
  rw [afterAll_take_succ env ho]
  exact applied_apply o.files o.handshake _

/-- A handshake with a directory that is there, and one when it is gone. -/
def beforeAndAfterRemoval : List Occasion :=
  [⟨⟨[], [(["d"], .directory)]⟩, ⟨":", "a::b", "d", "x"⟩⟩, ⟨⟨[], []⟩, ⟨":", "c", "d", ""⟩⟩]

theorem a_directory_that_is_gone_stays_stored :
    PrefixSlot.exec.held (afterAll {} beforeAndAfterRemoval) = some "d" ∧
      (PrefixSlot.exec.held {} = some "d" ∨
        ∃ o ∈ beforeAndAfterRemoval, PrefixSlot.exec.told o.handshake = "d" ∧
          o.handshake.separator.length = 1 ∧ PrefixSlot.exec.Fits o.files o.handshake) := by
  have hheld : PrefixSlot.exec.held (afterAll {} beforeAndAfterRemoval) = some "d" := by
    decide +kernel
  exact ⟨hheld, (handshakes_only_add {} beforeAndAfterRemoval).2.2 .exec "d" hheld⟩

end LookupEnv

end UnitAtlas
