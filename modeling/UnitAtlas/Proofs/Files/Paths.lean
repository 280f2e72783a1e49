-- Paths as steps. Their order is total, and two paths that come before each other are the same. A
-- name behind a path is one more step at its end, whether or not the path ends in a slash.
import Mathlib.Data.List.Basic
import UnitAtlas.Files.Path

namespace UnitAtlas

theorem notMem_of_mem_splitOn {α : Type} [DecidableEq α] {a : α} {xs piece : List α}
    (h : piece ∈ xs.splitOn a) : a ∉ piece := by
  induction xs generalizing piece with
  | nil =>
    rw [List.splitOn_nil, List.mem_singleton] at h
    exact h ▸ List.not_mem_nil
  | cons x xs ih =>
    rw [List.splitOn_cons_eq_if_modifyHead] at h
    by_cases hx : x = a
    · rw [if_pos (beq_iff_eq.mpr hx), List.mem_cons] at h
      rcases h with rfl | h
      · exact List.not_mem_nil
      · exact ih h
    · rw [if_neg (mt beq_iff_eq.mp hx)] at h
      cases hpieces : xs.splitOn a with
      | nil => exact absurd hpieces (List.splitOn_ne_nil a xs)
      | cons first later =>
        rw [hpieces, List.modifyHead_cons, List.mem_cons] at h
        rw [hpieces] at ih
        rcases h with rfl | h
        · rw [List.mem_cons, not_or]
          exact ⟨Ne.symm hx, ih List.mem_cons_self⟩
        · exact ih (List.mem_cons_of_mem first h)

namespace Path

/-! ## The order of paths -/

namespace Component

theorem le_total (a b : Component) : (a.le b || b.le a) = true := by
  cases a <;> cases b
  case name.name s t => simpa [le] using String.le_total s t
  all_goals rfl

theorem le_trans {a b c : Component} (hab : a.le b = true) (hbc : b.le c = true) :
    a.le c = true := by
  cases a <;> cases b <;> cases c
  case name.name.name s t u =>
    simp only [le, decide_eq_true_eq] at hab hbc ⊢
    exact String.le_trans hab hbc
  all_goals simp_all [le, rank]

theorem le_antisymm {a b : Component} (hab : a.le b = true) (hba : b.le a = true) : a = b := by
  cases a <;> cases b
  case name.name s t =>
    simp only [le, decide_eq_true_eq] at hab hba
    rw [String.le_antisymm hab hba]
  all_goals simp_all [le, rank]

end Component

theorem leComponents_total (as bs : List Component) :
    (leComponents as bs || leComponents bs as) = true := by
  induction as generalizing bs with
  | nil => rfl
  | cons a as ih =>
    cases bs with
    | nil => rfl
    | cons b bs =>
      by_cases hab : a = b
      · subst hab
        simpa [leComponents] using ih bs
      · simpa [leComponents, hab, Ne.symm hab] using Component.le_total a b

theorem leComponents_trans {as bs cs : List Component} (hab : leComponents as bs = true)
    (hbc : leComponents bs cs = true) : leComponents as cs = true := by
  induction as generalizing bs cs with
  | nil => rfl
  | cons a as ih =>
    cases bs with
    | nil => cases hab
    | cons b bs =>
      cases cs with
      | nil => cases hbc
      | cons c cs =>
        simp only [leComponents] at hab hbc ⊢
        by_cases h : a = b
        · subst h
          by_cases h' : a = c
          · subst h'
            simp only [if_true] at hab hbc ⊢
            exact ih hab hbc
          · rw [if_neg h'] at hbc ⊢
            exact hbc
        · rw [if_neg h] at hab
          by_cases h' : b = c
          · subst h'
            rw [if_neg h]
            exact hab
          · rw [if_neg h'] at hbc
            -- `a` and `c` are equal only if `b` is both before and behind them.
            have hac : a ≠ c := by
              rintro rfl
              exact h (Component.le_antisymm hab hbc)
            rw [if_neg hac]
            exact Component.le_trans hab hbc

theorem leComponents_antisymm {as bs : List Component} (hab : leComponents as bs = true)
    (hba : leComponents bs as = true) : as = bs := by
  induction as generalizing bs with
  | nil =>
    cases bs with
    | nil => rfl
    | cons b bs => cases hba
  | cons a as ih =>
    cases bs with
    | nil => cases hab
    | cons b bs =>
      simp only [leComponents] at hab hba
      by_cases h : a = b
      · subst h
        simp only [if_true] at hab hba
        rw [ih hab hba]
      · rw [if_neg h] at hab
        rw [if_neg (Ne.symm h)] at hba
        exact absurd (Component.le_antisymm hab hba) h

theorem same_iff {a b : String} : same a b = true ↔ components a = components b := by
  unfold same
  exact beq_iff_eq

theorem same_refl (a : String) : same a a = true := same_iff.mpr rfl

theorem same_comm (a b : String) : same a b = same b a := by
  rw [Bool.eq_iff_iff, same_iff, same_iff]
  exact eq_comm

theorem same_eq_of_same {a b : String} (h : same a b = true) : same a = same b := by
  funext c
  rw [same, same, same_iff.mp h]

theorem le_total (a b : String) : (le a b || le b a) = true :=
  leComponents_total (components a) (components b)

theorem le_trans (a b c : String) (hab : le a b = true) (hbc : le b c = true) : le a c = true :=
  leComponents_trans hab hbc

theorem le_of_same {a b : String} (h : same a b = true) : le a b = true := by
  have htotal := le_total a b
  unfold le at htotal ⊢
  rw [same_iff.mp h] at htotal ⊢
  simpa using htotal

/-- One path comes before another one and is not the same. -/
def Precedes (a b : String) : Prop := le a b = true ∧ components a ≠ components b

theorem Precedes.of_le {a b c : String} (hab : le a b = true) (hbc : Precedes b c) :
    Precedes a c := by
  refine ⟨le_trans a b c hab hbc.1, fun hac => hbc.2 ?_⟩
  have hca : le c a = true := le_of_same (same_iff.mpr hac.symm)
  exact leComponents_antisymm hbc.1 (le_trans c a b hca hab)

/-! ## Names behind a path -/

theorem noSlash_of_mem_parts {path part : String} (h : part ∈ parts path) : '/' ∉ part.toList := by
  obtain ⟨piece, hpiece, rfl⟩ := List.mem_map.mp h
  rw [String.toList_ofList]
  exact notMem_of_mem_splitOn hpiece

theorem mem_toList_of_mem_parts {path part : String} (h : part ∈ parts path) {c : Char}
    (hc : c ∈ part.toList) : c ∈ path.toList := by
  obtain ⟨piece, hpiece, rfl⟩ := List.mem_map.mp h
  rw [String.toList_ofList] at hc
  obtain ⟨i, hi⟩ := List.mem_iff_getElem?.mp hpiece
  have hjoined : ['/'].intercalate (path.toList.splitOn '/') = path.toList :=
    List.intercalate_splitOn '/'
  rw [← hjoined, List.intercalate, List.mem_flatten]
  exact ⟨piece, List.mem_iff_getElem?.mpr ⟨2 * i, List.getElem?_intersperse_two_mul.trans hi⟩, hc⟩

/-- Text that can be the name of a file. -/
structure IsName (name : String) : Prop where
  noSlash : '/' ∉ name.toList
  noZero : '\x00' ∉ name.toList
  notEmpty : name ≠ ""
  notDot : name ≠ "."
  notDots : name ≠ ".."

instance (name : String) : Decidable (IsName name) :=
  decidable_of_iff ('/' ∉ name.toList ∧ '\x00' ∉ name.toList ∧ name ≠ "" ∧ name ≠ "." ∧ name ≠ "..")
    ⟨fun ⟨hslash, hzero, hempty, hdot, hdots⟩ => ⟨hslash, hzero, hempty, hdot, hdots⟩,
      fun ⟨hslash, hzero, hempty, hdot, hdots⟩ => ⟨hslash, hzero, hempty, hdot, hdots⟩⟩

theorem isAbsolute_iff {path : String} :
    isAbsolute path = true ↔ ∃ rest, path.toList = '/' :: rest := by
  unfold isAbsolute
  rw [String.startsWith_string_iff]
  constructor
  · rintro ⟨rest, h⟩
    exact ⟨rest, h.symm⟩
  · rintro ⟨rest, h⟩
    exact ⟨rest, h.symm⟩

theorem endsWith_slash_iff {path : String} :
    path.endsWith "/" = true ↔ ∃ front, path.toList = front ++ ['/'] := by
  rw [String.endsWith, String.Slice.endsWith_string_iff, String.copy_toSlice]
  constructor
  · rintro ⟨front, h⟩
    exact ⟨front, h.symm⟩
  · rintro ⟨front, h⟩
    exact ⟨front, h.symm⟩

section

variable {name : String} (hname : IsName name)

include hname

theorem parts_name : parts name = [name] := by
  unfold parts
  rw [List.splitOn_eq_singleton hname.noSlash, List.map_singleton, String.ofList_toList]

theorem component_name : component? name = some (.name name) := by
  unfold component?
  rw [if_neg (not_or.mpr ⟨hname.notEmpty, hname.notDot⟩), if_neg hname.notDots]

theorem not_isAbsolute_name : isAbsolute name = false := by
  rw [Bool.eq_false_iff]
  intro h
  obtain ⟨rest, hrest⟩ := isAbsolute_iff.mp h
  exact hname.noSlash (hrest ▸ List.mem_cons_self)

/-- A name stands alone behind the empty path. Elsewhere it comes after a slash, which is added
where the path does not end in one. -/
theorem join_cases (path : String) : path = "" ∧ join path name = name ∨ path ≠ "" ∧
    ∃ front, (path.toList = front ∨ path.toList = front ++ ['/']) ∧
      (join path name).toList = front ++ '/' :: name.toList := by
  unfold join
  rw [not_isAbsolute_name hname, if_neg Bool.false_ne_true]
  by_cases hempty : path = ""
  · subst hempty
    exact Or.inl ⟨rfl, by simp⟩
  · refine Or.inr ⟨hempty, ?_⟩
    by_cases hslash : path.endsWith "/" = true
    · obtain ⟨front, hfront⟩ := endsWith_slash_iff.mp hslash
      refine ⟨front, Or.inr hfront, ?_⟩
      rw [if_pos (by rw [hslash, Bool.or_true]), String.toList_append, hfront, List.append_assoc]
      rfl
    · refine ⟨path.toList, Or.inl rfl, ?_⟩
      rw [if_neg (by simpa [hslash] using hempty), String.toList_append, String.toList_append,
        List.append_assoc]
      rfl

theorem join_ne_empty (path : String) : join path name ≠ "" := by
  rcases join_cases hname path with ⟨-, hjoin⟩ | ⟨-, front, -, htext⟩
  · rw [hjoin]
    exact hname.notEmpty
  · intro h
    simp [h] at htext

theorem noZero_join {path : String} (h : '\x00' ∉ path.toList) :
    '\x00' ∉ (join path name).toList := by
  rcases join_cases hname path with ⟨-, hjoin⟩ | ⟨-, front, hfront, htext⟩
  · rw [hjoin]
    exact hname.noZero
  · have hzero : '\x00' ∉ front := by
      rcases hfront with hfront | hfront <;> rw [hfront] at h
      · exact h
      · exact fun hmem => h (List.mem_append_left _ hmem)
    rw [htext]
    simp [hzero, hname.noZero]

theorem isAbsolute_join (path : String) : isAbsolute (join path name) = isAbsolute path := by
  rcases join_cases hname path with ⟨rfl, hjoin⟩ | ⟨hempty, front, hfront, hjoin⟩
  · rw [hjoin, not_isAbsolute_name hname]
    rfl
  · rw [Bool.eq_iff_iff, isAbsolute_iff, isAbsolute_iff, hjoin]
    have hsolid : path.toList ≠ [] := mt String.toList_eq_nil_iff.mp hempty
    rcases hfront with hfront | hfront <;> rw [hfront] at hsolid ⊢ <;> cases front
    · exact absurd rfl hsolid
    · simp
    · simp
    · simp

/-- A name behind a path is one more part. It takes the place of the empty part that a slash at the
end of the path leaves. -/
theorem exists_parts_join (path : String) : ∃ ps, (parts path = ps ∨ parts path = ps ++ [""]) ∧
    parts (join path name) = ps ++ [name] := by
  rcases join_cases hname path with ⟨rfl, hjoin⟩ | ⟨-, front, hfront, hjoin⟩
  · exact ⟨[], Or.inr rfl, by rw [hjoin, parts_name hname, List.nil_append]⟩
  · refine ⟨(front.splitOn '/').map String.ofList, ?_, ?_⟩
    · rcases hfront with hfront | hfront
      · left
        rw [parts, hfront]
      · right
        rw [parts, hfront, List.splitOn_append_cons_self, List.splitOn_nil, List.map_append]
        rfl
    · rw [parts, hjoin, List.splitOn_append_cons_self, List.splitOn_eq_singleton hname.noSlash,
        List.map_append, List.map_singleton, String.ofList_toList]

/-- The dot at the start of a path is in its first part, which stays where it is. -/
theorem head_parts_join (path : String) :
    (parts (join path name)).head? = some "." ↔ (parts path).head? = some "." := by
  obtain ⟨ps, hpath, hjoin⟩ := exists_parts_join hname path
  rw [hjoin]
  cases ps with
  | nil =>
    have hdot := hname.notDot
    rcases hpath with hpath | hpath <;> simp [hpath, hdot]
  | cons p ps => rcases hpath with hpath | hpath <;> simp [hpath]

/-- A name behind a path is one more step. -/
theorem components_join (path : String) :
    components (join path name) = components path ++ [.name name] := by
  obtain ⟨ps, hpath, hjoin⟩ := exists_parts_join hname path
  have hsteps : (parts path).filterMap component? = ps.filterMap component? := by
    rcases hpath with hpath | hpath
    · rw [hpath]
    · rw [hpath, List.filterMap_append]
      exact List.append_nil _
  unfold components
  simp only [isAbsolute_join hname, head_parts_join hname]
  rw [hsteps, hjoin, List.filterMap_append, List.append_assoc]
  congr
  simp [component_name hname]

end

/-- The path that names lead to, one below the other. -/
def below (path : String) (names : List String) : String := names.foldl join path

theorem components_below (path : String) {names : List String}
    (hnames : ∀ name ∈ names, IsName name) :
    components (below path names) = components path ++ names.map .name := by
  induction names generalizing path with
  | nil => exact (List.append_nil _).symm
  | cons name names ih =>
    obtain ⟨hname, hrest⟩ := List.forall_mem_cons.mp hnames
    rw [below, List.foldl_cons, ← below, ih (join path name) hrest, components_join hname,
      List.append_assoc, List.singleton_append, List.map_cons]

/-- What is below one path is the same only under the same text. -/
theorem below_eq_of_same {path : String} {names others : List String}
    (hnames : ∀ name ∈ names, IsName name) (hothers : ∀ name ∈ others, IsName name)
    (h : same (below path names) (below path others) = true) :
    below path names = below path others := by
  have hsteps := same_iff.mp h
  rw [components_below path hnames, components_below path hothers] at hsteps
  have hinjective : Function.Injective Component.name := fun _ _ h => Component.name.inj h
  rw [hinjective.list_map (List.append_cancel_left hsteps)]

end Path

end UnitAtlas
