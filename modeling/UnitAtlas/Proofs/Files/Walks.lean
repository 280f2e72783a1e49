-- Walks of directories. A walk delivers a file exactly if names lead down to it, no ignore file
-- leaves out one of them and the file is a source file.
import Mathlib.Data.List.Basic
import Mathlib.Data.List.Perm.Subperm
import UnitAtlas.Files.Walk
import UnitAtlas.Proofs.Files.Sound

namespace UnitAtlas

/-! ## Following a name -/

namespace FileSystem

theorem isThere_of_isDirectory {fs : FileSystem} {path : String} (h : fs.isDirectory path = true) :
    fs.isThere path = true := by
  unfold isThere
  rw [beq_iff_eq.mp h]
  rfl

theorem followAll_concat (fs : FileSystem) (spot : Location) (ps : List String) (part : String) :
    fs.followAll spot (ps ++ [part]) = (fs.followAll spot ps).bind (fs.follow · part) := by
  simp only [followAll, List.foldlM_append, List.foldlM_cons, List.foldlM_nil, bind_pure]
  rfl

/-- The empty part behind a slash leads nowhere. -/
theorem follow_empty_eq_ok {fs : FileSystem} {spot target : Location}
    (h : fs.follow spot "" = .ok target) : spot = target := by
  unfold follow at h
  split at h
  · cases h
  · cases h
  · rw [if_pos (Or.inl rfl)] at h
    cases h
    rfl

theorem follow_name {fs : FileSystem} {spot : Location} {name : String} {e : FileEntry}
    (hname : Path.IsName name) (hdirectory : fs.entry? spot = some .directory)
    (he : fs.entry? (spot ++ [name]) = some e) : fs.follow spot name = .ok (spot ++ [name]) := by
  unfold follow
  rw [hdirectory]
  dsimp only
  rw [if_neg (not_or.mpr ⟨hname.notEmpty, hname.notDot⟩), if_neg hname.notDots,
    if_pos (by rw [he]; rfl)]

theorem followAll_of_concat_empty {fs : FileSystem} {spot target : Location} {ps : List String}
    (h : fs.followAll spot (ps ++ [""]) = .ok target) : fs.followAll spot ps = .ok target := by
  rw [followAll_concat] at h
  rcases hfront : fs.followAll spot ps with e | middle
  · rw [hfront] at h
    cases h
  · rw [hfront] at h
    rw [follow_empty_eq_ok h]

theorem locate_eq_ok {fs : FileSystem} {path : String} {spot : Location} :
    fs.locate path = .ok spot ↔ path ≠ "" ∧ '\x00' ∉ path.toList ∧
      fs.followAll (fs.origin path) (Path.parts path) = .ok spot := by
  unfold locate
  by_cases hempty : path = ""
  · simp [hempty]
  · by_cases hzero : '\x00' ∈ path.toList
    · simp [hempty, hzero]
    · simp [hempty, hzero]

theorem origin_join (fs : FileSystem) {name : String} (hname : Path.IsName name) (path : String) :
    fs.origin (Path.join path name) = fs.origin path := by
  unfold origin
  rw [Path.isAbsolute_join hname]

/-- A name behind the path of a directory leads to what is there under the name. -/
theorem locate_join {fs : FileSystem} {path name : String} {spot : Location} {e : FileEntry}
    (hname : Path.IsName name) (hspot : fs.locate path = .ok spot)
    (hdirectory : fs.entry? spot = some .directory) (he : fs.entry? (spot ++ [name]) = some e) :
    fs.locate (Path.join path name) = .ok (spot ++ [name]) := by
  obtain ⟨-, hzero, hfollow⟩ := locate_eq_ok.mp hspot
  obtain ⟨ps, hparts, hjoin⟩ := Path.exists_parts_join hname path
  have hholder : fs.followAll (fs.origin path) ps = .ok spot := by
    rcases hparts with hparts | hparts
    · rwa [hparts] at hfollow
    · rw [hparts] at hfollow
      exact followAll_of_concat_empty hfollow
  refine locate_eq_ok.mpr ⟨Path.join_ne_empty hname path, Path.noZero_join hname hzero, ?_⟩
  rw [origin_join fs hname, hjoin, followAll_concat, hholder]
  exact follow_name hname hdirectory he

end FileSystem

/-! ## What a walk delivers -/

namespace Walk

variable {fs : FileSystem} {top : Nat} {path : String} {spot : Location}

/-- Names that lead from a directory down to a source file. No ignore file leaves out the file or a
directory on the way. -/
inductive Leads (fs : FileSystem) (top : Nat) : String → Location → List String → Prop
  | file {path spot name content} :
      (spot ++ [name], FileEntry.file content) ∈ fs.entries →
      Ignore.isIgnored fs top (Path.join path name) (spot ++ [name]) false = false →
      isSource (Path.join path name) = true → Leads fs top path spot [name]
  | directory {path spot name names} :
      (spot ++ [name], FileEntry.directory) ∈ fs.entries →
      Ignore.isIgnored fs top (Path.join path name) (spot ++ [name]) true = false →
      Leads fs top (Path.join path name) (spot ++ [name]) names →
      Leads fs top path spot (name :: names)

theorem mem_sourcesBelow {fuel : Nat} {file : String} :
    file ∈ sourcesBelow fs top path spot fuel ↔
      ∃ names, names.length ≤ fuel ∧ Leads fs top path spot names ∧
        file = Path.below path names := by
  induction fuel generalizing path spot with
  | zero =>
    constructor
    · intro h
      cases h
    · rintro ⟨names, hlength, hleads, -⟩
      cases hleads <;> cases hlength
  | succ fuel ih =>
    unfold sourcesBelow
    simp only [List.mem_flatMap, Prod.exists, FileSystem.mem_children]
    constructor
    · rintro ⟨name, e, hentry, hfile⟩
      split at hfile
      · cases hfile
      · rename_i hkept
        cases e with
        | directory =>
          obtain ⟨names, hlength, hleads, rfl⟩ := ih.mp hfile
          exact ⟨name :: names, Nat.succ_le_succ hlength,
            .directory hentry (Bool.eq_false_iff.mpr hkept) hleads, rfl⟩
        | file content =>
          dsimp only at hfile
          split at hfile
          · rename_i hsource
            rw [List.mem_singleton.mp hfile]
            exact ⟨[name], Nat.succ_le_succ (Nat.zero_le fuel),
              .file hentry (Bool.eq_false_iff.mpr hkept) hsource, rfl⟩
          · cases hfile
    · rintro ⟨names, hlength, hleads, rfl⟩
      cases hleads with
      | @file _ _ name content hentry hkept hsource =>
        refine ⟨name, .file content, hentry, ?_⟩
        rw [show (FileEntry.file content == .directory) = false from rfl, hkept,
          if_neg Bool.false_ne_true]
        dsimp only
        rw [if_pos hsource]
        exact List.mem_singleton_self _
      | @directory _ _ name names hentry hkept hrest =>
        refine ⟨name, .directory, hentry, ?_⟩
        rw [show (FileEntry.directory == .directory) = true from rfl, hkept,
          if_neg Bool.false_ne_true]
        exact ih.mpr ⟨names, Nat.le_of_succ_le_succ hlength, hrest, rfl⟩

theorem Leads.length_mem {names : List String} (h : Leads fs top path spot names) {n : Nat}
    (hn : spot.length < n) (hn' : n ≤ spot.length + names.length) :
    n ∈ fs.entries.map (·.1.length) := by
  induction h with
  | @file _ spot name content hentry =>
    rw [List.length_singleton] at hn'
    refine List.mem_map.mpr ⟨_, hentry, ?_⟩
    rw [List.length_append, List.length_singleton]
    omega
  | @directory _ spot name names hentry _ _ ih =>
    simp only [List.length_cons, List.length_append, List.length_nil] at hn' ih
    by_cases hnext : n = spot.length + 1
    · refine List.mem_map.mpr ⟨_, hentry, ?_⟩
      rw [hnext, List.length_append, List.length_singleton]
    · exact ih (by omega) (by omega)

/-- The locations on the way down are all of different lengths, so that there are no more of them
than entries. -/
theorem Leads.length_le {names : List String} (h : Leads fs top path spot names) :
    names.length ≤ fs.entries.length := by
  have hlengths : List.range' (spot.length + 1) names.length ⊆ fs.entries.map (·.1.length) := by
    intro n hn
    rw [List.mem_range'_1] at hn
    exact h.length_mem (by omega) (by omega)
  simpa using List.Nodup.length_le_of_subset List.nodup_range' hlengths

/-- A walk delivers what names lead to. It is never cut short. -/
theorem mem_sources {file : String} : file ∈ sources fs path ↔
    Path.same path standardInput = false ∧ ∃ spot names, fs.locate path = .ok spot ∧
      Leads fs spot.length path spot names ∧ file = Path.below path names := by
  unfold sources
  by_cases hinput : Path.same path standardInput = true
  · rw [if_pos hinput]
    simp [hinput]
  · rw [if_neg hinput]
    rcases hspot : fs.locate path with e | spot
    · simp
    · dsimp only
      rw [mem_sourcesBelow]
      constructor
      · rintro ⟨names, -, hleads, hfile⟩
        exact ⟨Bool.eq_false_iff.mpr hinput, spot, names, rfl, hleads, hfile⟩
      · rintro ⟨-, spot', names, hspot', hleads, hfile⟩
        cases hspot'
        exact ⟨names, Nat.le_succ_of_le hleads.length_le, hleads, hfile⟩

theorem Leads.isName {names : List String} (hfs : fs.IsSound) (h : Leads fs top path spot names) :
    ∀ name ∈ names, Path.IsName name := by
  induction h with
  | file hentry =>
    intro name hmem
    rw [List.mem_singleton.mp hmem]
    exact hfs.isName_of_mem hentry
  | directory hentry _ _ ih => exact List.forall_mem_cons.mpr ⟨hfs.isName_of_mem hentry, ih⟩

theorem Leads.find_below {names : List String} (hfs : fs.IsSound)
    (h : Leads fs top path spot names) (hspot : fs.locate path = .ok spot)
    (hdirectory : fs.entry? spot = some .directory) :
    isSource (Path.below path names) = true ∧
      ∃ content, fs.find (Path.below path names) = some (.file content) := by
  induction h with
  | @file path spot name content hentry _ hsource =>
    refine ⟨hsource, content, ?_⟩
    have hname := hfs.isName_of_mem hentry
    have hthere := hfs.entry_of_mem hentry
    rw [Path.below, List.foldl_cons, List.foldl_nil, FileSystem.find,
      FileSystem.locate_join hname hspot hdirectory hthere]
    exact hthere
  | @directory path spot name names hentry _ hrest ih =>
    have hthere := hfs.entry_of_mem hentry
    exact ih (FileSystem.locate_join (hfs.isName_of_mem hentry) hspot hdirectory hthere) hthere

/-- The files that a walk of a directory delivers are source files that are there. -/
theorem find_of_mem_sources {file : String} (hfs : fs.IsSound)
    (hpath : fs.isDirectory path = true) (h : file ∈ sources fs path) :
    isSource file = true ∧ ∃ content, fs.find file = some (.file content) := by
  obtain ⟨-, spot, names, hspot, hleads, rfl⟩ := mem_sources.mp h
  have hdirectory : fs.entry? spot = some .directory := by
    have hfind := beq_iff_eq.mp hpath
    rw [FileSystem.find, hspot] at hfind
    exact hfind
  exact hleads.find_below hfs hspot hdirectory

/-- A walk delivers no path in two ways of writing. -/
theorem eq_of_same_of_mem_sources {file other : String} (hfs : fs.IsSound)
    (h : file ∈ sources fs path) (h' : other ∈ sources fs path)
    (hsame : Path.same file other = true) : file = other := by
  obtain ⟨-, spot, names, hspot, hleads, rfl⟩ := mem_sources.mp h
  obtain ⟨-, spot', others, hspot', hleads', rfl⟩ := mem_sources.mp h'
  exact Path.below_eq_of_same (hleads.isName hfs) (hleads'.isName hfs) hsame

end Walk

end UnitAtlas
