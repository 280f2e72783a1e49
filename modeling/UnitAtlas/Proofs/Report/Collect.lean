-- The files of a report. Of the files that are the same path the first one stays, and those that
-- stay are in the order of paths. So it does not matter in which order a walk delivers the files of
-- a directory.
import Mathlib.Data.List.Basic
import Mathlib.Data.List.Forall2
import UnitAtlas.Proofs.Files.Walks
import UnitAtlas.Report.Collect

namespace UnitAtlas.Collect

/-! ## Neighbours -/

theorem distinct_subset (files : List String) : distinct files ⊆ files := by
  induction files with
  | nil => exact List.Subset.refl _
  | cons p ps ih =>
    unfold distinct
    split
    · exact List.cons_subset_cons p (List.nil_subset ps)
    · rename_i q qs hdistinct
      rw [hdistinct] at ih
      split
      · exact List.cons_subset_cons p (List.Subset.trans (List.subset_cons_self q qs) ih)
      · exact List.cons_subset_cons p ih

/-- In order, the first path takes with it those that are the same, and no others. -/
theorem distinct_cons {p : String} {ps : List String} (h : (p :: ps).Pairwise (Path.le · ·))
    (hps : (distinct ps).Pairwise Path.Precedes) :
    distinct (p :: ps) = p :: (distinct ps).filter (fun q => !Path.same p q) := by
  have hle : ∀ q ∈ distinct ps, Path.le p q = true :=
    fun q hq => (List.pairwise_cons.mp h).1 q (distinct_subset ps hq)
  rw [distinct]
  split
  · rename_i hdistinct
    rw [hdistinct, List.filter_nil]
  · rename_i q qs hdistinct
    rw [hdistinct] at hps hle ⊢
    -- Behind the first path of those that are left, no path is the same as `p`.
    have hrest : qs.filter (fun r => !Path.same p r) = qs := by
      refine List.filter_eq_self.mpr fun r hr => ?_
      have hqr := (List.pairwise_cons.mp hps).1 r hr
      have hpr := hqr.of_le (hle q List.mem_cons_self)
      rw [Bool.not_eq_true', Bool.eq_false_iff, ne_eq, Path.same_iff]
      exact hpr.2
    by_cases hsame : Path.same p q = true
    · rw [if_pos hsame, List.filter_cons_of_neg (by rw [hsame]; exact Bool.false_ne_true), hrest]
    · rw [if_neg hsame, List.filter_cons_of_pos (by simpa using hsame), hrest]

theorem pairwise_distinct {files : List String} (h : files.Pairwise (Path.le · ·)) :
    (distinct files).Pairwise Path.Precedes := by
  induction files with
  | nil => exact List.Pairwise.nil
  | cons p ps ih =>
    have hps := ih (List.pairwise_cons.mp h).2
    rw [distinct_cons h hps, List.pairwise_cons]
    refine ⟨fun q hq => ?_, hps.filter _⟩
    obtain ⟨hmem, hdiffers⟩ := List.mem_filter.mp hq
    refine ⟨(List.pairwise_cons.mp h).1 q (distinct_subset ps hmem), fun hsteps => ?_⟩
    rw [Path.same_iff.mpr hsteps] at hdiffers
    cases hdiffers

/-- Of the paths that are the same, the first one stays. -/
theorem mem_distinct {files : List String} (h : files.Pairwise (Path.le · ·)) {file : String} :
    file ∈ distinct files ↔ files.find? (Path.same file) = some file := by
  induction files with
  | nil => simp [distinct]
  | cons p ps ih =>
    have htail := (List.pairwise_cons.mp h).2
    rw [distinct_cons h (pairwise_distinct htail), List.mem_cons, List.mem_filter, ih htail,
      List.find?_cons, Path.same_comm p file]
    by_cases hsame : Path.same file p = true
    · simp [hsame, eq_comm]
    · have hne : file ≠ p := by
        rintro rfl
        exact hsame (Path.same_refl file)
      simp [hsame, hne]

/-! ## Arranged files -/

theorem pairwise_mergeSort (files : List String) :
    (files.mergeSort Path.le).Pairwise (Path.le · ·) :=
  List.pairwise_mergeSort Path.le_trans Path.le_total files

/-- Paths that are the same keep their order when files are sorted. -/
theorem filter_mergeSort (files : List String) (file : String) :
    (files.mergeSort Path.le).filter (Path.same file) = files.filter (Path.same file) := by
  have hsorted : (files.filter (Path.same file)).Pairwise (Path.le · ·) := by
    refine List.pairwise_filter.mpr (List.pairwise_of_forall fun a b ha hb => ?_)
    refine Path.le_of_same ?_
    rwa [← Path.same_eq_of_same ha]
  have hkept : (files.filter (Path.same file)).Sublist (files.mergeSort Path.le) :=
    List.sublist_mergeSort Path.le_trans Path.le_total hsorted List.filter_sublist
  have hkept' := hkept.filter (Path.same file)
  simp only [List.filter_filter, Bool.and_self] at hkept'
  have hlength := ((List.mergeSort_perm files Path.le).filter (Path.same file)).length_eq
  exact (hkept'.eq_of_length hlength.symm).symm

theorem pairwise_arranged (files : List String) : (arranged files).Pairwise Path.Precedes :=
  pairwise_distinct (pairwise_mergeSort files)

theorem mem_arranged {files : List String} {file : String} :
    file ∈ arranged files ↔ files.find? (Path.same file) = some file := by
  rw [arranged, mem_distinct (pairwise_mergeSort files), ← List.head?_filter, filter_mergeSort,
    List.head?_filter]

theorem mem_of_mem_arranged {files : List String} {file : String} (h : file ∈ arranged files) :
    file ∈ files := List.mem_of_find?_eq_some (mem_arranged.mp h)

theorem exists_mem_arranged {files : List String} {file : String} (h : file ∈ files) :
    ∃ first ∈ arranged files, Path.same first file = true := by
  obtain ⟨first, hfirst⟩ : ∃ first, files.find? (Path.same file) = some first :=
    Option.isSome_iff_exists.mp (List.find?_isSome.mpr ⟨file, h, Path.same_refl file⟩)
  have hsame := List.find?_some hfirst
  refine ⟨first, mem_arranged.mpr ?_, (Path.same_comm first file).trans hsame⟩
  rwa [← Path.same_eq_of_same hsame]

/-- Files are arranged to one list if the first of each path is. -/
theorem arranged_eq {files others : List String}
    (h : ∀ file, files.find? (Path.same file) = others.find? (Path.same file)) :
    arranged files = arranged others := by
  have hmem : ∀ file, file ∈ arranged files ↔ file ∈ arranged others := by
    intro file
    rw [mem_arranged, mem_arranged, h]
  have hnodup : ∀ files, (arranged files).Nodup := fun files =>
    (pairwise_arranged files).imp fun hab heq => hab.2 (congrArg Path.components heq)
  have hantisymm : ∀ a b, a ∈ arranged files → b ∈ arranged others → Path.le a b = true →
      Path.le b a = true → a = b := by
    intro a b ha hb hab hba
    have hsame : Path.same a = Path.same b :=
      Path.same_eq_of_same (Path.same_iff.mpr (Path.leComponents_antisymm hab hba))
    have ha' := mem_arranged.mp ha
    have hb' := mem_arranged.mp hb
    rw [hsame, h, hb'] at ha'
    exact (Option.some.inj ha').symm
  exact List.Perm.eq_of_pairwise hantisymm ((pairwise_arranged files).imp And.left)
    ((pairwise_arranged others).imp And.left)
    ((List.perm_ext_iff_of_nodup (hnodup files) (hnodup others)).mpr hmem)

theorem mem_map_arranged {files : List String} {steps : List Path.Component} :
    steps ∈ (arranged files).map Path.components ↔ steps ∈ files.map Path.components := by
  rw [List.mem_map, List.mem_map]
  constructor
  · rintro ⟨file, hfile, rfl⟩
    exact ⟨file, mem_of_mem_arranged hfile, rfl⟩
  · rintro ⟨file, hfile, rfl⟩
    obtain ⟨first, hfirst, hsame⟩ := exists_mem_arranged hfile
    exact ⟨first, hfirst, Path.same_iff.mp hsame⟩

/-- Files that are the same paths are arranged to the same paths. -/
theorem forall₂_arranged {files others : List String}
    (h : ∀ steps, steps ∈ files.map Path.components ↔ steps ∈ others.map Path.components) :
    (arranged files).Forall₂ (Path.same · ·) (arranged others) := by
  have hnodup : ∀ files, ((arranged files).map Path.components).Nodup := fun files =>
    List.pairwise_map.mpr ((pairwise_arranged files).imp And.right)
  have hsorted : ∀ files,
      ((arranged files).map Path.components).Pairwise (Path.leComponents · ·) := fun files =>
    List.pairwise_map.mpr ((pairwise_arranged files).imp And.left)
  have hmem : ∀ steps, steps ∈ (arranged files).map Path.components ↔
      steps ∈ (arranged others).map Path.components := by
    intro steps
    rw [mem_map_arranged, mem_map_arranged, h]
  have hsteps : (arranged files).map Path.components = (arranged others).map Path.components :=
    List.Perm.eq_of_pairwise (fun _ _ _ _ => Path.leComponents_antisymm) (hsorted files)
      (hsorted others) ((List.perm_ext_iff_of_nodup (hnodup files) (hnodup others)).mpr hmem)
  rw [← List.forall₂_eq_eq_eq, List.forall₂_map_left_iff, List.forall₂_map_right_iff] at hsteps
  exact hsteps.imp fun _ _ => Path.same_iff.mpr

/-! ## Delivered files -/

/-- The files of paths, where each walk of a directory delivers its files in an order of its own. -/
inductive Delivers (fs : FileSystem) : List String → List String → Prop
  | nil : Delivers fs [] []
  | file {path paths files} : fs.isThere path = true → fs.isDirectory path = false →
      Delivers fs paths files → Delivers fs (path :: paths) (path :: files)
  | directory {path paths walked files} : fs.isDirectory path = true →
      walked.Perm (Walk.sources fs path) →
      Delivers fs paths files → Delivers fs (path :: paths) (walked ++ files)

/-- A file that one path stands for: the path itself, or a source file that the walk of the
directory there delivers. -/
inductive IsFileOf (fs : FileSystem) (path : String) : String → Prop
  | named : fs.isDirectory path = false → IsFileOf fs path path
  | walked {file content} : fs.isDirectory path = true → file ∈ Walk.sources fs path →
      Walk.isSource file = true → fs.find file = some (.file content) → IsFileOf fs path file

/-- The function lists for each directory what a walk of it delivers, in any order. -/
def IsWalk (fs : FileSystem) (walk : String → List String) : Prop :=
  ∀ path, fs.isDirectory path = true → (walk path).Perm (Walk.sources fs path)

variable {fs : FileSystem} {walk : String → List String} {paths files : List String}

theorem isFileOf_iff_of_directory (hfs : fs.IsSound) {path : String}
    (hpath : fs.isDirectory path = true) {file : String} :
    IsFileOf fs path file ↔ file ∈ Walk.sources fs path := by
  constructor
  · rintro (hfile | ⟨-, hmem, -, -⟩)
    · rw [hpath] at hfile
      cases hfile
    · exact hmem
  · intro hmem
    obtain ⟨hsource, content, hfind⟩ := Walk.find_of_mem_sources hfs hpath hmem
    exact .walked hpath hmem hsource hfind

theorem isFileOf_iff_of_file {path : String} (hpath : fs.isDirectory path = false) {file : String} :
    IsFileOf fs path file ↔ file = path := by
  constructor
  · rintro (- | ⟨hdirectory, -, -, -⟩)
    · rfl
    · rw [hpath] at hdirectory
      cases hdirectory
  · rintro rfl
    exact .named hpath

theorem Delivers.mem_iff (hfs : fs.IsSound) (h : Delivers fs paths files) {file : String} :
    file ∈ files ↔ ∃ path ∈ paths, IsFileOf fs path file := by
  induction h with
  | nil => simp
  | file _ hfile _ ih =>
    rw [List.mem_cons, ih, List.exists_mem_cons_iff, isFileOf_iff_of_file hfile]
  | directory hdirectory hperm _ ih =>
    rw [List.mem_append, ih, List.exists_mem_cons_iff, isFileOf_iff_of_directory hfs hdirectory,
      hperm.mem_iff]

theorem find_of_perm_sources (hfs : fs.IsSound) {path : String} {walked again : List String}
    (h : walked.Perm (Walk.sources fs path)) (h' : again.Perm (Walk.sources fs path))
    (file : String) : walked.find? (Path.same file) = again.find? (Path.same file) := by
  rcases hwalked : walked.find? (Path.same file) with _ | first
  · rw [List.find?_eq_none] at hwalked
    symm
    rw [List.find?_eq_none]
    exact fun other hother => hwalked other (h.mem_iff.mpr (h'.mem_iff.mp hother))
  · have hmem := h.mem_iff.mp (List.mem_of_find?_eq_some hwalked)
    obtain ⟨other, hother⟩ : ∃ other, again.find? (Path.same file) = some other :=
      Option.isSome_iff_exists.mp
        (List.find?_isSome.mpr ⟨first, h'.mem_iff.mpr hmem, List.find?_some hwalked⟩)
    have hmem' := h'.mem_iff.mp (List.mem_of_find?_eq_some hother)
    have hsame : Path.same first other = true := by
      rw [← Path.same_eq_of_same (List.find?_some hwalked)]
      exact List.find?_some hother
    rw [hother, Walk.eq_of_same_of_mem_sources hfs hmem hmem' hsame]

/-- The first of the files that are the same path does not depend on the order of a walk: a walk
delivers no two of them. -/
theorem Delivers.find_eq {others : List String} (hfs : fs.IsSound) (h : Delivers fs paths files)
    (h' : Delivers fs paths others) (file : String) :
    files.find? (Path.same file) = others.find? (Path.same file) := by
  induction h generalizing others with
  | nil =>
    cases h'
    rfl
  | file _ hfile _ ih =>
    cases h' with
    | file _ _ hrest => rw [List.find?_cons, List.find?_cons, ih hrest]
    | directory hdirectory =>
      rw [hfile] at hdirectory
      cases hdirectory
  | directory hdirectory hperm _ ih =>
    cases h' with
    | file _ hfile =>
      rw [hfile] at hdirectory
      cases hdirectory
    | directory _ hperm' hrest =>
      rw [List.find?_append, List.find?_append, ih hrest,
        find_of_perm_sources hfs hperm hperm']

/-! ## Collecting -/

theorem filesOf_eq_error {path : String} (h : fs.isThere path = false) :
    filesOf fs walk path = .error ⟨path⟩ := by
  have hdirectory : ¬fs.isDirectory path = true := by
    intro hdirectory
    rw [FileSystem.isThere_of_isDirectory hdirectory] at h
    cases h
  rw [filesOf, if_neg hdirectory, if_neg (Bool.eq_false_iff.mp h)]

/-- What one path that is there adds to the files. -/
theorem filesOf_eq_ok {path : String} (h : fs.isThere path = true) :
    filesOf fs walk path = .ok (if fs.isDirectory path then walk path else [path]) := by
  unfold filesOf
  by_cases hdirectory : fs.isDirectory path = true
  · rw [if_pos hdirectory, if_pos hdirectory]
  · rw [if_neg hdirectory, if_neg hdirectory, if_pos h]

theorem filesOfAll_eq_error {e : MissingPath} : filesOfAll fs walk paths = .error e ↔
    paths.find? (fun path => !fs.isThere path) = some e.path := by
  induction paths with
  | nil => simp [filesOfAll, pure, Except.pure]
  | cons path paths ih =>
    rw [filesOfAll, List.find?_cons]
    by_cases hthere : fs.isThere path = true
    · rw [filesOf_eq_ok hthere, hthere]
      refine Iff.trans ?_ ih
      rcases filesOfAll fs walk paths with e' | later <;>
        simp [bind, Except.bind, pure, Except.pure]
    · rw [Bool.not_eq_true] at hthere
      rw [filesOf_eq_error hthere, hthere]
      cases e
      simp [bind, Except.bind]

theorem delivers_of_filesOfAll (hwalk : IsWalk fs walk)
    (h : filesOfAll fs walk paths = .ok files) : Delivers fs paths files := by
  induction paths generalizing files with
  | nil =>
    cases h
    exact .nil
  | cons path paths ih =>
    rw [filesOfAll] at h
    by_cases hthere : fs.isThere path = true
    · rw [filesOf_eq_ok hthere] at h
      rcases hlater : filesOfAll fs walk paths with e | later
      · rw [hlater] at h
        cases h
      · rw [hlater] at h
        cases h
        by_cases hdirectory : fs.isDirectory path = true
        · rw [if_pos hdirectory]
          exact .directory hdirectory (hwalk path hdirectory) (ih hlater)
        · rw [if_neg hdirectory]
          exact .file hthere (Bool.eq_false_iff.mpr hdirectory) (ih hlater)
    · rw [filesOf_eq_error (Bool.eq_false_iff.mpr hthere)] at h
      cases h

theorem collect_eq_error {e : MissingPath} : collect fs walk paths = .error e ↔
    paths.find? (fun path => !fs.isThere path) = some e.path := by
  have hfiles : filesOfAll fs walk paths = .error e ↔
      paths.find? (fun path => !fs.isThere path) = some e.path := filesOfAll_eq_error
  rw [← hfiles, collect]
  rcases filesOfAll fs walk paths with e' | files <;> simp [bind, Except.bind, pure, Except.pure]

theorem collect_eq_ok {result : List String} (hwalk : IsWalk fs walk)
    (h : collect fs walk paths = .ok result) :
    ∃ files, Delivers fs paths files ∧ result = arranged files := by
  unfold collect at h
  rcases hfiles : filesOfAll fs walk paths with e | files
  · rw [hfiles] at h
    cases h
  · rw [hfiles] at h
    cases h
    exact ⟨files, delivers_of_filesOfAll hwalk hfiles, rfl⟩

/-- Collecting goes through exactly if all paths are there. -/
theorem exists_collect_eq_ok : (∃ result, collect fs walk paths = .ok result) ↔
    ∀ path ∈ paths, fs.isThere path = true := by
  have hthere : (∀ path ∈ paths, fs.isThere path = true) ↔
      paths.find? (fun path => !fs.isThere path) = none := by
    simp [List.find?_eq_none]
  rw [hthere]
  rcases hcollect : collect fs walk paths with e | result
  · rw [collect_eq_error.mp hcollect]
    simp
  · refine ⟨fun _ => ?_, fun _ => ⟨result, rfl⟩⟩
    rcases hmissing : paths.find? (fun path => !fs.isThere path) with _ | path
    · rfl
    · rw [collect_eq_error (e := ⟨path⟩).mpr hmissing] at hcollect
      cases hcollect

/-- The files of a report do not depend on the order in which walks deliver files. -/
theorem the_files_of_a_report_do_not_depend_on_the_walks (hfs : fs.IsSound)
    (hwalk : IsWalk fs walk) (paths : List String) :
    (∀ e, collect fs walk paths = .error e ↔
      paths.find? (fun path => !fs.isThere path) = some e.path) ∧
    ∀ result, collect fs walk paths = .ok result →
      result.Pairwise Path.Precedes ∧
      (∀ file ∈ result, ∃ path ∈ paths, IsFileOf fs path file) ∧
      (∀ file, (∃ path ∈ paths, IsFileOf fs path file) →
        ∃ first ∈ result, Path.same first file = true) ∧
      (∀ files, Delivers fs paths files → arranged files = result) ∧
      ∀ others anyWalk, (∀ path, path ∈ others ↔ path ∈ paths) → IsWalk fs anyWalk →
        ∃ again, collect fs anyWalk others = .ok again ∧ again.Forall₂ (Path.same · ·) result := by
  refine ⟨fun e => collect_eq_error, fun result hresult => ?_⟩
  obtain ⟨files, hfiles, rfl⟩ := collect_eq_ok hwalk hresult
  refine ⟨pairwise_arranged files, fun file hfile => ?_, fun file hfile => ?_,
    fun others hothers => ?_, fun others anyWalk hothers hanyWalk => ?_⟩
  · exact (hfiles.mem_iff hfs).mp (mem_of_mem_arranged hfile)
  · exact exists_mem_arranged ((hfiles.mem_iff hfs).mpr hfile)
  · exact arranged_eq (hothers.find_eq hfs hfiles)
  · have hthere := exists_collect_eq_ok.mp ⟨_, hresult⟩
    obtain ⟨again, hagain⟩ : ∃ again, collect fs anyWalk others = .ok again :=
      exists_collect_eq_ok.mpr fun path hpath => hthere path ((hothers path).mp hpath)
    obtain ⟨againFiles, hagainFiles, rfl⟩ := collect_eq_ok hanyWalk hagain
    refine ⟨_, hagain, forall₂_arranged fun steps => ?_⟩
    simp only [List.mem_map, hagainFiles.mem_iff hfs, hfiles.mem_iff hfs, hothers]

/-- A directory with two source files and a file that is none. -/
def smallFiles : FileSystem where
  current := []
  entries := [(["pkg"], .directory), (["pkg", "a.py"], .file []), (["pkg", "notes"], .file []),
    (["pkg", "b.py"], .file [])]

theorem a_walk_from_behind_gives_the_same_files :
    smallFiles.IsSound ∧ IsWalk smallFiles (fun path => (Walk.sources smallFiles path).reverse) ∧
      collect smallFiles (fun path => (Walk.sources smallFiles path).reverse)
        ["pkg", "pkg//b.py"] = .ok ["pkg/a.py", "pkg/b.py"] := by
  have hfs : smallFiles.IsSound := ⟨by decide +kernel, by decide +kernel⟩
  have hwalk : IsWalk smallFiles fun path => (Walk.sources smallFiles path).reverse :=
    fun path _ => List.reverse_perm (Walk.sources smallFiles path)
  refine ⟨hfs, hwalk, ?_⟩
  obtain ⟨result, hresult⟩ : ∃ result, collect smallFiles
      (fun path => (Walk.sources smallFiles path).reverse) ["pkg", "pkg//b.py"] = .ok result :=
    exists_collect_eq_ok.mpr (by decide +kernel)
  obtain ⟨-, hcollected⟩ :=
    the_files_of_a_report_do_not_depend_on_the_walks hfs hwalk ["pkg", "pkg//b.py"]
  obtain ⟨-, -, -, horder, -⟩ := hcollected result hresult
  -- Delivered from the front, the files are in order already.
  have hwalked : Walk.sources smallFiles "pkg" = ["pkg/a.py", "pkg/b.py"] := by decide +kernel
  have hfiles : Delivers smallFiles ["pkg", "pkg//b.py"]
      (["pkg/a.py", "pkg/b.py"] ++ ["pkg//b.py"]) :=
    .directory (by decide +kernel) (by rw [hwalked])
      (.file (by decide +kernel) (by decide +kernel) .nil)
  have hsorted : ["pkg/a.py", "pkg/b.py", "pkg//b.py"].Pairwise (Path.le · ·) := by
    decide +kernel
  have harranged : arranged ["pkg/a.py", "pkg/b.py", "pkg//b.py"] = ["pkg/a.py", "pkg/b.py"] := by
    rw [arranged, List.mergeSort_of_pairwise hsorted]
    decide +kernel
  rw [hresult, ← harranged, ← horder _ hfiles]
  rfl

end UnitAtlas.Collect
