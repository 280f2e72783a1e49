-- Adding to a file changes what that file holds and nothing else: every path leads where it
-- led before, and every other file reads as before.
import UnitAtlas.Proofs.Files.Changes
import UnitAtlas.Session.Log

namespace UnitAtlas

namespace FileSystem

/-! ## File systems that differ in hidden files only -/

/-- Nothing differs but what the files at hidden locations hold. -/
structure SameBut (hidden : Location → Prop) (before after : FileSystem) : Prop where
  current : after.current = before.current
  entries : ∀ spot, after.entry? spot = before.entry? spot ∨
    hidden spot ∧ ∃ old new, before.entry? spot = some (.file old) ∧
      after.entry? spot = some (.file new)

namespace SameBut

variable {hidden : Location → Prop} {before middle after : FileSystem}

theorem refl (hidden : Location → Prop) (fs : FileSystem) : SameBut hidden fs fs :=
  ⟨rfl, fun _ => Or.inl rfl⟩

theorem trans (h : SameBut hidden before middle) (h' : SameBut hidden middle after) :
    SameBut hidden before after := by
  refine ⟨h'.current.trans h.current, fun spot => ?_⟩
  rcases h'.entries spot with heq | ⟨hspot, old', new', hold', hnew'⟩
  · rw [heq]
    exact h.entries spot
  · rcases h.entries spot with heq | ⟨_, old, new, hold, _⟩
    · exact Or.inr ⟨hspot, old', new', heq ▸ hold', hnew'⟩
    · exact Or.inr ⟨hspot, old, new', hold, hnew'⟩

theorem isSome_entry (h : SameBut hidden before after) (spot : Location) :
    (after.entry? spot).isSome = (before.entry? spot).isSome := by
  rcases h.entries spot with heq | ⟨_, old, new, hold, hnew⟩
  · rw [heq]
  · rw [hold, hnew]
    rfl

theorem follow_eq (h : SameBut hidden before after) (spot : Location) (part : String) :
    after.follow spot part = before.follow spot part := by
  unfold follow
  rw [h.isSome_entry (spot ++ [part])]
  rcases h.entries spot with heq | ⟨_, old, new, hold, hnew⟩
  · rw [heq]
  · rw [hold, hnew]

theorem followAll_eq (h : SameBut hidden before after) (spot : Location) (parts : List String) :
    after.followAll spot parts = before.followAll spot parts := by
  have hfollow : after.follow = before.follow := by
    funext spot part
    exact h.follow_eq spot part
  rw [followAll, followAll, hfollow]

/-- Every path leads to the same location. -/
theorem locate_eq (h : SameBut hidden before after) (path : String) :
    after.locate path = before.locate path := by
  unfold locate origin
  rw [h.current, h.followAll_eq]

theorem isThere_eq (h : SameBut hidden before after) : after.isThere = before.isThere := by
  funext path
  unfold isThere find
  rw [h.locate_eq]
  cases before.locate path with
  | error e => rfl
  | ok spot => exact h.isSome_entry spot

theorem isDirectory_eq (h : SameBut hidden before after) :
    after.isDirectory = before.isDirectory := by
  funext path
  unfold isDirectory find
  rw [h.locate_eq]
  cases before.locate path with
  | error e => rfl
  | ok spot =>
    rcases h.entries spot with heq | ⟨_, old, new, hold, hnew⟩
    · show (after.entry? spot == some .directory) = (before.entry? spot == some .directory)
      rw [heq]
    · show (after.entry? spot == some .directory) = (before.entry? spot == some .directory)
      rw [hold, hnew]
      rfl

/-- A file that is not hidden reads the same. -/
theorem read_eq (h : SameBut hidden before after) (path : String)
    (hpath : ∀ spot, before.locate path = .ok spot → ¬ hidden spot) :
    after.read path = before.read path := by
  unfold read
  rw [h.locate_eq]
  rcases hspot : before.locate path with e | spot
  · rfl
  · rcases h.entries spot with heq | ⟨hhidden, _⟩
    · simp only [bind, Except.bind, heq]
    · exact absurd hhidden (hpath spot hspot)

end SameBut

/-! ## Adding to a file -/

theorem lookup_filter_ne (entries : List (Location × FileEntry)) (spot other : Location)
    (h : other ≠ spot) :
    (entries.filter (·.1 ≠ spot)).lookup other = entries.lookup other := by
  induction entries with
  | nil => rfl
  | cons item items ih =>
    rcases item with ⟨there, e⟩
    by_cases hthere : there = spot
    · subst hthere
      rw [List.filter_cons_of_neg (by simp), ih, List.lookup_cons, beq_false_of_ne h]
    · rw [List.filter_cons_of_pos (by simpa using hthere), List.lookup_cons, List.lookup_cons, ih]

theorem entry_put_of_ne (fs : FileSystem) (spot other : Location) (e : FileEntry)
    (h : other ≠ spot) : entry? (fs.put spot e) other = fs.entry? other := by
  unfold entry? put
  split
  · rfl
  · rw [List.lookup_cons, beq_false_of_ne h]
    exact lookup_filter_ne fs.entries spot other h

theorem entry_put_self (fs : FileSystem) (spot : Location) (e : FileEntry) (h : spot ≠ []) :
    entry? (fs.put spot e) spot = some e := by
  rw [ entry?, if_neg h, put, List.lookup_cons, beq_self_eq_true]

/-- Adding to a file that is there changes the content at its location. -/
theorem sameBut_of_append {fs after : FileSystem} {path : String} {bytes : Bytes}
    (h : fs.append path bytes = .ok after) :
    SameBut (fun spot => fs.locate path = .ok spot) fs after := by
  obtain ⟨spot, content, hspot, hcontent, rfl⟩ := append_eq_ok.mp h
  have hroot : spot ≠ [] := by
    rintro rfl
    cases hcontent
  refine ⟨rfl, fun other => ?_⟩
  by_cases hother : other = spot
  · subst hother
    exact Or.inr ⟨hspot, content, _, hcontent, entry_put_self fs other _ hroot⟩
  · exact Or.inl (entry_put_of_ne fs spot other _ hother)

end FileSystem

/-! ## Logs -/

namespace LogFile

@[simp] theorem failed_eq_ok {α : Type} {what path : String} {result : Except FileError α} {a : α} :
    failed what path result = .ok a ↔ result = .ok a := by
  cases result with
  | error e => exact ⟨nofun, nofun⟩
  | ok made => exact ⟨fun h => congrArg _ (Except.ok.inj h), fun h => congrArg _ (Except.ok.inj h)⟩

/-- A note is added to its log, or to nothing. -/
theorem note_cases (log : Option LogFile) (fs : FileSystem) (bytes : Bytes) :
    note log fs bytes = fs ∨
      ∃ file ∈ log, fs.append file.path bytes = .ok (note log fs bytes) := by
  unfold note
  cases log with
  | none => exact Or.inl rfl
  | some file =>
    dsimp only
    split
    · rename_i written hwritten
      exact Or.inr ⟨file, rfl, failed_eq_ok.mp hwritten⟩
    · exact Or.inl rfl

/-- The locations of the files of some logs. -/
def spots (logs : List LogFile) (fs : FileSystem) (spot : Location) : Prop :=
  ∃ log ∈ logs, fs.locate log.path = .ok spot

/-- A note in a log shows in no file but the log's, also when it fails. -/
theorem sameBut_note {logs : List LogFile} {fs now : FileSystem}
    (h : fs.SameBut (spots logs fs) now) (log : Option LogFile) (hlog : ∀ l ∈ log, l ∈ logs)
    (bytes : Bytes) : fs.SameBut (spots logs fs) (note log now bytes) := by
  rcases note_cases log now bytes with hnote | ⟨file, hfile, happend⟩
  · rwa [hnote]
  · obtain ⟨hcurrent, hentries⟩ := FileSystem.sameBut_of_append happend
    refine h.trans ⟨hcurrent, fun spot => ?_⟩
    refine (hentries spot).imp_right ?_
    rintro ⟨hspot, hfiles⟩
    exact ⟨⟨file, hlog file hfile, h.locate_eq file.path ▸ hspot⟩, hfiles⟩

end LogFile

end UnitAtlas
