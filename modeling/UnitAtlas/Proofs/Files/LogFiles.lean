-- What logs hold. A log that is set up is there and empty, and all other files stay as they are. A
-- note goes to the end of its log and nowhere else.
import Mathlib.Data.List.Basic
import UnitAtlas.Proofs.Files.Appending

namespace UnitAtlas

/-! ## Notes -/

namespace FileSystem

theorem read_append {fs : FileSystem} {path : String} {old : Bytes} (h : fs.read path = .ok old)
    (bytes : Bytes) :
    ∃ after, fs.append path bytes = .ok after ∧ after.read path = .ok (old ++ bytes) := by
  obtain ⟨spot, hspot, hentry⟩ := read_eq_ok.mp h
  have happend : fs.append path bytes = .ok (fs.put spot (.file (old ++ bytes))) :=
    append_eq_ok.mpr ⟨spot, old, hspot, hentry, rfl⟩
  have hroot : spot ≠ [] := by
    rintro rfl
    cases hentry
  refine ⟨_, happend, read_eq_ok.mpr ⟨spot, ?_, entry_put_self fs spot _ hroot⟩⟩
  rw [(sameBut_of_append happend).locate_eq, hspot]

end FileSystem

namespace LogFile

theorem sameBut_note_self (log : LogFile) (fs : FileSystem) (bytes : Bytes) :
    fs.SameBut (spots [log] fs) (note (some log) fs bytes) :=
  sameBut_note (.refl _ fs) (some log) (fun _ h => by cases h; exact List.mem_singleton_self log)
    bytes

/-- A note stands behind what the log holds. -/
theorem read_note {log : LogFile} {fs : FileSystem} {old : Bytes}
    (h : fs.read log.path = .ok old) (bytes : Bytes) :
    (note (some log) fs bytes).read log.path = .ok (old ++ bytes) := by
  obtain ⟨after, happend, hread⟩ := FileSystem.read_append h bytes
  unfold note append failed
  simp only [happend]
  exact hread

/-- A note is in no file but the log. -/
theorem read_note_of_ne {log : LogFile} {fs : FileSystem} {path : String}
    (h : fs.locate path ≠ fs.locate log.path) (bytes : Bytes) :
    (note (some log) fs bytes).read path = fs.read path := by
  refine (sameBut_note_self log fs bytes).read_eq path fun spot hspot => ?_
  rintro ⟨other, hother, hthere⟩
  rw [List.mem_singleton.mp hother, ← hspot] at hthere
  exact h hthere.symm

end LogFile

/-! ## Setting up -/

namespace FileSystem

/-- What was there is still there, but that files at changed locations may hold something else. -/
structure Keeps (changed : Location → Prop) (before after : FileSystem) : Prop where
  current : after.current = before.current
  entries : ∀ spot e, before.entry? spot = some e → after.entry? spot = some e ∨
    changed spot ∧ ∃ old new, e = .file old ∧ after.entry? spot = some (.file new)

namespace Keeps

variable {changed : Location → Prop} {before middle after : FileSystem}

theorem refl (changed : Location → Prop) (fs : FileSystem) : Keeps changed fs fs :=
  ⟨rfl, fun _ _ h => Or.inl h⟩

theorem trans (h : Keeps changed before middle) (h' : Keeps changed middle after) :
    Keeps changed before after := by
  refine ⟨h'.current.trans h.current, fun spot e he => ?_⟩
  rcases h.entries spot e he with hsame | ⟨hchanged, old, new, rfl, hnew⟩
  · exact h'.entries spot e hsame
  · rcases h'.entries spot _ hnew with hsame | ⟨-, old', new', -, hnew'⟩
    · exact Or.inr ⟨hchanged, old, new, rfl, hsame⟩
    · exact Or.inr ⟨hchanged, old, new', rfl, hnew'⟩

theorem mono {changed' : Location → Prop} (h : Keeps changed before after)
    (hchanged : ∀ spot, changed spot → changed' spot) : Keeps changed' before after :=
  ⟨h.current, fun spot e he => (h.entries spot e he).imp_right (And.imp_left (hchanged spot))⟩

theorem directory (h : Keeps changed before after) {spot : Location}
    (hspot : before.entry? spot = some .directory) : after.entry? spot = some .directory := by
  rcases h.entries spot _ hspot with hsame | ⟨-, old, new, hfile, -⟩
  · exact hsame
  · cases hfile

theorem isSome_entry (h : Keeps changed before after) {spot : Location}
    (hspot : (before.entry? spot).isSome = true) : (after.entry? spot).isSome = true := by
  obtain ⟨e, he⟩ := Option.isSome_iff_exists.mp hspot
  rcases h.entries spot e he with hsame | ⟨-, old, new, -, hnew⟩
  · rw [hsame]
    rfl
  · rw [hnew]
    rfl

theorem follow (h : Keeps changed before after) {spot target : Location} {part : String}
    (hfollow : before.follow spot part = .ok target) : after.follow spot part = .ok target := by
  unfold FileSystem.follow at hfollow ⊢
  split at hfollow
  · cases hfollow
  · cases hfollow
  · rename_i hspot
    rw [h.directory hspot]
    dsimp only
    split
    · rwa [if_pos ‹_›] at hfollow
    · rw [if_neg ‹_›] at hfollow
      split
      · rwa [if_pos ‹_›] at hfollow
      · rw [if_neg ‹_›] at hfollow
        split at hfollow
        · rw [if_pos (h.isSome_entry ‹_›)]
          exact hfollow
        · cases hfollow

theorem followAll (h : Keeps changed before after) {spot target : Location} {parts : List String}
    (hfollow : before.followAll spot parts = .ok target) :
    after.followAll spot parts = .ok target := by
  induction parts generalizing spot with
  | nil => exact hfollow
  | cons part parts ih =>
    unfold FileSystem.followAll at hfollow ⊢
    rw [List.foldlM_cons] at hfollow ⊢
    rcases hnext : before.follow spot part with e | next
    · rw [hnext] at hfollow
      cases hfollow
    · rw [hnext] at hfollow
      rw [h.follow hnext]
      exact ih hfollow

/-- A path leads where it led. -/
theorem locate (h : Keeps changed before after) {path : String} {spot : Location}
    (hpath : before.locate path = .ok spot) : after.locate path = .ok spot := by
  unfold FileSystem.locate origin at hpath ⊢
  rw [h.current]
  split
  · rw [if_pos ‹_›] at hpath
    cases hpath
  · rw [if_neg ‹_›] at hpath
    split
    · rw [if_pos ‹_›] at hpath
      cases hpath
    · rw [if_neg ‹_›] at hpath
      exact h.followAll hpath

end Keeps

end FileSystem

namespace LogFile

open FileSystem (Keeps)

variable {fs after : FileSystem} {path : String}

/-- The directory of a log is made, unless none is named. -/
theorem withDirectory_eq_ok (h : withDirectory fs path = .ok after) :
    after = fs ∨ ∃ above, fs.makeAll above = .ok after := by
  unfold withDirectory at h
  split at h
  · cases h
    exact Or.inl rfl
  · split at h
    · cases h
      exact Or.inl rfl
    · exact Or.inr ⟨_, failed_eq_ok.mp h⟩

theorem create_eq_ok {log : LogFile} (h : create fs path = .ok (log, after)) :
    log.path = path ∧ ∃ ready, withDirectory fs path = .ok ready ∧
      ready.truncate path = .ok after := by
  obtain ⟨ready, hready, h⟩ := Fault.bind_eq_ok.mp h
  obtain ⟨emptied, hemptied, h⟩ := Fault.bind_eq_ok.mp h
  cases h
  exact ⟨rfl, ready, hready, failed_eq_ok.mp hemptied⟩

end LogFile

end UnitAtlas
