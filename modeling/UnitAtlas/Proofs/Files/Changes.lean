-- What a file system was like when something was done to it: each operation that succeeds found
-- what it needs where its path leads, and puts one entry there. Directories are made one after
-- the other.
import UnitAtlas.Files.System
import UnitAtlas.Proofs.Fault

namespace UnitAtlas.FileSystem

open Fault (bind_eq_ok)

variable {fs made after : FileSystem} {path name : String} {holder : Location}

/-! ## Files that are there -/

theorem read_eq_ok {content : Bytes} : fs.read path = .ok content ↔
    ∃ spot, fs.locate path = .ok spot ∧ fs.entry? spot = some (.file content) := by
  rw [read, bind_eq_ok]
  refine exists_congr fun spot => and_congr_right fun _ => ?_
  rcases fs.entry? spot with _ | _ | _ <;> simp

theorem append_eq_ok {bytes : Bytes} : fs.append path bytes = .ok after ↔
    ∃ spot content, fs.locate path = .ok spot ∧ fs.entry? spot = some (.file content) ∧
      fs.put spot (.file (content ++ bytes)) = after := by
  rw [append, bind_eq_ok]
  refine exists_congr fun spot => ?_
  rw [exists_and_left]
  refine and_congr_right fun _ => ?_
  rcases fs.entry? spot with _ | _ | _ <;> simp

/-! ## Places for new entries -/

theorem entry_of_follow {spot target : Location} {part : String}
    (h : fs.follow spot part = .ok target) : fs.entry? spot = some .directory := by
  unfold follow at h
  split at h
  · cases h
  · cases h
  · assumption

/-- The directory that holds the last part of a path. -/
theorem locateParent_eq_ok {parts : List String}
    (h : fs.locateParent path parts = .ok (holder, name)) :
    path ≠ "" ∧ path.toList.contains '\x00' = false ∧
      fs.followAll (fs.origin path) parts.dropLast = .ok holder ∧
      fs.entry? holder = some .directory ∧ name = parts.getLast?.getD "" := by
  unfold locateParent at h
  by_cases hempty : path = ""
  · rw [if_pos hempty] at h
    cases h
  by_cases hzero : path.toList.contains '\x00' = true
  · rw [if_neg hempty, if_pos hzero] at h
    cases h
  rw [if_neg hempty, if_neg hzero] at h
  obtain ⟨spot, hspot, h⟩ := bind_eq_ok.mp h
  obtain ⟨_, hhere, h⟩ := bind_eq_ok.mp h
  cases h
  exact ⟨hempty, Bool.eq_false_iff.mpr hzero, hspot, entry_of_follow hhere, rfl⟩

theorem makeDirectory_eq_ok (h : fs.makeDirectory path = .ok made) :
    ∃ holder name, fs.locateParent path (solidParts path) = .ok (holder, name) ∧
      isDotPart name = false ∧ fs.entry? (holder ++ [name]) = none ∧
      fs.put (holder ++ [name]) .directory = made := by
  obtain ⟨⟨holder, name⟩, hparent, h⟩ := bind_eq_ok.mp h
  refine ⟨holder, name, hparent, ?_⟩
  dsimp only at h
  by_cases htaken : (isDotPart name || (fs.entry? (holder ++ [name])).isSome) = true
  · rw [if_pos htaken] at h
    cases h
  · rw [if_neg htaken] at h
    rw [Bool.or_eq_true, not_or, Bool.not_eq_true, Bool.not_eq_true, Option.isSome_eq_false_iff,
      Option.isNone_iff_eq_none] at htaken
    exact ⟨htaken.1, htaken.2, Except.ok.inj h⟩

/-- What each single directory keeps is kept when those above it are made first. -/
theorem makeDirectories_induction {P : FileSystem → Prop}
    (step : ∀ {fs made path}, P fs → makeDirectory fs path = .ok made → P made) (hfs : P fs)
    {fuel : Nat} (h : fs.makeDirectories path fuel = .ok made) : P made := by
  induction fuel generalizing path made with
  | zero => cases h
  | succ fuel ih =>
    rw [makeDirectories] at h
    split at h
    · cases h
      exact hfs
    split at h
    · rename_i hmade
      cases h
      exact step hfs hmade
    · -- The directory above is made first.
      rcases hparent : Path.parent? path with _ | above <;> rw [hparent] at h
      · cases h
      obtain ⟨holder, hholder, h⟩ := bind_eq_ok.mp h
      split at h
      · rename_i hmade
        cases h
        exact step (ih hholder) hmade
      · split at h <;> cases h
        exact ih hholder
    · split at h <;> cases h
      exact hfs

theorem truncate_eq_ok (h : fs.truncate path = .ok after) :
    ∃ holder name, fs.locateParent path (Path.parts path) = .ok (holder, name) ∧
      isDotPart name = false ∧ fs.entry? (holder ++ [name]) ≠ some .directory ∧
      fs.put (holder ++ [name]) (.file []) = after := by
  obtain ⟨⟨holder, name⟩, hparent, h⟩ := bind_eq_ok.mp h
  dsimp only at h
  by_cases hrefused : (isDotPart name || path.endsWith "/") = true
  · rw [if_pos hrefused] at h
    cases h
  rw [if_neg hrefused] at h
  by_cases hentry : fs.entry? (holder ++ [name]) = some .directory
  · rw [if_pos hentry] at h
    cases h
  rw [if_neg hentry] at h
  rw [Bool.or_eq_true, not_or, Bool.not_eq_true] at hrefused
  rw [if_neg hrefused.2] at hparent
  exact ⟨holder, name, hparent, hrefused.1, hentry, Except.ok.inj h⟩

end UnitAtlas.FileSystem
