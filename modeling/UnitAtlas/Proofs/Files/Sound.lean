-- Sound file systems: each file is there once, and under names. What the program does to a file
-- system keeps it sound.
import Mathlib.Data.List.Basic
import UnitAtlas.Proofs.Files.LogFiles
import UnitAtlas.Proofs.Files.Paths

namespace UnitAtlas

namespace FileSystem

/-- A file system in which each file is once, and under names. -/
structure IsSound (fs : FileSystem) : Prop where
  names : ∀ entry ∈ fs.entries, ∀ name ∈ entry.1, Path.IsName name
  once : (fs.entries.map Prod.fst).Nodup

theorem mem_children {fs : FileSystem} {spot : Location} {name : String} {e : FileEntry} :
    (name, e) ∈ fs.children spot ↔ (spot ++ [name], e) ∈ fs.entries := by
  unfold children
  rw [List.mem_filterMap]
  constructor
  · rintro ⟨⟨there, e'⟩, hmem, hchild⟩
    dsimp only at hchild
    split at hchild
    · rename_i h
      obtain ⟨hsolid, rfl⟩ := h
      cases hchild
      rw [List.getLast?_eq_getLast_of_ne_nil hsolid, Option.getD_some,
        List.dropLast_append_getLast hsolid]
      exact hmem
    · cases hchild
  · intro hmem
    exact ⟨(spot ++ [name], e), hmem, by simp⟩

theorem IsSound.isName_of_mem {fs : FileSystem} (hfs : fs.IsSound) {spot : Location}
    {name : String} {e : FileEntry} (h : (spot ++ [name], e) ∈ fs.entries) : Path.IsName name :=
  hfs.names _ h _ (List.mem_append_right _ (List.mem_singleton_self _))

theorem IsSound.entry_of_mem {fs : FileSystem} (hfs : fs.IsSound) {spot : Location}
    {name : String} {e : FileEntry} (h : (spot ++ [name], e) ∈ fs.entries) :
    fs.entry? (spot ++ [name]) = some e := by
  unfold entry?
  rw [if_neg (by simp), List.lookup_eq_some_iff]
  obtain ⟨front, back, hsplit⟩ := List.append_of_mem h
  refine ⟨front, back, hsplit, fun other hother => ?_⟩
  have honce := hfs.once
  rw [hsplit, List.map_append, List.map_cons, List.nodup_append] at honce
  rw [bne_iff_ne]
  exact (honce.2.2 other.1 (List.mem_map_of_mem hother) (spot ++ [name]) List.mem_cons_self).symm

/-! ## Changes -/

variable {fs : FileSystem}

theorem IsSound.isName_of_entry (hfs : fs.IsSound) {spot : Location} {e : FileEntry}
    (h : fs.entry? spot = some e) : ∀ name ∈ spot, Path.IsName name := by
  unfold entry? at h
  split at h
  · subst spot
    exact List.forall_mem_nil _
  · obtain ⟨front, back, hsplit, -⟩ := List.lookup_eq_some_iff.mp h
    exact hfs.names (spot, e) (hsplit ▸ List.mem_append_right front List.mem_cons_self)

theorem IsSound.remove (hfs : fs.IsSound) (spot : Location) : (fs.remove spot).IsSound :=
  ⟨fun entry hentry => hfs.names entry (List.mem_of_mem_filter hentry),
    hfs.once.sublist (List.filter_sublist.map Prod.fst)⟩

theorem IsSound.put (hfs : fs.IsSound) {spot : Location} (hspot : ∀ name ∈ spot, Path.IsName name)
    (e : FileEntry) : (fs.put spot e).IsSound := by
  have hrest := hfs.remove spot
  constructor
  · exact List.forall_mem_cons.mpr ⟨hspot, hrest.names⟩
  · rw [FileSystem.put, List.map_cons, List.nodup_cons]
    refine ⟨fun hmem => ?_, hrest.once⟩
    obtain ⟨entry, hentry, hthere⟩ := List.mem_map.mp hmem
    simp [FileSystem.remove, hthere] at hentry

/-- The last part of a path is a name, if it leads anywhere but up. -/
theorem isName_of_locateParent {path name : String} {parts : List String} {holder : Location}
    (h : fs.locateParent path parts = .ok (holder, name)) (hparts : parts ⊆ Path.parts path)
    (hdot : isDotPart name = false) : Path.IsName name := by
  obtain ⟨-, hzero, -, -, hname⟩ := locateParent_eq_ok h
  simp only [isDotPart, Bool.or_eq_false_iff, decide_eq_false_iff_not] at hdot
  obtain ⟨⟨hempty, hdot⟩, hdots⟩ := hdot
  have hmem : name ∈ Path.parts path := by
    rcases hlast : parts.getLast? with _ | part <;> rw [hlast] at hname
    · exact absurd hname hempty
    · exact hname ▸ hparts (List.mem_of_getLast? hlast)
  have hzero' : '\x00' ∉ path.toList := by simpa using hzero
  exact ⟨Path.noSlash_of_mem_parts hmem, mt (Path.mem_toList_of_mem_parts hmem) hzero', hempty,
    hdot, hdots⟩

theorem IsSound.put_of_locateParent (hfs : fs.IsSound) {path name : String} {parts : List String}
    {holder : Location} (h : fs.locateParent path parts = .ok (holder, name))
    (hparts : parts ⊆ Path.parts path) (hdot : isDotPart name = false) (e : FileEntry) :
    (fs.put (holder ++ [name]) e).IsSound := by
  obtain ⟨-, -, -, hholder, -⟩ := locateParent_eq_ok h
  refine hfs.put (List.forall_mem_append.mpr ⟨hfs.isName_of_entry hholder, ?_⟩) e
  exact List.forall_mem_singleton.mpr (isName_of_locateParent h hparts hdot)

theorem solidParts_subset (path : String) : solidParts path ⊆ Path.parts path := by
  intro part hpart
  have hkept := (List.dropWhile_suffix _).subset (List.mem_reverse.mp hpart)
  exact List.mem_reverse.mp hkept

theorem IsSound.makeDirectory (hfs : fs.IsSound) {made : FileSystem} {path : String}
    (h : fs.makeDirectory path = .ok made) : made.IsSound := by
  obtain ⟨holder, name, hparent, hdot, -, rfl⟩ := makeDirectory_eq_ok h
  exact hfs.put_of_locateParent hparent (solidParts_subset path) hdot .directory

theorem IsSound.makeDirectories (hfs : fs.IsSound) {made : FileSystem} {path : String} {fuel : Nat}
    (h : fs.makeDirectories path fuel = .ok made) : made.IsSound :=
  makeDirectories_induction (P := IsSound) (fun hfs hmade => hfs.makeDirectory hmade) hfs h

theorem IsSound.truncate (hfs : fs.IsSound) {after : FileSystem} {path : String}
    (h : fs.truncate path = .ok after) : after.IsSound := by
  obtain ⟨holder, name, hparent, hdot, -, rfl⟩ := truncate_eq_ok h
  exact hfs.put_of_locateParent hparent (List.Subset.refl _) hdot (.file [])

theorem IsSound.append (hfs : fs.IsSound) {after : FileSystem} {path : String} {bytes : Bytes}
    (h : fs.append path bytes = .ok after) : after.IsSound := by
  obtain ⟨spot, content, -, hcontent, rfl⟩ := append_eq_ok.mp h
  exact hfs.put (hfs.isName_of_entry hcontent) _

end FileSystem

/-! ## Logs -/

namespace LogFile

variable {fs after : FileSystem}

theorem isSound_note (hfs : fs.IsSound) (log : Option LogFile) (bytes : Bytes) :
    (note log fs bytes).IsSound := by
  rcases note_cases log fs bytes with hnote | ⟨file, -, happend⟩
  · rwa [hnote]
  · exact hfs.append happend

theorem isSound_create (hfs : fs.IsSound) {log : LogFile} {path : String}
    (h : create fs path = .ok (log, after)) : after.IsSound := by
  obtain ⟨-, ready, hready, hemptied⟩ := create_eq_ok h
  rcases withDirectory_eq_ok hready with rfl | ⟨above, hmade⟩
  · exact hfs.truncate hemptied
  · exact (hfs.makeDirectories hmade).truncate hemptied

end LogFile

end UnitAtlas
