-- Reports as text lose nothing, repeat nothing and keep the order. The entities of a file are
-- placed one after the other into groups by line; each step keeps the groups arranged, so the text
-- is that of an arrangement of all entities, whatever their lines are.
import Mathlib.Data.List.Forall2
import UnitAtlas.Proofs.Entity.Methods
import UnitAtlas.Report.Text

namespace UnitAtlas

namespace FileReport

variable {e : Entity} {groups : List (Nat × List Entity)} {entities : List Entity}

/-! ## One more entity -/

theorem mem_lines_place {line : Nat} : line ∈ (place e groups).map (·.1) ↔
    line = e.lines.first ∨ line ∈ groups.map (·.1) := by
  induction groups with
  | nil => simp [place]
  | cons group groups ih =>
    obtain ⟨top, rows⟩ := group
    unfold place
    split
    · simp
    · split
      · rename_i heq
        simp [heq]
      · simp only [List.map_cons, List.mem_cons, ih]
        exact or_left_comm

theorem ascending_place (h : (groups.map (·.1)).Pairwise (· < ·)) :
    ((place e groups).map (·.1)).Pairwise (· < ·) := by
  induction groups with
  | nil => simp [place]
  | cons group groups ih =>
    obtain ⟨top, rows⟩ := group
    obtain ⟨habove, hlater⟩ := List.pairwise_cons.mp h
    unfold place
    split
    · rename_i hlt
      refine List.pairwise_cons.mpr ⟨fun line hline => ?_, h⟩
      rcases List.mem_cons.mp hline with rfl | hline
      · exact hlt
      · exact Nat.lt_trans hlt (habove line hline)
    · split
      · exact h
      · refine List.pairwise_cons.mpr ⟨fun line hline => ?_, ih hlater⟩
        rcases mem_lines_place.mp hline with rfl | hline
        · exact Nat.lt_of_le_of_ne (Nat.not_lt.mp ‹_›) (Ne.symm ‹_›)
        · exact habove line hline

/-- A group is as it was, or it has one row more, or it is new. -/
theorem mem_place (h : (groups.map (·.1)).Pairwise (· < ·)) {group : Nat × List Entity}
    (hgroup : group ∈ place e groups) :
    (group ∈ groups ∧ group.1 ≠ e.lines.first) ∨
      (∃ rows, (e.lines.first, rows) ∈ groups ∧ group = (e.lines.first, rows ++ [e])) ∨
      e.lines.first ∉ groups.map (·.1) ∧ group = (e.lines.first, [e]) := by
  induction groups with
  | nil => exact Or.inr (Or.inr ⟨List.not_mem_nil, List.mem_singleton.mp hgroup⟩)
  | cons first groups ih =>
    obtain ⟨top, rows⟩ := first
    obtain ⟨habove, hlater⟩ := List.pairwise_cons.mp h
    have hother : ∀ other ∈ groups, top < other.1 := fun other hother =>
      habove other.1 (List.mem_map_of_mem hother)
    unfold place at hgroup
    split at hgroup
    · rename_i hlt
      have hfresh : ∀ line ∈ ((top, rows) :: groups).map (·.1), e.lines.first < line := by
        intro line hline
        rcases List.mem_cons.mp hline with rfl | hline
        · exact hlt
        · exact Nat.lt_trans hlt (habove line hline)
      rcases List.mem_cons.mp hgroup with rfl | hgroup
      · exact Or.inr (Or.inr ⟨fun hmem => Nat.lt_irrefl _ (hfresh _ hmem), rfl⟩)
      · exact Or.inl ⟨hgroup, Nat.ne_of_gt (hfresh _ (List.mem_map_of_mem hgroup))⟩
    · split at hgroup
      · rename_i heq
        rcases List.mem_cons.mp hgroup with rfl | hgroup
        · exact Or.inr (Or.inl ⟨rows, heq ▸ List.mem_cons_self, heq ▸ rfl⟩)
        · exact Or.inl ⟨List.mem_cons_of_mem _ hgroup, heq ▸ Nat.ne_of_gt (hother group hgroup)⟩
      · rename_i hne
        rcases List.mem_cons.mp hgroup with rfl | hgroup
        · exact Or.inl ⟨List.mem_cons_self, Ne.symm hne⟩
        · rcases ih hlater hgroup with ⟨hmem, hline⟩ | ⟨old, hmem, rfl⟩ | ⟨hnew, rfl⟩
          · exact Or.inl ⟨List.mem_cons_of_mem _ hmem, hline⟩
          · exact Or.inr (Or.inl ⟨old, List.mem_cons_of_mem _ hmem, rfl⟩)
          · refine Or.inr (Or.inr ⟨?_, rfl⟩)
            rw [List.map_cons, List.mem_cons]
            exact not_or.mpr ⟨hne, hnew⟩

theorem place_perm (e : Entity) (groups : List (Nat × List Entity)) :
    ((place e groups).flatMap (·.2)).Perm (groups.flatMap (·.2) ++ [e]) := by
  induction groups with
  | nil => exact List.Perm.refl _
  | cons group groups ih =>
    obtain ⟨top, rows⟩ := group
    unfold place
    split
    · exact (List.perm_append_singleton e _).symm
    · split
      · simp only [List.flatMap_cons, List.append_assoc]
        exact List.perm_append_comm.append_left rows
      · simp only [List.flatMap_cons, List.append_assoc]
        exact ih.append_left rows

/-! ## Arrangements -/

/-- Groups of all entities under the lines that they start at. -/
structure Arranges (entities : List Entity) (groups : List (Nat × List Entity)) : Prop where
  ascending : (groups.map (·.1)).Pairwise (· < ·)
  headings : ∀ line, line ∈ groups.map (·.1) ↔ ∃ e ∈ entities, e.lines.first = line
  rows : ∀ group ∈ groups, group.2 = entities.filter (·.lines.first == group.1)
  everything : (groups.flatMap (·.2)).Perm entities

namespace Arranges

theorem nil : Arranges [] [] where
  ascending := List.Pairwise.nil
  headings line := by simp
  rows := nofun
  everything := List.Perm.refl _

theorem place (h : Arranges entities groups) (e : Entity) :
    Arranges (entities ++ [e]) (place e groups) where
  ascending := ascending_place h.ascending
  headings line := by
    rw [mem_lines_place, h.headings]
    simp only [List.mem_append, List.mem_singleton, or_and_right, exists_or, exists_eq_left]
    rw [or_comm, eq_comm]
  rows := by
    intro group hgroup
    rw [List.filter_append]
    rcases mem_place h.ascending hgroup with ⟨hmem, hline⟩ | ⟨old, hmem, rfl⟩ | ⟨hnew, rfl⟩
    · rw [h.rows group hmem, List.filter_singleton, beq_eq_false_iff_ne.mpr (Ne.symm hline)]
      exact (List.append_nil _).symm
    · have hold : old = _ := h.rows _ hmem
      rw [hold, List.filter_singleton, beq_self_eq_true]
      rfl
    · have hnone : entities.filter (·.lines.first == e.lines.first) = [] := by
        refine List.filter_eq_nil_iff.mpr fun other hother heq => hnew ?_
        exact (h.headings _).mpr ⟨other, hother, beq_iff_eq.mp heq⟩
      rw [hnone, List.filter_singleton, beq_self_eq_true]
      rfl
  everything := (place_perm e groups).trans (h.everything.append_right [e])

theorem foldl (later : List Entity) (h : Arranges entities groups) :
    Arranges (entities ++ later)
      (later.foldl (fun groups e => FileReport.place e groups) groups) := by
  induction later generalizing entities groups with
  | nil => rwa [List.append_nil]
  | cons e later ih =>
    rw [List.append_cons, List.foldl_cons]
    exact ih (h.place e)

theorem of_grouped (entities : List Entity) : Arranges entities (grouped entities) :=
  nil.foldl entities

/-- Of two entities on one line the one listed first has the upper row. -/
theorem inOrder (h : Arranges entities groups) {upper lower : Entity}
    (horder : [upper, lower].Sublist entities) (hline : upper.lines.first = lower.lines.first) :
    ∃ group ∈ groups, [upper, lower].Sublist group.2 := by
  have hmem : upper ∈ entities := horder.subset List.mem_cons_self
  obtain ⟨group, hgroup, hfirst⟩ := List.mem_map.mp ((h.headings _).mpr ⟨upper, hmem, rfl⟩)
  refine ⟨group, hgroup, ?_⟩
  have hrows := horder.filter (·.lines.first == group.1)
  rw [List.filter_cons_of_pos (by simp [hfirst]), List.filter_cons_of_pos (by simp [hfirst, hline]),
    List.filter_nil, ← h.rows group hgroup] at hrows
  exact hrows

end Arranges

/-! ## What is printed -/

/-- The text that is to be printed for a report: the line of a file that could not be mapped, or
the path of the file, and below it the groups of an arrangement. -/
inductive Prints : FileReport → String → Prop
  | failed (path error : String) :
      Prints (.failed path error) (path ++ ": error: " ++ error ++ "\n")
  | mapped (path : String) {entities : List Entity} {groups : List (Nat × List Entity)}
      (h : Arranges entities groups) :
      Prints (.mapped path entities)
        (path ++ "\n" ++ String.join (groups.map fun group =>
          toString group.1 ++ ":\n" ++ String.join (group.2.map fun e =>
            "    " ++ e.displayText ++ "  [" ++ e.identity.text ++ "] " ++ toString e.lines.first ++
              "-" ++ toString e.lines.last ++ "\n")))

theorem prints_text (report : FileReport) : Prints report report.text := by
  cases report with
  | mapped path entities => exact .mapped path (.of_grouped entities)
  | failed path error => exact .failed path error

theorem pair_sublist {α : Type} {l : List α} {i j : Nat} {a b : α} (hij : i < j)
    (ha : l[i]? = some a) (hb : l[j]? = some b) : [a, b].Sublist l := by
  have hbefore : a ∈ l.take j := List.mem_of_getElem? (by rwa [List.getElem?_take_of_lt hij])
  have hbehind : b ∈ l.drop j := List.mem_of_getElem? (i := 0) (by rwa [List.getElem?_drop])
  have hboth := (List.singleton_sublist.mpr hbefore).append (List.singleton_sublist.mpr hbehind)
  rwa [List.take_append_drop] at hboth

/-- Reports are printed one after the other. Of a mapped file each entity has one row, with what is
shown for it, its identity and its lines, under the heading of the line that it starts at; the
headings ascend, and rows under one heading keep the order of the list. So in the map of a unit the
row of a nested unit that starts on the line of the unit around it stands below the row of that. -/
theorem text_reports_have_each_entity_once_in_order :
    (∀ reports : List FileReport, ∃ texts, List.Forall₂ Prints reports texts ∧
      textOfAll reports = String.join texts) ∧
    ∀ (c : Classifier) (root : CodeUnit) (entities : List Entity)
      (groups : List (Nat × List Entity)), EntityTree.build c root = .ok entities →
      Arranges (EntityTree.labelMethods entities) groups →
      ∀ (i : Nat) (a : List Nat) (e : Entity), root.addresses[i]? = some a → a ≠ [] →
        (EntityTree.labelMethods entities)[i]? = some e →
        ∃ (j : Nat) (parent : Entity), root.addresses[j]? = some a.dropLast ∧
          (EntityTree.labelMethods entities)[j]? = some parent ∧
          (parent.lines.first = e.lines.first →
            ∃ group ∈ groups, [parent, e].Sublist group.2) := by
  refine ⟨fun reports => ⟨reports.map text, ?_, rfl⟩, ?_⟩
  · rw [List.forall₂_map_right_iff, List.forall₂_same]
    exact fun report _ => prints_text report
  · intro c root entities groups hbuild harranges i a e ha hne he
    obtain ⟨bare, hbare, rfl⟩ := EntityTree.getElem?_labelMethods.mp he
    obtain ⟨j, hj, parent, haj, hparent, -⟩ := EntityTree.exists_parent hbuild ha hbare hne
    have hparent' := EntityTree.getElem?_labelMethods.mpr ⟨parent, hparent, rfl⟩
    exact ⟨j, _, haj, hparent', harranges.inOrder (pair_sublist hj hparent' he)⟩

/-! ### A function on the first line of its module -/

def shortFunction : CodeUnit := EntityTree.bareUnit "f" 1 [100, 0, 0, 83] [] [.literal .none]

def shortModule : CodeUnit :=
  EntityTree.bareUnit "<module>" 1
    [100, 0, 0, 132, 0, 0, 90, 0, 0, 100, 1, 0, 90, 1, 0, 100, 2, 0, 83] [9, 1]
    [.unit shortFunction, .literal (.bool true), .literal .none]

def shortModuleEntity : Entity :=
  ⟨.module, "<module>", ⟨1, 2⟩, ⟨0, 19⟩, [⟨.module, "<module>"⟩], "", .ofUnit shortModule⟩

def shortFunctionEntity : Entity :=
  ⟨.function, "f", ⟨1, 1⟩, ⟨0, 6⟩, [⟨.module, "<module>"⟩, ⟨.function, "f"⟩], "()",
    .ofUnit shortFunction⟩

theorem a_module_stands_above_its_function :
    EntityTree.build ⟨3, [89]⟩ shortModule = .ok [shortModuleEntity, shortFunctionEntity] ∧
      ∃ group ∈ grouped [shortModuleEntity, shortFunctionEntity],
        [shortModuleEntity, shortFunctionEntity].Sublist group.2 := by
  have hbuild : EntityTree.build ⟨3, [89]⟩ shortModule =
      .ok [shortModuleEntity, shortFunctionEntity] := rfl
  refine ⟨hbuild, ?_⟩
  obtain ⟨-, hbelow⟩ := text_reports_have_each_entity_once_in_order
  obtain ⟨j, parent, hj, hparent, hgroup⟩ := hbelow ⟨3, [89]⟩ shortModule _ _ hbuild
    (.of_grouped _) 1 [0] shortFunctionEntity rfl nofun rfl
  rcases j with _ | _ | j
  · cases hparent
    exact hgroup rfl
  · cases hj
  · cases hj

end FileReport

end UnitAtlas
