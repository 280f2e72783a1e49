-- The windows of the units directly inside another one, in the order of the constant table. The ones
-- of definitions start in order; that of a lambda does as far as its line is among those that the
-- unit around it reaches, and in order with the lines of the other units there.
import UnitAtlas.Proofs.Compiler.Spans
import UnitAtlas.Proofs.Entity.Addresses
import UnitAtlas.Proofs.Unit.Window

namespace UnitAtlas

open Syntax LineTable

/-- Units of definitions are on lines in order. -/
theorem Reading.LiesOn.pairwise_firstLine {filename : String} {n : Node} {u : CodeUnit}
    (h : Reading.LiesOn filename n u) : u.nested.Pairwise fun v w =>
      v.isLambda = false → w.isLambda = false → v.info.firstLine ≤ w.info.firstLine := by
  refine h.holds.pairwise h.ordered.sorted_definitions ?_
  intro d e v w _ _ hle hv hw
  rw [hv.firstLine, hw.firstLine]
  exact hle

namespace Compiler

/-- The windows of two units, one before the other in the constant table, start in this order when
both are made of definitions, and when the second one starts on no earlier line, one that the unit
around them still reaches. -/
theorem windows_start_in_order (parse : Parser) (source filename : String) (root : Node)
    (u : CodeUnit) (c : Classifier) (hparse : parse source = some root)
    (hsource : root.isSource = true) (hordered : root.isOrdered = true)
    (h : compile parse source filename = .ok u) :
    ∃ entities, EntityTree.build c u = .ok entities ∧
      ∀ (b : List Nat) (p v w : CodeUnit) (i j : Nat), u.at? b = some p →
        p.nested[i]? = some v → p.nested[j]? = some w → i < j →
        ∃ s e f, resolveSpan p = .ok s ∧ EntityTree.entityAt? u entities (b ++ [i]) = some e ∧
          EntityTree.entityAt? u entities (b ++ [j]) = some f ∧
          (v.isLambda = false ∧ w.isLambda = false ∨
              e.lines.first ≤ f.lines.first ∧ f.lines.first ≤ s.last →
            e.window.start ≤ f.window.start) := by
  have hreadable := readable_of_compile h
  obtain ⟨entities, hbuild⟩ := EntityTree.build_ok (c := c) hreadable
  refine ⟨entities, hbuild, ?_⟩
  intro b p v w i j hp hv hw hij
  obtain ⟨s, hs⟩ := (hreadable b p hp).resolveSpan_ok
  obtain ⟨e, he, htells, hstands⟩ := EntityTree.exists_entityAt? hbuild hp hv
  obtain ⟨f, hf, htells', hstands'⟩ := EntityTree.exists_entityAt? hbuild hp hw
  have hwindows : e.lines.first ≤ f.lines.first → f.lines.first ≤ s.last →
      e.window.start ≤ f.window.start :=
    Window.start_le_of_extract hs htells.lines htells'.lines hstands.window hstands'.window
  refine ⟨s, e, f, hs, he, hf, ?_⟩
  rintro (⟨hdefined, hdefined'⟩ | ⟨hle, hlast⟩)
  · -- The lines of definitions are in order, and the unit around them reaches each.
    have hlies := (liesOn_of_compile hparse hsource hordered h).throughout
      (Q := fun _ => True) (fun _ _ _ _ _ => trivial) trivial
    rcases hlies b p hp with ⟨m, hm, -⟩ | hcode
    · obtain ⟨hi, rfl⟩ := List.getElem?_eq_some_iff.mp hv
      obtain ⟨hj, rfl⟩ := List.getElem?_eq_some_iff.mp hw
      have hlines := List.pairwise_iff_getElem.mp hm.pairwise_firstLine i j hi hj hij
        hdefined hdefined'
      obtain ⟨s', t, hs', ht, -, hlast⟩ := hm.first_within (List.getElem_mem hj) hdefined'
      rw [hs] at hs'
      rw [htells'.lines] at ht
      cases hs'
      cases ht
      refine hwindows ?_ hlast
      rw [first_of_resolveSpan htells.lines, first_of_resolveSpan htells'.lines]
      exact UInt32.le_iff_toNat_le.mp hlines
    · rw [(hcode.nested v (List.mem_of_getElem? hv)).isLambda] at hdefined
      cases hdefined
  · exact hwindows hle hlast

theorem functions_of_a_branch_start_in_order :
    compile outlineParser "" "m.py" = .ok outlineUnit ∧ outlineTree.isSource = true ∧
      outlineTree.isOrdered = true ∧
      ∃ entities e f, EntityTree.build ⟨3, [89]⟩ outlineUnit = .ok entities ∧
        EntityTree.entityAt? outlineUnit entities [0] = some e ∧
        EntityTree.entityAt? outlineUnit entities [1] = some f ∧
        e.window.start ≤ f.window.start := by
  have hordered : outlineTree.isOrdered = true := by decide +kernel
  obtain ⟨entities, hbuild, hwindows⟩ := windows_start_in_order outlineParser "" "m.py" outlineTree
    outlineUnit ⟨3, [89]⟩ rfl isSource_outlineTree hordered compile_outline
  obtain ⟨s, e, f, -, he, hf, hstart⟩ := hwindows [] outlineUnit outlineFunction outlineDecorated 0 1
    rfl rfl rfl (by decide)
  exact ⟨compile_outline, isSource_outlineTree, hordered, entities, e, f, hbuild, he, hf,
    hstart (Or.inl ⟨rfl, rfl⟩)⟩

/-! ### A default value on a line of its own -/

/-- `def f(a=1,`, `b=lambda: 0):`, `pass` and `x = 1`, each on a line of its own. -/
def laterTree : Node :=
  node none 0 (.other "module") "" [
    node none 0 .functionDefinition "" [
      word (some .name) 0 "f",
      node (some .parameters) 0 (.other "parameters") "" [
        node none 0 .defaultParameter "" [
          word (some .name) 0 "a", node (some .value) 0 .integer "1" []],
        node none 1 .defaultParameter "" [
          word (some .name) 1 "b",
          node (some .value) 1 .lambda "" [node (some .body) 1 .integer "0" []]]],
      node (some .body) 2 .block "" [node none 2 .passStatement "" []]],
    node none 3 .expressionStatement "" [
      node none 3 .assignment "" [
        word (some .left) 3 "x", node (some .right) 3 .integer "1" []]]]

def laterParser : Parser := fun _ => some laterTree

def laterFunction : CodeUnit :=
  ⟨⟨"f", "m.py", 1, [100, 0, 0, 83], [0, 2], [], ["a", "b"], 2, 0, .empty⟩, [.literal .none]⟩

def laterUnit : CodeUnit :=
  plainUnit "<module>" 1
    [100, 0, 0, 100, 1, 0, 132, 0, 0, 100, 2, 0, 132, 2, 0, 90, 0, 0, 100, 0, 0, 90, 1, 0,
      100, 3, 0, 83]
    [18, 3] ["f", "x"] []
    [.literal (.int 1), .unit spreadLambda, .unit laterFunction, .literal .none]

set_option maxRecDepth 10000 in
/-- The line of the lambda is first reached by the statement behind the function. -/
theorem a_default_starts_behind_its_function :
    compile laterParser "" "m.py" = .ok laterUnit ∧ laterTree.label.hasError = false ∧
      laterTree.isSource = true ∧ laterTree.isOrdered = true ∧
      laterUnit.nested = [spreadLambda, laterFunction] ∧
      ∃ entities e f, EntityTree.build ⟨3, [89]⟩ laterUnit = .ok entities ∧
        EntityTree.entityAt? laterUnit entities [0] = some e ∧
        EntityTree.entityAt? laterUnit entities [1] = some f ∧
        e.window = ⟨18, 18⟩ ∧ f.window = ⟨0, 15⟩ := by
  refine ⟨?_, rfl, by decide +kernel, by decide +kernel, rfl, _, _, _, rfl, rfl, rfl, rfl, rfl⟩
  with_unfolding_all rfl

end Compiler

end UnitAtlas
