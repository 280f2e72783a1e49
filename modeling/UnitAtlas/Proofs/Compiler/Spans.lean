-- The lines that the units of a compiled source span. A unit spans lines of its own definition only,
-- so definitions that stand apart in the tree have spans that do not overlap. A definition starts in
-- the span of the unit around it; a lambda can start below that span, for it stands on its own line
-- and its unit around it ends with the line of a statement.
import UnitAtlas.Proofs.Compiler.Definitions
import UnitAtlas.Proofs.Reading.LambdaUnits

namespace UnitAtlas

open Syntax LineTable

namespace Compiler

/-- A compiled source whose lines are in order lies on them. -/
theorem liesOn_of_compile {parse : Parser} {source filename : String} {root : Node} {u : CodeUnit}
    (hparse : parse source = some root) (hsource : root.isSource = true)
    (hordered : root.isOrdered = true) (h : compile parse source filename = .ok u) :
    Reading.LiesOn filename root u := by
  refine ⟨holds_of_compile hparse hsource h, ?_⟩
  obtain ⟨tree, -, hcompile⟩ := compile_eq_ok.mp h
  have hfirst : u.info.firstLine = 1 := (Draft.info_of_toUnit (compileTree_eq_ok.mp hcompile).2).2
  rw [hfirst]
  exact Node.OrderedFrom.of_root hsource hordered

/-- Where every definition starts on a later line than all of the ones before it, the spans of
definitions in the same unit are one behind the other. They start no earlier than the unit around
them, and each ends on a line of its own definition or before it. -/
theorem spans_of_definitions_never_overlap (parse : Parser) (source filename : String)
    (root : Node) (u : CodeUnit) (hparse : parse source = some root)
    (hsource : root.isSource = true) (hordered : root.isOrdered = true)
    (hapart : root.everywhere Node.definesApart = true)
    (h : compile parse source filename = .ok u) :
    (u.Throughout fun p =>
      (p.nested.Pairwise fun v w => v.isLambda = false → w.isLambda = false →
        ∃ s t, resolveSpan v = .ok s ∧ resolveSpan w = .ok t ∧ s.last < t.first) ∧
      ∀ v ∈ p.nested, v.isLambda = false →
        ∃ s t, resolveSpan p = .ok s ∧ resolveSpan v = .ok t ∧ s.first ≤ t.first) ∧
    ∀ a d, root.definitionAt? a = some d → ∃ v s, (u.definedAt? a).bind u.at? = some v ∧
      resolveSpan v = .ok s ∧ ∃ x ∈ d.node.lines, s.last ≤ x.toNat := by
  have hlies := liesOn_of_compile hparse hsource hordered h
  constructor
  · have hthroughout := hlies.throughout (Q := fun m => m.everywhere Node.definesApart = true)
      (fun m hm hq d hd => Node.everywhere_of_mem_definitions hm hq hd) hapart
    refine hthroughout.imp ?_
    rintro p (⟨m, hm, hq⟩ | hcode)
    · refine ⟨hm.pairwise_spans (Node.everywhere_iff.mp hq).1, ?_⟩
      intro v hv hlambda
      obtain ⟨s, t, hs, ht, hle, -⟩ := hm.first_within hv hlambda
      exact ⟨s, t, hs, ht, hle⟩
    · -- In the unit of a lambda there are only lambdas.
      have hnone : ∀ v ∈ p.nested, v.isLambda ≠ false := by
        intro v hv
        rw [(hcode.nested v hv).isLambda]
        decide
      refine ⟨List.pairwise_of_forall_mem_list ?_, fun v hv hlambda => absurd hlambda (hnone v hv)⟩
      intro v hv w _ hlambda
      exact absurd hlambda (hnone v hv)
  · intro a d hd
    obtain ⟨m, p, b, j, v, hmem, hp, ha, hb, hv, hmakes⟩ := hlies.definedAt? hd
    obtain ⟨s, hs, -, hlast⟩ := hp.exists_span_of_makes hmem hmakes
    refine ⟨v, s, ?_, hs, hlast⟩
    rw [ha, Option.bind_some, CodeUnit.at?_append, hb, Option.bind_some, CodeUnit.at?_singleton, hv]

theorem spans_in_both_suites_of_a_branch :
    compile outlineParser "" "m.py" = .ok outlineUnit ∧ outlineTree.isSource = true ∧
      outlineTree.isOrdered = true ∧ outlineTree.everywhere Node.definesApart = true ∧
      (∃ s t, resolveSpan outlineFunction = .ok s ∧ resolveSpan outlineDecorated = .ok t ∧
        s.last < t.first) ∧
      ∃ s, resolveSpan outlineClass = .ok s ∧ ∃ x ∈ ([3, 3, 4, 4] : List UInt32),
        s.last ≤ x.toNat := by
  have hordered : outlineTree.isOrdered = true := by decide +kernel
  have hapart : outlineTree.everywhere Node.definesApart = true := by decide +kernel
  obtain ⟨hunits, hdefinitions⟩ := spans_of_definitions_never_overlap outlineParser "" "m.py"
    outlineTree outlineUnit rfl isSource_outlineTree hordered hapart compile_outline
  refine ⟨compile_outline, isSource_outlineTree, hordered, hapart, ?_, ?_⟩
  · exact (List.pairwise_cons.mp (hunits [] outlineUnit rfl).1).1 outlineDecorated
      (List.mem_singleton_self _) rfl rfl
  · obtain ⟨v, s, hv, hs, hlast⟩ := hdefinitions [0, 0] _ rfl
    cases hv
    exact ⟨s, hs, hlast⟩

/-- A compiled source that follows the grammar and whose lines are in order is made for its
lambdas. -/
theorem lambdas_of_compile {parse : Parser} {source filename : String} {root : Node} {u : CodeUnit}
    (hparse : parse source = some root) (hscript : root.isScript = true)
    (hordered : root.isOrdered = true) (h : compile parse source filename = .ok u) :
    Reading.Lambdas filename root u := by
  obtain ⟨hsource, -, -, hplaces⟩ := Node.isScript_iff.mp hscript
  have hlies := liesOn_of_compile hparse hsource hordered h
  have hcount : ∀ c ∈ root.children, Reading.AllCount c := fun c hc =>
    Reading.allCount_of_places ((Node.isSource_iff.mp hsource).2 c hc) (hplaces c hc)
  refine ⟨hlies, hcount, fun v hv hlambda => ?_⟩
  obtain ⟨tree, htree, hcompile⟩ := compile_eq_ok.mp h
  rw [hparse] at htree
  cases htree
  have hunit := (compileTree_eq_ok.mp hcompile).2
  refine Reading.exists_lambdaOn hunit (fun _ hx => hx) (Reading.yields_moduleDraft hscript)
    (Draft.whole_of_toUnit hunit) ?_ hv hlambda
  intro m hm
  rcases Node.mem_lambdas_cases (Multiset.mem_coe.mp hm) with ⟨rfl, hkind⟩ | ⟨c, hc, hm⟩
  · exact absurd hkind (Node.kind_ne_lambda_of_isScript hscript)
  · obtain ⟨hwithin, hkind⟩ := Node.within_of_mem_lambdas hm
    refine ⟨hwithin.keeps (fun _ hc => hc.children) (hcount c hc), hkind, ?_⟩
    have hlines := hwithin.sublist_lines.trans (Node.sublist_linesAmong_of_mem hc)
    exact hlies.ordered.sorted.sublist (hlines.cons_cons _)

/-- Every unit starts in the span of the unit around it, or below it: a lambda that stands on a
later line than the statement it is a part of can start behind the last line of the unit. -/
theorem definitions_start_within_the_unit_around_them (parse : Parser) (source filename : String)
    (root : Node) (u : CodeUnit) (hparse : parse source = some root)
    (hscript : root.isScript = true) (hordered : root.isOrdered = true)
    (h : compile parse source filename = .ok u) :
    u.Throughout fun p => ∀ v ∈ p.nested, ∃ s t, resolveSpan p = .ok s ∧ resolveSpan v = .ok t ∧
      s.first ≤ t.first ∧ (v.isLambda = false → t.first ≤ s.last) := by
  have hlambdas := lambdas_of_compile hparse hscript hordered h
  have hreadable := readable_of_compile h
  have hlies := hlambdas.lies.throughout (Q := fun _ => True) (fun _ _ _ _ _ => trivial) trivial
  intro a p hp v hv
  obtain ⟨s, hs⟩ := (hreadable a p hp).resolveSpan_ok
  obtain ⟨t, ht⟩ := (hreadable.nested hp hv).resolveSpan_ok
  refine ⟨s, t, hs, ht, ?_, fun hlambda => ?_⟩
  · rw [first_of_resolveSpan hs, first_of_resolveSpan ht]
    exact UInt32.le_iff_toNat_le.mp (hlambdas.startsFirst a p hp v hv)
  · rcases hlies a p hp with ⟨m, hm, -⟩ | hcode
    · obtain ⟨s', t', hs', ht', -, hle⟩ := hm.first_within hv hlambda
      rw [hs] at hs'
      rw [ht] at ht'
      cases hs'
      cases ht'
      exact hle
    · rw [(hcode.nested v hv).isLambda] at hlambda
      cases hlambda

theorem a_class_starts_within_the_function_around_it :
    compile outlineParser "" "m.py" = .ok outlineUnit ∧ outlineTree.isScript = true ∧
      outlineTree.isOrdered = true ∧
      ∃ s t, resolveSpan outlineFunction = .ok s ∧ resolveSpan outlineClass = .ok t ∧
        s.first ≤ t.first ∧ t.first ≤ s.last := by
  have hscript : outlineTree.isScript = true := by decide +kernel
  have hordered : outlineTree.isOrdered = true := by decide +kernel
  have hunits := definitions_start_within_the_unit_around_them outlineParser "" "m.py" outlineTree
    outlineUnit rfl hscript hordered compile_outline
  obtain ⟨s, t, hs, ht, hfirst, hlast⟩ :=
    hunits [0] outlineFunction rfl outlineClass (List.mem_singleton_self _)
  exact ⟨compile_outline, hscript, hordered, s, t, hs, ht, hfirst, hlast rfl⟩

/-! ### A lambda below the statement it is a part of -/

/-- `x = [`, and `lambda: 0]` on the next line. -/
def spreadTree : Node :=
  node none 0 (.other "module") "" [
    node none 0 .expressionStatement "" [
      node none 0 .assignment "" [
        word (some .left) 0 "x",
        node (some .right) 0 .list "" [
          node none 1 .lambda "" [node (some .body) 1 .integer "0" []]]]]]

def spreadParser : Parser := fun _ => some spreadTree

def spreadLambda : CodeUnit :=
  plainUnit "<lambda>" 2 [100, 0, 0, 83] [] [] [] [.literal (.int 0)]

def spreadUnit : CodeUnit :=
  plainUnit "<module>" 1 [100, 0, 0, 132, 0, 0, 103, 1, 0, 90, 0, 0, 100, 1, 0, 83] [] ["x"] []
    [.unit spreadLambda, .literal .none]

/-- The line table of the module stays on the line of the statement. -/
theorem a_lambda_starts_behind_the_unit_around_it :
    compile spreadParser "" "m.py" = .ok spreadUnit ∧ spreadTree.label.hasError = false ∧
      spreadTree.isScript = true ∧ spreadTree.isOrdered = true ∧
      spreadUnit.nested = [spreadLambda] ∧ resolveSpan spreadUnit = .ok ⟨1, 1⟩ ∧
      resolveSpan spreadLambda = .ok ⟨2, 2⟩ := by
  refine ⟨?_, rfl, by decide +kernel, by decide +kernel, rfl, rfl, rfl⟩
  with_unfolding_all rfl

end Compiler

end UnitAtlas
