-- What is sure of every unit of a compiled source, whatever the parser made of it: nothing that
-- comes after the compiler can fail on it, its code is made of whole instructions that stay
-- within their tables, and no jump goes astray.
import UnitAtlas.Compiler
import UnitAtlas.Proofs.Draft.Finished
import UnitAtlas.Proofs.Reading.StatementShape

namespace UnitAtlas.Compiler

open Syntax

/-! ## From the tree to its units -/

theorem compileTree_eq_ok {filename : String} {root : Node} {u : CodeUnit} :
    compileTree filename root = .ok u ↔
      root.label.hasError = false ∧ Reading.unitOf filename root = .ok u := by
  unfold compileTree
  by_cases herror : root.label.hasError = true
  · simp [herror]
  · simp [herror]

theorem compile_eq_ok {parse : Parser} {source filename : String} {u : CodeUnit} :
    compile parse source filename = .ok u ↔
      ∃ root, parse source = some root ∧ compileTree filename root = .ok u := by
  unfold compile
  rcases parse source with _ | root
  · simp
  · simp

/-- Every unit of a compiled source is made of a well-shaped draft that ends by leaving it. -/
theorem throughout_of_compile {P : CodeUnit → Prop} {parse : Parser} {source filename : String}
    {u : CodeUnit}
    (hP : ∀ (shape : UnitShape) (body : Draft) (v : CodeUnit), body.Returns ∧ body.WellShaped →
      body.toUnit filename shape = .ok v → P v)
    (h : compile parse source filename = .ok u) : u.Throughout P := by
  obtain ⟨root, -, htree⟩ := compile_eq_ok.mp h
  have hunit := (compileTree_eq_ok.mp htree).2
  have hbody := Reading.wellShaped_draft root
  have hreturns := Reading.returns_moduleDraft (Reading.ofNode root).place
  refine Draft.throughout_of_toUnit hP ⟨hreturns, hbody⟩ ?_ hunit
  exact hbody.units

theorem readable_of_compile {parse : Parser} {source filename : String} {u : CodeUnit}
    (h : compile parse source filename = .ok u) : u.Throughout CodeUnit.Readable :=
  throughout_of_compile (fun _ _ _ _ hv => Draft.readable_of_toUnit hv) h

theorem wellFormed_of_compile {parse : Parser} {source filename : String} {u : CodeUnit}
    (h : compile parse source filename = .ok u) : u.Throughout fun v => ∃ is, v.WellFormed is :=
  throughout_of_compile (fun _ _ _ hbody hv => Draft.wellFormed_of_toUnit hv hbody.2 hbody.1) h

theorem neverPanics_compile (parse : Parser) (source filename : String) :
    Fault.NeverPanics (compile parse source filename) := by
  unfold compile
  split
  · exact Fault.neverPanics_error _
  · unfold compileTree
    split
    · exact Fault.neverPanics_error _
    · exact (Draft.toUnit_neverPanics _ _ _).rename _

/-! ### A loop that is continued, with a lambda in it -/

def node (field : Option Field) (row : Nat) (kind : Kind) (text : String)
    (children : List Node) : Node :=
  ⟨⟨kind, true, false, false, field, row, text⟩, children⟩

def word (field : Option Field) (row : Nat) (text : String) : Node :=
  node field row .identifier text []

/-- `while n:` on the first line, then `if n:`, `continue` and `n = lambda k: k`. -/
def loopTree : Node :=
  node none 0 (.other "module") "" [
    node none 0 .whileStatement "" [
      word (some .condition) 0 "n",
      node (some .body) 1 .block "" [
        node none 1 .ifStatement "" [
          word (some .condition) 1 "n",
          node (some .consequence) 2 .block "" [node none 2 .continueStatement "" []]],
        node none 3 .expressionStatement "" [
          node none 3 .assignment "" [
            word (some .left) 3 "n",
            node (some .right) 3 .lambda "" [
              node (some .parameters) 3 (.other "lambda_parameters") "" [word none 3 "k"],
              word (some .body) 3 "k"]]]]]]

def loopParser : Parser := fun _ => some loopTree

def loopLambda : CodeUnit :=
  ⟨⟨"<lambda>", "m.py", 4, [124, 0, 0, 83], [], [], ["k"], 1, 0, .empty⟩, []⟩

def loopCode : Bytes := [
  120, 28, 0, 101, 0, 0, 114, 30, 0, 101, 0, 0, 114, 18, 0, 119, 3, 0,
  100, 0, 0, 132, 0, 0, 90, 0, 0, 113, 3, 0, 87, 100, 1, 0, 83]

def loopUnit : CodeUnit :=
  ⟨⟨"<module>", "m.py", 1, loopCode, [9, 1, 6, 1, 3, 1], ["n"], [], 0, 0, .empty⟩,
    [.unit loopLambda, .literal .none]⟩

set_option maxRecDepth 10000 in
theorem compile_loop : compile loopParser "" "m.py" = .ok loopUnit := by
  with_unfolding_all rfl

/-! ## The laws -/

/-- The units of a compiled source have readable line tables and names for all their parameters,
so they have a map, whatever the classifier takes them for. -/
theorem whatever_is_compiled_can_be_mapped (parse : Parser) (source filename : String)
    (u : CodeUnit) (h : compile parse source filename = .ok u) :
    u.Throughout CodeUnit.Readable ∧
      ∀ c : Classifier, ∃ entities, EntityTree.build c u = .ok entities := by
  have hreadable : u.Throughout CodeUnit.Readable :=
    throughout_of_compile (fun _ _ _ _ hv => Draft.readable_of_toUnit hv) h
  exact ⟨hreadable, fun c => EntityTree.build_ok hreadable⟩

theorem a_loop_can_be_mapped :
    compile loopParser "" "m.py" = .ok loopUnit ∧ loopUnit.Throughout CodeUnit.Readable ∧
      ∃ entities, EntityTree.build ⟨3, [89]⟩ loopUnit = .ok entities := by
  obtain ⟨hreadable, hmap⟩ :=
    whatever_is_compiled_can_be_mapped loopParser "" "m.py" loopUnit compile_loop
  exact ⟨compile_loop, hreadable, hmap ⟨3, [89]⟩⟩

/-- Compiling never stops at an assertion, and the code of every unit that it gives is made of
whole instructions, ends by leaving the unit, and stays within the unit's tables. -/
theorem compiled_code_is_whole_and_within_its_tables (parse : Parser) (source filename : String) :
    Fault.NeverPanics (compile parse source filename) ∧
      ∀ u, compile parse source filename = .ok u →
        u.Throughout fun v => ∃ is, v.WellFormed is := by
  refine ⟨neverPanics_compile parse source filename, ?_⟩
  intro u h
  refine throughout_of_compile ?_ h
  intro shape body v hbody hv
  exact Draft.wellFormed_of_toUnit hv hbody.2 hbody.1

theorem a_loop_and_its_lambda_are_whole :
    compile loopParser "" "m.py" = .ok loopUnit ∧ (∃ is, loopUnit.WellFormed is) ∧
      ∃ is, loopLambda.WellFormed is := by
  obtain ⟨-, hunits⟩ := compiled_code_is_whole_and_within_its_tables loopParser "" "m.py"
  have hthroughout := hunits loopUnit compile_loop
  exact ⟨compile_loop, hthroughout [] loopUnit rfl, hthroughout [0] loopLambda rfl⟩

/-- Every jump of a compiled source goes to the start of an instruction of its own unit. -/
theorem every_jump_lands_on_an_instruction (parse : Parser) (source filename : String)
    (u : CodeUnit) (h : compile parse source filename = .ok u) :
    u.Throughout fun v => ∃ is, v.JumpsLand is := by
  refine throughout_of_compile ?_ h
  intro shape body v hbody hv
  exact Draft.jumpsLand_of_toUnit hv hbody.2 hbody.1

theorem the_jumps_of_a_loop_land :
    compile loopParser "" "m.py" = .ok loopUnit ∧ ∃ is, loopUnit.JumpsLand is := by
  have hthroughout :=
    every_jump_lands_on_an_instruction loopParser "" "m.py" loopUnit compile_loop
  exact ⟨compile_loop, hthroughout [] loopUnit rfl⟩

end UnitAtlas.Compiler
