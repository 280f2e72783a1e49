-- What the indices in compiled code find. Whatever name, literal or nested unit the code of a unit
-- asked for while it was built, the index that it was given is the operand of its instruction and
-- finds it in the finished tables; and no table has an entry more than it needs.
import Mathlib.Data.Option.Basic
import UnitAtlas.Proofs.Compiler.Units
import UnitAtlas.Proofs.Draft.Filled

namespace UnitAtlas

open Syntax

namespace Draft

/-! ## Units by their addresses -/

/-- The shape and the draft of the unit at an address below another. -/
def unitAt? : List Nat → UnitShape × Draft → Option (UnitShape × Draft)
  | [], p => some p
  | i :: rest, p => p.2.units[i]?.bind (unitAt? rest)

/-- The units that an orderly draft makes have orderly drafts as well. -/
theorem orderly_of_mem_units {f : UInt64 → Bool} {d : Draft} (hd : d.Orderly f)
    {p : UnitShape × Draft} (hp : p ∈ d.units) :
    p.1.consts.length ≤ 1 ∧ p.2.Orderly f := by
  induction d with
  | seq first second ihfirst ihsecond =>
    rcases List.mem_append.mp (units_append first second ▸ hp) with hp | hp
    · exact ihfirst hd.1 hp
    · exact ihsecond hd.2 hp
  | block body ih => exact ih hd hp
  | loop body ih => exact ih hd.2 hp
  | unit shape body _ =>
    cases List.mem_singleton.mp hp
    exact ⟨hd.1, hd.2.2⟩
  | _ => cases hp

/-- Each unit below a unit that was made of an orderly draft has its tables filled in the same
way. -/
theorem filled_at {filename : String} (a : List Nat) {p : UnitShape × Draft} {u : CodeUnit}
    (h : p.2.toUnit filename p.1 = .ok u) (hconsts : p.1.consts.length ≤ 1)
    (hbody : p.2.Orderly Double.isNumber) (hu : u.Throughout fun v => v.tables.Short) :
    Option.Rel (fun q v => Filled filename q.1 q.2 v) (unitAt? a p) (u.at? a) := by
  obtain ⟨hshort, hbelow⟩ := CodeUnit.throughout_iff.mp hu
  induction a generalizing p u with
  | nil => exact .some (filled_of_toUnit h hconsts hbody hshort)
  | cons i rest ih =>
    obtain ⟨hlength, hmade⟩ := List.forall₂_iff_get.mp (nested_of_toUnit h)
    rw [unitAt?, CodeUnit.at?_cons]
    by_cases hi : i < u.nested.length
    · have hi' : i < p.2.units.length := hlength ▸ hi
      obtain ⟨hconsts, hbody⟩ := orderly_of_mem_units hbody (List.getElem_mem hi')
      have hv := hbelow _ (List.getElem_mem hi)
      obtain ⟨hshort, hbelow⟩ := CodeUnit.throughout_iff.mp hv
      rw [List.getElem?_eq_getElem hi, List.getElem?_eq_getElem hi']
      exact ih (hmade i hi' hi) hconsts hbody hv hshort hbelow
    · rw [List.getElem?_eq_none (Nat.le_of_not_lt hi),
        List.getElem?_eq_none (hlength ▸ Nat.le_of_not_lt hi)]
      exact .none

end Draft

namespace Compiler

/-- In every unit of a compiled source, names, local variables and constants are only ever added at
the ends of their tables while the code is built. So the index that a name, a literal or a nested
unit was given when it was looked up, which is the operand of its instruction, finds it in the
finished unit. No name is there twice, but among the declared parameters, no two literals are equal,
and each nested unit is given to one instruction alone. -/
theorem operands_find_what_was_looked_up (parse : Parser) (source filename : String) (root : Node)
    (u : CodeUnit) (hparse : parse source = some root)
    (hfloats : root.floatsAre Double.isNumber = true)
    (hshort : u.Throughout fun v => v.tables.Short)
    (h : compile parse source filename = .ok u) (a : List Nat) :
    Option.Rel (fun p v => Draft.Filled filename p.1 p.2 v)
      (Draft.unitAt? a (Reading.moduleShape, Reading.moduleDraft (Reading.ofNode root).place))
      (u.at? a) := by
  obtain ⟨tree, htree, hcompile⟩ := compile_eq_ok.mp h
  cases hparse.symm.trans htree
  exact Draft.filled_at a (compileTree_eq_ok.mp hcompile).2 (Nat.zero_le 1)
    (Reading.orderly_draft hfloats) hshort

/-! ### A function that writes a float in two ways -/

/-- `def f(a, a):`, the docstring `"d"`, `b = 1.0` and `return 1.00, lambda: b`. -/
def sharingTree : Node :=
  node none 0 (.other "module") "" [
    node none 0 .functionDefinition "" [
      word (some .name) 0 "f",
      node (some .parameters) 0 (.other "parameters") "" [word none 0 "a", word none 0 "a"],
      node (some .body) 1 .block "" [
        node none 1 .expressionStatement "" [node none 1 .string "\"d\"" []],
        node none 2 .expressionStatement "" [
          node none 2 .assignment "" [
            word (some .left) 2 "b", node (some .right) 2 .float "1.0" []]],
        node none 3 .returnStatement "" [
          node none 3 .expressionList "" [
            node none 3 .float "1.00" [],
            node none 3 .lambda "" [word (some .body) 3 "b"]]]]]]

def sharingParser : Parser := fun _ => some sharingTree

def sharingLambda : CodeUnit :=
  ⟨⟨"<lambda>", "m.py", 4, [116, 0, 0, 83], [], ["b"], [], 0, 0, .empty⟩, []⟩

def sharingFunction : CodeUnit :=
  ⟨⟨"f", "m.py", 1,
      [100, 1, 0, 125, 2, 0, 100, 1, 0, 100, 2, 0, 132, 0, 0, 102, 2, 0, 83, 100, 3, 0, 83],
      [0, 2, 6, 1], [], ["a", "a", "b"], 2, 0, .empty⟩,
    [.literal (.str "\"d\""), .literal (.float 0x3ff0000000000000), .unit sharingLambda,
      .literal .none]⟩

def sharingUnit : CodeUnit :=
  ⟨⟨"<module>", "m.py", 1, [100, 0, 0, 132, 0, 0, 90, 0, 0, 100, 1, 0, 83], [], ["f"], [], 0, 0,
    .empty⟩, [.unit sharingFunction, .literal .none]⟩

set_option maxRecDepth 10000 in
theorem compile_sharing : compile sharingParser "" "m.py" = .ok sharingUnit := by
  with_unfolding_all rfl

theorem short_sharing : sharingUnit.Throughout fun v => v.tables.Short := by
  have hlambda : sharingLambda.Throughout fun v => v.tables.Short :=
    CodeUnit.throughout_iff.mpr ⟨⟨by decide, by decide, by decide⟩, nofun⟩
  have hfunction : sharingFunction.Throughout fun v => v.tables.Short :=
    CodeUnit.throughout_iff.mpr
      ⟨⟨by decide, by decide, by decide⟩, List.forall_mem_singleton.mpr hlambda⟩
  exact CodeUnit.throughout_iff.mpr
    ⟨⟨by decide, by decide, by decide⟩, List.forall_mem_singleton.mpr hfunction⟩

set_option maxRecDepth 10000 in
theorem a_float_written_in_two_ways_is_found_by_one_index :
    compile sharingParser "" "m.py" = .ok sharingUnit ∧
      sharingTree.floatsAre Double.isNumber = true ∧
      (sharingUnit.Throughout fun v => v.tables.Short) ∧
      sharingFunction.tables.Distinct ["a", "a"] ∧
      ∃ is, Bytecode.sweep sharingFunction.info.code = some is ∧ is.filterMap Instruction.indexed? =
        [(.constant, 1), (.variable, 2), (.constant, 1), (.constant, 2), (.constant, 3)] := by
  have hfloats : sharingTree.floatsAre Double.isNumber = true := by decide +kernel
  have hfilled := operands_find_what_was_looked_up sharingParser "" "m.py" sharingTree sharingUnit
    rfl hfloats short_sharing compile_sharing [0]
  have hlookups : (Draft.unitAt? [0] (Reading.moduleShape,
      Reading.moduleDraft (Reading.ofNode sharingTree).place)).map (fun p =>
        (p.1.parameters.all, (p.2.lookedUp "m.py" p.1).map Lookup.entry)) =
      some (["a", "a"],
        [(.constant, 1), (.variable, 2), (.constant, 1), (.constant, 2), (.constant, 3)]) := by
    with_unfolding_all rfl
  have hat : sharingUnit.at? [0] = some sharingFunction := rfl
  rw [hat] at hfilled
  generalize Draft.unitAt? [0] _ = p at hfilled hlookups
  cases hfilled with
  | some hp =>
    obtain ⟨hparameters, hentries⟩ := Prod.mk.inj (Option.some.inj hlookups)
    exact ⟨compile_sharing, hfloats, short_sharing, hparameters ▸ hp.distinct,
      hentries ▸ hp.operands⟩

end Compiler

end UnitAtlas
