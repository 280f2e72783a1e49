-- The windows of definitions that open lines of their own. The window of such a definition is all
-- code that it has in the unit around it, up to the store under its name.
import UnitAtlas.Proofs.Compiler.Classes
import UnitAtlas.Proofs.Reading.DefinitionWindows

namespace UnitAtlas

open Syntax LineTable

namespace Compiler

/-- A definition that a statement on a later line follows has all of its own code for a window, up to
the store under its name, when it starts on a later line than the unit around it and than every
statement and clause before it there, or has the first code of that unit. The store must not need a
prefix, and the definition must end on a later line than it starts, unless its code is short. -/
theorem the_window_of_a_definition_is_its_code (parse : Parser) (source filename : String)
    (root : Node) (u : CodeUnit) (hparse : parse source = some root)
    (hsource : root.isSource = true) (hordered : root.isOrdered = true)
    (h : compile parse source filename = .ok u) (a : List Nat) (m : Node)
    (before after : List Item) (d : Definition) (l : Label) (hm : root.scopeAt? a = some m)
    (hitems : Node.itemsAmong m.children = before ++ .definition d :: after)
    (hnext : d.next = some l) (hline : d.line < l.line) :
    ∃ p v span earlier later front values store behind,
      u.scopeAt? a = some p ∧
      (Reading.definedUnits p.nested)[(before.filterMap Item.definition?).length]? = some v ∧
      resolveSpan v = .ok span ∧
      Reading.CodeOf filename d p earlier later front (values ++ [store]) behind ∧
      (Draft.startLines earlier).Sublist (before.map Item.line) ∧
      (Draft.store d.name).Tells filename p.tables store ∧
      ((∀ x ∈ p.info.firstLine :: Draft.startLines earlier, x < d.line) ∨ front = [] →
        (∀ k, store.operand = some k → k.toNat < 0x10000) →
        span.first < span.last ∨ ((values ++ [store]).flatMap Emission.bytes).length ≤ 255 →
        Window.extract Window.defaultGlue p v =
          .ok ⟨(front.flatMap Emission.bytes).length,
            ((front ++ values).flatMap Emission.bytes).length⟩) := by
  obtain ⟨b, p, hp, hb, hlies⟩ := (liesOn_of_compile hparse hsource hordered h).scopeAt? hm
  obtain ⟨is, his⟩ := wellFormed_of_compile h b p hb
  obtain ⟨v, span, earlier, later, front, values, store, behind, hwindow⟩ :=
    hlies.window_of_definition his hitems hnext hline
  exact ⟨p, v, span, earlier, later, front, values, store, behind, hp, hwindow⟩

theorem a_decorated_class_is_found_with_its_decorator :
    compile (probing classesTree) "" "m.py" = .ok classesUnit ∧
      classesTree.isSource = true ∧ classesTree.isOrdered = true ∧
      ∃ before d after l, Node.itemsAmong classesTree.children = before ++ .definition d :: after ∧
        d.next = some l ∧ d.line < l.line ∧ d.decorators.length = 1 ∧
        ∃ earlier later front values store behind,
          Reading.CodeOf "m.py" d classesUnit earlier later front (values ++ [store]) behind ∧
          (∀ x ∈ 1 :: Draft.startLines earlier, x < d.line) ∧
          Window.extract Window.defaultGlue classesUnit (passingClass "B" 3 2) = .ok ⟨19, 41⟩ ∧
          (front.flatMap Emission.bytes).length = 19 ∧
          ((front ++ values).flatMap Emission.bytes).length = 41 := by
  refine ⟨compile_classes, isSource_classesTree, isOrdered_classesTree, [_], _, _, _, rfl, rfl,
    by decide, rfl, ?_⟩
  obtain ⟨p, v, span, earlier, later, front, values, store, behind, hp, hv, hspan, hcode, hlines,
    htells, hwindow⟩ := the_window_of_a_definition_is_its_code (probing classesTree) "" "m.py"
      classesTree classesUnit rfl isSource_classesTree isOrdered_classesTree compile_classes []
      classesTree [_] _ _ _ rfl rfl rfl (by decide)
  cases hp
  have hunit : (Reading.definedUnits classesUnit.nested)[1]? = some (passingClass "B" 3 2) := rfl
  obtain rfl : passingClass "B" 3 2 = v := Option.some.inj (hunit.symm.trans hv)
  have hlast : resolveSpan (passingClass "B" 3 2) = .ok ⟨3, 5⟩ := rfl
  rw [hlast] at hspan
  cases hspan
  have hbefore : ∀ x ∈ 1 :: Draft.startLines earlier, x < 3 := by
    refine List.forall_mem_cons.mpr ⟨by decide, fun x hx => ?_⟩
    rw [List.mem_singleton.mp (hlines.subset hx)]
    decide
  have hshort : ∀ k, store.operand = some k → k.toNat < 0x10000 := by
    intro k hk
    rcases htells with ⟨-, i, x, hx, -, hi⟩ | ⟨-, i, x, hx, -, hi⟩
    · cases hx
    · have hlt : i < 3 := (List.getElem?_eq_some_iff.mp hx).1
      rw [hi, Option.some.injEq] at hk
      rw [← hk, UInt32.toNat_ofNat']
      omega
  have hfound : Window.extract Window.defaultGlue classesUnit (passingClass "B" 3 2) =
      .ok ⟨19, 41⟩ := rfl
  have hoffsets := (hwindow (Or.inl hbefore) hshort (Or.inl (by decide))).symm.trans hfound
  rw [Except.ok.injEq, ByteRange.mk.injEq] at hoffsets
  exact ⟨earlier, later, front, values, store, behind, hcode, hbefore, hfound, hoffsets⟩

end Compiler

end UnitAtlas
