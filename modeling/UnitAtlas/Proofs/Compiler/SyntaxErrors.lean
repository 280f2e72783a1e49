-- A source that is no Python is refused with the line of the first broken node of its tree. The
-- search looks only below nodes that say they have an error; where nodes say so truly, it finds
-- what going through the whole tree in document order would find. No other failure of the compiler
-- reads like this one.
import UnitAtlas.Compiler
import UnitAtlas.Proofs.Syntax.Layout

namespace UnitAtlas

namespace Syntax.Node

/-! ## Searching the whole tree -/

mutual
/-- The labels of a node and of all nodes below it, in document order. -/
def labels : Node → List Label
  | ⟨label, children⟩ => label :: labelsAmong children

def labelsAmong : List Node → List Label
  | [] => []
  | c :: cs => labels c ++ labelsAmong cs
end

theorem labels_eq (n : Node) : n.labels = n.label :: labelsAmong n.children := by
  cases n
  rw [labels]

/-- A node says that it has an error if it is broken or something below it is, and only then. -/
def tellsErrors (n : Node) : Bool := n.label.hasError == n.labels.any Label.isBroken

theorem hasError_of_tells {n : Node} (h : n.tellsErrors = true) :
    n.label.hasError = n.labels.any Label.isBroken := beq_iff_eq.mp h

/-! ## The search that passes over whole nodes -/

/-- What is passed over has nothing broken in it. -/
theorem firstErrorAmong_eq {cs : List Node} (htells : ∀ c ∈ cs, c.tellsErrors = true)
    (hfirst : ∀ c ∈ cs, c.firstError = c.labels.find? Label.isBroken) :
    firstErrorAmong cs = (labelsAmong cs).find? Label.isBroken := by
  induction cs with
  | nil => rfl
  | cons c cs ih =>
    have hlater := ih (fun d hd => htells d (List.mem_cons_of_mem _ hd))
      (fun d hd => hfirst d (List.mem_cons_of_mem _ hd))
    have hhere : (if c.label.hasError then c.firstError else none) =
        c.labels.find? Label.isBroken := by
      by_cases herror : c.label.hasError = true
      · rw [if_pos herror, hfirst c List.mem_cons_self]
      · have hnone := hasError_of_tells (htells c List.mem_cons_self)
        rw [Bool.not_eq_true] at herror
        rw [herror, eq_comm, List.any_eq_false] at hnone
        rw [herror, if_neg Bool.false_ne_true, eq_comm, List.find?_eq_none]
        exact hnone
    rw [firstErrorAmong, labelsAmong, List.find?_append, hhere, hlater]
    cases c.labels.find? Label.isBroken <;> rfl

theorem firstError_eq_find {n : Node} (htells : n.everywhere tellsErrors = true) :
    n.firstError = n.labels.find? Label.isBroken := by
  induction n using Node.induction with
  | node n ih =>
    have hbelow := (everywhere_iff.mp htells).2
    have hamong : firstErrorAmong n.children = (labelsAmong n.children).find? Label.isBroken :=
      firstErrorAmong_eq (fun c hc => (everywhere_iff.mp (hbelow c hc)).1)
        (fun c hc => ih c hc (hbelow c hc))
    obtain ⟨label, children⟩ := n
    rw [labels_eq, List.find?_cons, firstError]
    rcases label.isBroken with _ | _
    · exact hamong
    · rfl

end Syntax.Node

namespace Compiler

open Syntax

/-! ## The failure in words -/

/-- The failure of a source that is no Python. -/
def syntaxError (filename : String) (line : Nat) : ErrorChain :=
  ⟨filename ++ ":" ++ toString line ++ ": invalid syntax", []⟩

theorem syntaxError_inj {filename : String} {line line' : Nat} :
    syntaxError filename line = syntaxError filename line' ↔ line = line' := by
  refine ⟨fun h => ?_, fun h => h ▸ rfl⟩
  have hdigits := congrArg (·.message.toList) h
  simp only [syntaxError, String.toList_append, List.append_assoc, List.append_cancel_left_eq,
    List.append_cancel_right_eq, Nat.toString_eq_ofList_toDigits, String.toList_ofList] at hdigits
  have hlines := congrArg (Nat.ofDigitChars 10 · 0) hdigits
  simpa only [Nat.ofDigitChars_ten_toDigits] using hlines

theorem getLast_append (first : String) {last : String} (h : last.toList ≠ []) :
    (first ++ last).toList.getLast? = last.toList.getLast? := by
  rw [String.toList_append, List.getLast?_append, List.getLast?_eq_some_getLast h]
  rfl

/-- A tree that gives no code is told from a source that is no Python by the end of the message,
or by the cause below it. -/
theorem chain_ne_syntaxError (e : DraftError) (filename filename' : String) (line : Nat) :
    e.chain filename ≠ syntaxError filename' line := by
  intro h
  have hlast : (e.chain filename).message.toList.getLast? = some 'x' := by
    rw [h]
    exact getLast_append _ (by decide)
  rcases e with ⟨at', kind, field⟩ | ⟨at', name⟩ | ⟨whole, part⟩ | ⟨unit, e⟩
  · have hends := getLast_append _ (by decide : "`".toList ≠ []) ▸ hlast
    exact absurd hends (by decide)
  · have hends := getLast_append _ (by decide : "` has no body".toList ≠ []) ▸ hlast
    exact absurd hends (by decide)
  · have hword : part.word.toList ≠ [] ∧ part.word.toList.getLast? ≠ some 'x' := by
      cases part <;> decide
    exact hword.2 (getLast_append _ hword.1 ▸ hlast)
  · cases congrArg ErrorChain.causes h

/-! ## The law -/

/-- A tree is refused as no Python where its root says that it has an error. -/
theorem compileTree_eq_syntaxError {filename : String} {root : Node} {line : Nat} :
    compileTree filename root = .error (.error (syntaxError filename line)) ↔
      root.label.hasError = true ∧ errorLine root = line := by
  unfold compileTree
  rcases root.label.hasError with _ | _
  · rw [if_neg Bool.false_ne_true]
    refine ⟨fun h => ?_, fun h => absurd h.1 Bool.false_ne_true⟩
    rcases hunit : Reading.unitOf filename root with (e | message) | u <;> rw [hunit] at h
    · exact absurd (Fault.error.inj (Except.error.inj h)) (chain_ne_syntaxError e filename _ line)
    · cases h
    · cases h
  · rw [if_pos rfl, and_iff_right rfl, ← @syntaxError_inj filename, Except.error.injEq,
      Fault.error.injEq]
    rfl

/-- Where nodes tell their errors, a source is refused as no Python exactly when its tree has a
broken node, at the line of the first one in document order; the nodes passed over in the search
make no difference. -/
theorem the_first_error_of_a_broken_tree_is_reported {parse : Parser} {source : String}
    {root : Node} (hparse : parse source = some root)
    (htells : root.everywhere Node.tellsErrors = true) (filename : String) :
    ((∃ line, compile parse source filename = .error (.error (syntaxError filename line))) ↔
        ∃ l ∈ root.labels, l.isBroken = true) ∧
      (∀ line, compile parse source filename = .error (.error (syntaxError filename line)) ↔
        ∃ l, root.labels.find? Label.isBroken = some l ∧ line = l.row + 1) ∧
      root.firstError = root.labels.find? Label.isBroken := by
  have hfirst := Node.firstError_eq_find htells
  have hroot := Node.hasError_of_tells (Node.everywhere_iff.mp htells).1
  have hcompile : ∀ line, compile parse source filename =
      .error (.error (syntaxError filename line)) ↔
        ∃ l, root.labels.find? Label.isBroken = some l ∧ line = l.row + 1 := by
    intro line
    unfold compile
    rw [hparse]
    refine compileTree_eq_syntaxError.trans ?_
    rw [hroot, errorLine, hfirst, List.any_eq_true, ← List.find?_isSome]
    rcases root.labels.find? Label.isBroken with _ | l
    · simp
    · simp [eq_comm]
  refine ⟨?_, hcompile, hfirst⟩
  rw [exists_congr hcompile, ← List.find?_isSome, Option.isSome_iff_exists]
  exact ⟨fun ⟨_, l, hl, _⟩ => ⟨l, hl⟩, fun ⟨l, hl⟩ => ⟨_, l, hl, rfl⟩⟩

/-- A sound statement, then one with an error on its second line, then a name that the parser made
up. -/
def brokenTree : Node :=
  ⟨⟨.other "module", true, false, true, none, 0, ""⟩, [
    ⟨⟨.passStatement, true, false, false, none, 0, "pass"⟩, []⟩,
    ⟨⟨.expressionStatement, true, false, true, none, 1, ""⟩, [
      ⟨⟨.identifier, true, false, false, none, 1, "n"⟩, []⟩,
      ⟨⟨.error, true, false, true, none, 2, ""⟩, []⟩]⟩,
    ⟨⟨.identifier, true, true, true, none, 3, ""⟩, []⟩]⟩

theorem an_error_below_a_statement_is_reported_before_a_later_one :
    brokenTree.everywhere Node.tellsErrors = true ∧
      compile (fun _ => some brokenTree) "" "m.py" =
        .error (.error (syntaxError "m.py" 3)) := by
  have htells : brokenTree.everywhere Node.tellsErrors = true := by decide
  obtain ⟨-, hline, -⟩ := @the_first_error_of_a_broken_tree_is_reported
    (fun _ => some brokenTree) "" brokenTree rfl htells "m.py"
  exact ⟨htells, (hline 3).mpr ⟨_, rfl, rfl⟩⟩

end Compiler

end UnitAtlas
