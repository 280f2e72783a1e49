-- Comments are transparent to the compiler. They may stand anywhere, between decorators, among
-- arguments or before a docstring, and what is made of a tree is the same with and without them.
import UnitAtlas.Proofs.Compiler.Units
import UnitAtlas.Proofs.Reading.Trivia

namespace UnitAtlas

open Syntax

namespace Compiler

/-- A tree that is rid of some of its comments and joined lines, wherever these stand, comes to the
same unit, or to the same error. -/
theorem comments_are_transparent (filename : String) (root rid : Node) (h : root.Sheds rid) :
    Reading.unitOf filename rid = Reading.unitOf filename root := by
  rw [← Reading.unitOf_bare filename rid, h.bare_eq, Reading.unitOf_bare]

/-! ### A function with comments in all its parts -/

def comment (row : Nat) : Node := node none row .comment "# n" []

/-- A function under two decorators that returns a call, with what stands between the decorators,
the parameters, the parameters and the body, in front of the docstring, and between the arguments. -/
def functionAround (decorators parameters head body arguments : List Node) : Node :=
  node none 0 (.other "module") "" [
    node none 0 .decoratedDefinition "" (
      node none 0 .decorator "" [word none 0 "n"] :: decorators ++ [
      node none 2 .decorator "" [word none 2 "n"],
      node (some .definition) 3 .functionDefinition "" (
        word (some .name) 3 "f" ::
        node (some .parameters) 3 (.other "parameters") ""
          (word none 3 "a" :: parameters ++ [word none 4 "b"]) :: head ++ [
        node (some .body) 7 .block "" (body ++ [
          node none 7 .expressionStatement "" [node none 7 .string "\"d\"" []],
          node none 8 .returnStatement "" [
            node none 8 .call "" [
              word (some .function) 8 "n",
              node (some .arguments) 8 (.other "argument_list") ""
                (word none 8 "a" :: arguments ++ [word none 9 "b"])]]])])])]

def commentedFunction : Node :=
  functionAround [comment 1] [comment 3] [comment 5] [comment 6] [comment 8, comment 8]

/-- One comment is left, among the arguments. -/
def barerFunction : Node := functionAround [] [] [] [] [comment 8]

theorem sheds_commentedFunction : commentedFunction.Sheds barerFunction :=
  .node (.keep (.node (.keep (.refl _) (.drop rfl (.keep (.refl _) (.keep
    (.node (.keep (.refl _) (.keep
      (.node (.keep (.refl _) (.drop rfl (.refl _))))
      (.drop rfl (.keep
        (.node (.drop rfl (.keep (.refl _) (.keep
          (.node (.keep
            (.node (.keep (.refl _) (.keep
              (.node (.keep (.refl _) (.drop rfl (.refl _))))
              .nil)))
            .nil))
          .nil))))
        .nil)))))
    .nil))))) .nil)

theorem a_function_without_most_of_its_comments :
    commentedFunction.Sheds barerFunction ∧
      Reading.unitOf "m.py" barerFunction = Reading.unitOf "m.py" commentedFunction ∧
      ∃ u, Reading.unitOf "m.py" barerFunction = .ok u :=
  ⟨sheds_commentedFunction,
    comments_are_transparent "m.py" commentedFunction barerFunction sheds_commentedFunction,
    _, by with_unfolding_all rfl⟩

end Compiler

end UnitAtlas
