-- Trees with trivia left out: some of the comments and joined lines below a node, wherever they
-- stand, or all of them. Leaving out all comes to the same tree, whatever was left out before.
import UnitAtlas.Syntax.Node

namespace UnitAtlas.Syntax.Node

/-! ## Some of the trivia -/

mutual
/-- `Sheds n m`: the node `m` is `n`, with all it says of itself, after some of the trivia below it
were left out. -/
inductive Sheds : Node → Node → Prop
  | node {label : Label} {cs ds : List Node} (children : ShedsAmong cs ds) :
      Sheds ⟨label, cs⟩ ⟨label, ds⟩

/-- The same for nodes side by side, which may be trivia themselves. -/
inductive ShedsAmong : List Node → List Node → Prop
  | nil : ShedsAmong [] []
  | keep {c d : Node} {cs ds : List Node} (first : Sheds c d) (rest : ShedsAmong cs ds) :
      ShedsAmong (c :: cs) (d :: ds)
  | drop {c : Node} {cs ds : List Node} (trivia : c.label.isTrivia = true)
      (rest : ShedsAmong cs ds) : ShedsAmong (c :: cs) ds
end

mutual
/-- Nothing has to be left out. -/
theorem Sheds.refl : ∀ n : Node, Sheds n n
  | ⟨_, children⟩ => .node (ShedsAmong.refl children)

theorem ShedsAmong.refl : ∀ cs : List Node, ShedsAmong cs cs
  | [] => .nil
  | c :: cs => .keep (Sheds.refl c) (ShedsAmong.refl cs)
end

/-! ## All trivia -/

mutual
/-- A node without the trivia below it. -/
def bare : Node → Node
  | ⟨label, children⟩ => ⟨label, bareAmong children⟩

/-- Nodes without trivia among them and below them. -/
def bareAmong : List Node → List Node
  | [] => []
  | c :: cs => if c.label.isTrivia then bareAmong cs else bare c :: bareAmong cs
end

@[simp] theorem label_bare (n : Node) : n.bare.label = n.label := by
  cases n
  rw [bare]

theorem Sheds.label_eq {n m : Node} (h : Sheds n m) : m.label = n.label := by
  cases h
  rfl

mutual
theorem Sheds.bare_eq {n m : Node} : Sheds n m → m.bare = n.bare
  | .node children => by rw [bare, bare, children.bareAmong_eq]

theorem ShedsAmong.bareAmong_eq {cs ds : List Node} :
    ShedsAmong cs ds → bareAmong ds = bareAmong cs
  | .nil => rfl
  | .keep first rest => by
    rw [bareAmong, bareAmong, first.label_eq, first.bare_eq, rest.bareAmong_eq]
  | .drop trivia rest => by rw [bareAmong, if_pos trivia, rest.bareAmong_eq]
end

end UnitAtlas.Syntax.Node
