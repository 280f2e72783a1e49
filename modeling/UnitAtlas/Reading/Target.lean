-- Targets: the code that stores the value on the stack into a node, and assignments.
import UnitAtlas.Reading.Expression

namespace UnitAtlas.Reading

open Syntax

/-! ## Storing -/

/-- How a value is stored into a node. A value that has no place to go is dropped. -/
def target (p : Place Reading) : Draft :=
  match p.kind with
  | .identifier => .store p.text
  | .attributeAccess => attributeOf .storeAttribute p
  | .subscript => p.operands ++ .plain .storeSubscript
  | .patternList | .tuplePattern | .listPattern | .tuple | .list | .expressionList =>
    .counted .unpackSequence p.named.length ++ Draft.all (p.named.map (·.roles.target))
  | .listSplatPattern | .listSplat | .parenthesizedExpression | .asPatternTarget =>
    optional p.named.head? (·.roles.target)
  | _ => .plain .popTop

/-- Stores the value on the stack, or drops it when there is no target. -/
def storeOrDrop (target : Option Reading) : Draft :=
  match target with
  | some r => r.roles.target
  | none => .plain .popTop

/-! ## Assignments -/

/-- The chain that starts at an assignment: on the right of one stands a value, another
assignment, or, after an annotation, nothing. -/
def assignmentChain (p : Place Reading) : Except DraftError AssignmentChain :=
  match p.field? .left with
  | none => .error (.lacks "assignment" .target)
  | some left =>
    match p.field? .right with
    | none => .ok ⟨[left.roles.target], none⟩
    | some right =>
      if right.kind = .assignment then
        right.roles.assignment.map fun chain =>
          { chain with targets := left.roles.target :: chain.targets }
      else .ok ⟨[left.roles.target], some right.roles.value⟩

/-- Stores one value into all targets, a copy into each but the last. -/
def storeAll : List Draft → Draft
  | [] => .skip
  | [last] => last
  | next :: rest => .plain .dupTop ++ next ++ storeAll rest

/-- The code of an assignment. One without a value is only an annotation. -/
def assignment (chain : Except DraftError AssignmentChain) : Draft :=
  match chain with
  | .error e => .fail e
  | .ok ⟨targets, some value⟩ => value ++ storeAll targets
  | .ok ⟨_, none⟩ => .skip

/-- `left += right`, whatever the operator. -/
def augmentedAssignment (p : Place Reading) : Draft :=
  Draft.need (p.field? .left) (.lacks "augmented assignment" .target) fun left =>
  Draft.need (p.field? .right) (.lacks "augmented assignment" .value) fun right =>
    left.roles.value ++ right.roles.value ++ .plain .inplaceAdd ++ left.roles.target

end UnitAtlas.Reading
