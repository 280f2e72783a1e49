-- Assembling a draft: its code is written from left to right into the builder of its unit.
-- The first part that fails decides the outcome.
import UnitAtlas.Draft.Builder

namespace UnitAtlas.Draft

/-- The builder with the draft's code added. -/
def build (filename : String) : Draft → Builder → Except (Fault DraftError) Builder
  | .skip, b => .ok b
  | .seq first second, b => do second.build filename (← first.build filename b)
  | .fail e, _ => .error (.error e)
  | .line n, b => .ok (b.setLine n)
  | .plain op, b => b.emit op.byte
  | .counted op n, b => b.emitArg op.byte n
  | .literal l, b => b.loadLiteral l
  | .access what name, b => b.access what name
  | .named op name, b => b.withName op name
  | .declareGlobal name, b => .ok { b with globals := name :: b.globals }
  | .block body, b => do return (← body.build filename b.openBlock).closeBlock
  | .jump op depth, b => b.jumpOut op depth
  | .loop body, b => do return (← body.build filename b.openLoop).closeLoop
  | .again, b => b.jumpBack
  | .continueLoop, b => b.continueInner
  | .unit shape body, b => do
    let inner ← body.build filename (Builder.start shape)
    let u ← Fault.ofError (inner.finish filename shape)
    b.loadUnit u

/-- The unit of a shape with the draft as its code. -/
def toUnit (filename : String) (shape : UnitShape) (body : Draft) :
    Except (Fault DraftError) CodeUnit := do
  let b ← body.build filename (Builder.start shape)
  Fault.ofError (b.finish filename shape)

end UnitAtlas.Draft
