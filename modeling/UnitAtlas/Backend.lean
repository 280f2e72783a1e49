-- Compiler backends. A backend turns a source into a unit or fails with a chain of causes;
-- it also supplies the probe, a source with one function that holds one class, from which
-- the look of a class is learnt.
import UnitAtlas.Fault
import UnitAtlas.Text.Chain
import UnitAtlas.Unit.Basic

namespace UnitAtlas

/-- A compiler, seen from outside. -/
structure Backend where
  compile : (source filename : String) → Except (Fault ErrorChain) CodeUnit
  probe : String

namespace Backend

/-- A backend that gives the same answer to every source. -/
def constant (answer : Except (Fault ErrorChain) CodeUnit) : Backend where
  compile _ _ := answer
  probe := ""

end Backend

end UnitAtlas
