-- The reading of a whole tree, and its unit.
import UnitAtlas.Draft.Assembly
import UnitAtlas.Reading.Statement

namespace UnitAtlas.Reading

open Syntax

/-- The roles of a node whose children are read. -/
def rolesOf (p : Place Reading) : Roles where
  value := value p
  target := target p
  statement := statement p
  suite := suite p
  assignment := assignmentChain p

mutual
/-- A node read with all that is below it. -/
def ofNode : Node → Reading
  | ⟨label, children⟩ =>
    let p : Place Reading := ⟨label, ofNodes children⟩
    .mk p (rolesOf p)

/-- Nodes read one by one. -/
def ofNodes : List Node → List Reading
  | [] => []
  | c :: cs => ofNode c :: ofNodes cs
end

/-- The unit of a source, from its syntax tree. -/
def unitOf (filename : String) (root : Node) : Except (Fault DraftError) CodeUnit :=
  (moduleDraft (ofNode root).place).toUnit filename moduleShape

end UnitAtlas.Reading
