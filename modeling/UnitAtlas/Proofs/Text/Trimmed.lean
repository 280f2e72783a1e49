-- Lines without the blanks around them, and texts made of such lines. A line feed behind a line is
-- a blank, so a text in which one follows each line has these very lines.
import Mathlib.Data.List.DropRight
import UnitAtlas.Proofs.Text.Lines

namespace UnitAtlas

namespace Utf8

end Utf8

namespace Blank

/-! ## Characters without blanks around them -/

end Blank

namespace Lines

/-! ## Lines with a line feed behind each -/

end Lines

end UnitAtlas
