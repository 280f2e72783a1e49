-- The parameters of finished units. Their table of local variables has the keyword-only parameters
-- before `*name`, and the local variables after all parameters; from that, the counts and the
-- flags, the parameters are shown in the order that they were declared in.
import UnitAtlas.Proofs.Draft.Finished

namespace UnitAtlas

/-! ## Declared names as they are shown -/

namespace ParameterNames

/-- What stands between the positional and the keyword-only parameters. -/
def separator (p : ParameterNames) : List String :=
  match p.varArgs with
  | some name => ["*" ++ name]
  | none => if p.kwOnly.isEmpty then [] else ["*"]

/-- The parameters in the order of a declaration. -/
def shown (p : ParameterNames) : List String :=
  p.positional ++ p.separator ++ p.kwOnly ++ p.varKeywords.toList.map ("**" ++ ·)

end ParameterNames

/-! ## Reading them from a unit -/

namespace Parameters

variable {p : ParameterNames} {info : UnitInfo}

/-- The table of a unit with these parameters begins with them, and its counts and flags tell of
them. -/
structure Declares (info : UnitInfo) (p : ParameterNames) : Prop where
  argCount : info.argCount = p.positional.length
  kwOnlyCount : info.kwOnlyCount = p.kwOnly.length
  flags : info.flags = p.flags
  varNames : p.all <+: info.varNames

namespace Declares

variable (h : Declares info p)

include h

theorem needed_le : needed info ≤ info.varNames.length := by
  rw [p.needed_eq info h.argCount h.kwOnlyCount h.flags]
  exact h.varNames.length_le

/-- The counts and flags cut the table where the encoding has put the names together. -/
theorem parts_eq : parts info = p.shown := by
  obtain ⟨locals, hnames⟩ := h.varNames
  obtain ⟨hvarArgs, hvarKeywords⟩ := p.contains_flags
  have htable : info.varNames = p.positional ++ (p.kwOnly ++
      (p.varArgs.toList ++ (p.varKeywords.toList ++ locals))) := by
    simp only [← hnames, ParameterNames.all, List.append_assoc]
  simp only [parts, h.argCount, h.kwOnlyCount, h.flags, hvarArgs, hvarKeywords, htable,
    List.take_left, List.drop_left, ParameterNames.shown, ParameterNames.separator]
  cases p.varArgs <;> cases p.varKeywords <;> simp

theorem display_eq {kind : UnitKind} {consts : List (Constant CodeUnit)}
    (hkind : kind.takesArguments = true) :
    display kind ⟨info, consts⟩ = .ok ("(" ++ ", ".intercalate p.shown ++ ")") := by
  rw [display, if_pos hkind, CodeUnit.info, if_pos h.needed_le, h.parts_eq]

end Declares

end Parameters

/-- A unit shows the parameters of the shape that it was made of. -/
theorem Draft.display_of_toUnit {filename : String} {shape : UnitShape} {body : Draft}
    {u : CodeUnit} (h : body.toUnit filename shape = .ok u) {kind : UnitKind}
    (hkind : kind.takesArguments = true) :
    Parameters.display kind u = .ok ("(" ++ ", ".intercalate shape.parameters.shown ++ ")") := by
  obtain ⟨b, hb, hfinish⟩ := toUnit_eq_ok.mp h
  have hgrows := grows_of_build hb
  obtain ⟨-, rfl⟩ := finish_eq_ok hfinish
  refine Parameters.Declares.display_eq ?_ hkind
  exact ⟨rfl, rfl, rfl, hgrows.varNames⟩

end UnitAtlas
