-- What assembling a draft does to a builder, said once. A part of a draft that holds no other
-- part does one small step: it adds entries to the tables and writes one instruction, or writes a
-- jump. Steps never fail and never panic, and what each of them keeps, the whole draft keeps:
-- tables only grow at their ends, and code that is spoilt stays so.
import Mathlib.Data.List.Basic
import UnitAtlas.Draft.Assembly
import UnitAtlas.Proofs.Bytecode.Operands
import UnitAtlas.Proofs.Fault
import UnitAtlas.Proofs.Unit.Nesting

namespace UnitAtlas

namespace Builder

variable {ε : Type}

def tableSizes (b : Builder) : TableSizes := ⟨b.consts.length, b.names.length, b.varNames.length⟩

/-! ## One instruction more -/

/-- `b'` is `b` with entries added to its tables and one instruction written. -/
structure Adds (b : Builder) (op : UInt8) (operand : Option UInt32) (b' : Builder) : Prop where
  assembler : b'.assembler = b.assembler.write op operand
  consts : b.consts <+: b'.consts
  names : b.names <+: b'.names
  varNames : b.varNames <+: b'.varNames
  loops : b'.loops = b.loops
  blocks : b'.blocks = b.blocks
  accepts : b'.tableSizes.Accepts op operand

theorem adds_write (b : Builder) {op : UInt8} {operand : Option UInt32}
    (h : b.tableSizes.Accepts op operand) :
    b.Adds op operand { b with assembler := b.assembler.write op operand } :=
  ⟨rfl, List.prefix_refl _, List.prefix_refl _, List.prefix_refl _, rfl, rfl, h⟩

theorem emit_eq (op : Opcode.Plain) (b : Builder) : b.emit (ε := ε) op.byte =
    .ok { b with assembler := b.assembler.write op.byte none } := by
  have hop : Opcode.hasOperand op.byte = false := Opcode.hasOperand_of_family op.family
  simp [emit, Assembler.emit, hop, bind, Except.bind, pure, Except.pure]

/-- The instructions of all families but one have operands. -/
theorem emitArg_eq {op : UInt8} {f : Opcode.Family} (h : Opcode.family? op = some f)
    (hf : f ≠ .plain) (operand : Nat) (b : Builder) : b.emitArg (ε := ε) op operand =
      .ok { b with assembler := b.assembler.write op (some (UInt32.ofNat operand)) } := by
  have hop : Opcode.hasOperand op = true := by
    rw [Opcode.hasOperand_of_family h, decide_eq_true hf]
  simp [emitArg, Assembler.emitArg, hop, bind, Except.bind, pure, Except.pure]

/-- An interned name has its index within the table, which only grows. -/
theorem intern_spec (table : List String) (name : String) :
    (intern table name).1 < (intern table name).2.length ∧ table <+: (intern table name).2 := by
  unfold intern
  rcases h : table.idxOf? name with _ | i
  · simp
  · exact ⟨(List.idxOf?_eq_some_iff.mp h).1, List.prefix_refl table⟩

theorem internLiteral_spec (consts : List (Constant CodeUnit)) (l : Literal) :
    (internLiteral consts l).1 < (internLiteral consts l).2.length ∧
      consts <+: (internLiteral consts l).2 ∧
      CodeUnit.unitsOf (internLiteral consts l).2 = CodeUnit.unitsOf consts := by
  unfold internLiteral
  rcases h : consts.findIdx? (isSame l) with _ | i
  · simp [CodeUnit.unitsOf, Constant.unit?]
  · exact ⟨(List.findIdx?_eq_some_iff_findIdx_eq.mp h).1, List.prefix_refl consts, rfl⟩

/-! ## Small steps -/

/-- The slot of the jump that is written next. -/
def nextSlot (b : Builder) (op : Opcode.Jump) : JumpSlot :=
  ⟨b.assembler.emitted.size, op.byte, b.assembler.offset⟩

/-- What a part of a draft without other parts does. -/
inductive Step (b : Builder) : Builder → Prop
  | stay : Step b b
  | setLine (n : UInt32) : Step b (b.setLine n)
  | declareGlobal (name : String) : Step b { b with globals := name :: b.globals }
  | add {op : UInt8} {operand : Option UInt32} {b' : Builder} (h : b.Adds op operand b')
      (hunits : CodeUnit.unitsOf b'.consts = CodeUnit.unitsOf b.consts) : Step b b'
  | jumpOut (op : Opcode.Jump) (depth : Nat) : Step b { b with
      assembler := b.assembler.write op.byte (some 0)
      blocks := addExit (b.nextSlot op) depth b.blocks }
  | jumpBack {start : Nat} {outer : List Nat} (h : b.loops = start :: outer) : Step b { b with
      assembler := (b.assembler.write Opcode.Jump.absolute.byte (some 0)).patchTo
        (b.nextSlot .absolute) start }
  | continueInner {start : Nat} {outer : List Nat} (h : b.loops = start :: outer) : Step b { b with
      assembler := b.assembler.write Opcode.Jump.continueLoop.byte (some (UInt32.ofNat start)) }

theorem emit_step (op : Opcode.Plain) (b : Builder) :
    ∃ b', b.emit (ε := ε) op.byte = .ok b' ∧ b.Step b' := by
  refine ⟨_, emit_eq op b, .add (adds_write b ?_) rfl⟩
  exact TableSizes.accepts_plain _ op

theorem emitArg_step (op : Opcode.Counted) (n : Nat) (b : Builder) :
    ∃ b', b.emitArg (ε := ε) op.byte n = .ok b' ∧ b.Step b' := by
  refine ⟨_, emitArg_eq op.family (by decide) n b, .add (adds_write b ?_) rfl⟩
  exact TableSizes.accepts_index op.family (by decide) nofun nofun nofun

theorem loadLiteral_step (l : Literal) (b : Builder) :
    ∃ b', b.loadLiteral (ε := ε) l = .ok b' ∧ b.Step b' := by
  obtain ⟨hi, hfront, hunits⟩ := internLiteral_spec b.consts l
  refine ⟨_, emitArg_eq Opcode.loadConst_family (by decide) _ _, .add ⟨rfl, hfront,
    List.prefix_refl _, List.prefix_refl _, rfl, rfl, ?_⟩ hunits⟩
  exact TableSizes.accepts_index Opcode.loadConst_family (by decide) (fun _ => hi) nofun nofun

theorem withName_step (op : Opcode.Named) (name : String) (b : Builder) :
    ∃ b', b.withName (ε := ε) op name = .ok b' ∧ b.Step b' := by
  obtain ⟨hi, hfront⟩ := intern_spec b.names name
  refine ⟨_, emitArg_eq op.family (by decide) _ _, .add ⟨rfl, List.prefix_refl _, hfront,
    List.prefix_refl _, rfl, rfl, ?_⟩ rfl⟩
  exact TableSizes.accepts_index op.family (by decide) nofun (fun _ => hi) nofun

theorem withLocal_step (what : Opcode.Access) (name : String) (b : Builder) :
    ∃ b', b.withLocal (ε := ε) what name = .ok b' ∧ b.Step b' := by
  obtain ⟨hi, hfront⟩ := intern_spec b.varNames name
  refine ⟨_, emitArg_eq what.family (by decide) _ _, .add ⟨rfl, List.prefix_refl _,
    List.prefix_refl _, hfront, rfl, rfl, ?_⟩ rfl⟩
  exact TableSizes.accepts_index what.family (by decide) nofun nofun (fun _ => hi)

/-- A name is loaded, stored or deleted as a local variable or through the name table. -/
theorem access_step (what : Opcode.Access) (name : String) (b : Builder) :
    ∃ b', b.access (ε := ε) what name = .ok b' ∧ b.Step b' := by
  unfold access
  split
  · exact withLocal_step what name b
  · split
    · exact withName_step what.globally name b
    · exact withName_step what.byName name b

/-- A nested unit gets an entry of its own. -/
theorem loadUnit_adds (u : CodeUnit) (b : Builder) :
    ∃ b' operand, b.loadUnit (ε := ε) u = .ok b' ∧ b.Adds Opcode.loadConst operand b' ∧
      b'.consts = b.consts ++ [.unit u] := by
  refine ⟨_, _, emitArg_eq Opcode.loadConst_family (by decide) _ _, ⟨rfl,
    List.prefix_append _ _, List.prefix_refl _, List.prefix_refl _, rfl, rfl, ?_⟩, rfl⟩
  refine TableSizes.accepts_index Opcode.loadConst_family (by decide) ?_ nofun nofun
  intro _
  simp [tableSizes]

theorem emitJump_eq (op : Opcode.Jump) (b : Builder) :
    b.assembler.emitJump (ε := ε) op.byte =
      .ok (b.nextSlot op, b.assembler.write op.byte (some 0)) := by
  have hop : Opcode.hasOperand op.byte = true := Opcode.hasOperand_of_family op.family
  simp [Assembler.emitJump, Assembler.emitArg, hop, nextSlot, bind, Except.bind, pure, Except.pure]

theorem jumpOut_eq (op : Opcode.Jump) (depth : Nat) (b : Builder) :
    b.jumpOut (ε := ε) op depth = .ok { b with
      assembler := b.assembler.write op.byte (some 0)
      blocks := addExit (b.nextSlot op) depth b.blocks } := by
  rw [jumpOut, emitJump_eq]
  rfl

theorem jumpBack_of_nil {b : Builder} (h : b.loops = []) : b.jumpBack (ε := ε) = .ok b := by
  rw [jumpBack, h]
  rfl

/-- A jump back has its target set as soon as it is written. -/
theorem jumpBack_of_cons {b : Builder} {start : Nat} {outer : List Nat}
    (h : b.loops = start :: outer) : b.jumpBack (ε := ε) = .ok { b with
      assembler := (b.assembler.write Opcode.Jump.absolute.byte (some 0)).patchTo
        (b.nextSlot .absolute) start } := by
  rw [jumpBack, h]
  simp only [Assembler.emitJumpTo, emitJump_eq]
  rfl

theorem continueInner_of_nil {b : Builder} (h : b.loops = []) :
    b.continueInner (ε := ε) = .ok b := by
  rw [continueInner, h]
  rfl

theorem continueInner_of_cons {b : Builder} {start : Nat} {outer : List Nat}
    (h : b.loops = start :: outer) : b.continueInner (ε := ε) = .ok { b with
      assembler :=
        b.assembler.write Opcode.Jump.continueLoop.byte (some (UInt32.ofNat start)) } := by
  have hcontinue : b.continueInner (ε := ε) = b.emitArg Opcode.Jump.continueLoop.byte start := by
    rw [continueInner, h]
  exact hcontinue.trans (emitArg_eq Opcode.Jump.continueLoop.family (by decide) start b)

theorem jumpOut_step (op : Opcode.Jump) (depth : Nat) (b : Builder) :
    ∃ b', b.jumpOut (ε := ε) op depth = .ok b' ∧ b.Step b' :=
  ⟨_, jumpOut_eq op depth b, .jumpOut op depth⟩

theorem jumpBack_step (b : Builder) : ∃ b', b.jumpBack (ε := ε) = .ok b' ∧ b.Step b' := by
  rcases hloops : b.loops with _ | ⟨start, outer⟩
  · exact ⟨b, jumpBack_of_nil hloops, .stay⟩
  · exact ⟨_, jumpBack_of_cons hloops, .jumpBack hloops⟩

theorem continueInner_step (b : Builder) :
    ∃ b', b.continueInner (ε := ε) = .ok b' ∧ b.Step b' := by
  rcases hloops : b.loops with _ | ⟨start, outer⟩
  · exact ⟨b, continueInner_of_nil hloops, .stay⟩
  · exact ⟨_, continueInner_of_cons hloops, .continueInner hloops⟩

end Builder

namespace Draft

open Builder

/-! ## Drafts, part by part -/

/-- The drafts that hold no other parts and do not fail. -/
def IsSmall : Draft → Prop
  | .seq _ _ | .fail _ | .block _ | .loop _ | .unit _ _ => False
  | _ => True

theorem step_of_isSmall {d : Draft} (h : d.IsSmall) (filename : String) (b : Builder) :
    ∃ b', d.build filename b = .ok b' ∧ b.Step b' := by
  cases d with
  | skip => exact ⟨b, rfl, .stay⟩
  | line n => exact ⟨_, rfl, .setLine n⟩
  | plain op => exact emit_step op b
  | counted op n => exact emitArg_step op n b
  | literal l => exact loadLiteral_step l b
  | access what name => exact access_step what name b
  | named op name => exact withName_step op name b
  | declareGlobal name => exact ⟨_, rfl, .declareGlobal name⟩
  | jump op depth => exact jumpOut_step op depth b
  | again => exact jumpBack_step b
  | continueLoop => exact continueInner_step b
  | seq | fail | block | loop | unit => exact h.elim

/-- Whatever is told of drafts, builders before and builders after holds of all assembling that
succeeds, when it holds of steps and passes to the drafts with parts. -/
theorem build_induction {filename : String} {M : Draft → Builder → Builder → Prop}
    (small : ∀ d b b', d.IsSmall → b.Step b' → M d b b')
    (seq : ∀ first second b middle b', M first b middle → M second middle b' →
      second.build filename middle = .ok b' → M (.seq first second) b b')
    (block : ∀ body b inner, M body b.openBlock inner → M (.block body) b inner.closeBlock)
    (loop : ∀ body b inner, M body b.openLoop inner →
      body.build filename b.openLoop = .ok inner → M (.loop body) b inner.closeLoop)
    (unit : ∀ shape body b inner u operand b', M body (Builder.start shape) inner →
      body.build filename (Builder.start shape) = .ok inner →
      inner.finish filename shape = .ok u → b.Adds Opcode.loadConst operand b' →
      b'.consts = b.consts ++ [.unit u] → M (.unit shape body) b b') :
    ∀ d b b', Draft.build filename d b = .ok b' → M d b b' := by
  have ofSmall : ∀ d : Draft, d.IsSmall → ∀ b b', d.build filename b = .ok b' → M d b b' := by
    intro d hd b b' h
    obtain ⟨c, hbuild, hstep⟩ := step_of_isSmall hd filename b
    rw [hbuild] at h
    cases h
    exact small d b b' hd hstep
  intro d
  induction d with
  | seq first second ihfirst ihsecond =>
    intro b b' h
    obtain ⟨middle, hfirst, hsecond⟩ := Fault.bind_eq_ok.mp h
    exact seq _ _ b middle b' (ihfirst b middle hfirst) (ihsecond middle b' hsecond) hsecond
  | fail e =>
    intro b b' h
    cases h
  | block body ih =>
    intro b b' h
    obtain ⟨inner, hinner, h⟩ := Fault.bind_eq_ok.mp h
    cases h
    exact block body b inner (ih _ inner hinner)
  | loop body ih =>
    intro b b' h
    obtain ⟨inner, hinner, h⟩ := Fault.bind_eq_ok.mp h
    cases h
    exact loop body b inner (ih _ inner hinner) hinner
  | unit shape body ih =>
    intro b b' h
    obtain ⟨inner, hinner, h⟩ := Fault.bind_eq_ok.mp h
    obtain ⟨u, hu, h⟩ := Fault.bind_eq_ok.mp h
    obtain ⟨_, operand, hload, hadds, hconsts⟩ := loadUnit_adds u b
    rw [hload] at h
    cases h
    exact unit shape body b inner u operand _ (ih _ inner hinner) hinner
      (Fault.ofError_eq_ok.mp hu) hadds hconsts
  | _ => exact ofSmall _ trivial

/-- Assembling asserts nothing that could fail. -/
theorem build_neverPanics (filename : String) (d : Draft) (b : Builder) :
    Fault.NeverPanics (d.build filename b) := by
  have ofSmall : ∀ d : Draft, d.IsSmall → ∀ b, Fault.NeverPanics (d.build filename b) := by
    intro d hd b
    obtain ⟨b', hbuild, -⟩ := step_of_isSmall hd filename b
    rw [hbuild]
    exact Fault.neverPanics_ok b'
  induction d generalizing b with
  | seq first second ihfirst ihsecond => exact (ihfirst b).bind ihsecond
  | fail e => exact Fault.neverPanics_error e
  | block body ih => exact (ih b.openBlock).bind fun inner => Fault.neverPanics_ok _
  | loop body ih => exact (ih b.openLoop).bind fun inner => Fault.neverPanics_ok _
  | unit shape body ih =>
    refine (ih (Builder.start shape)).bind fun inner => ?_
    refine (Fault.neverPanics_ofError _).bind fun u => ?_
    obtain ⟨b', _, hload, -⟩ := loadUnit_adds u b
    rw [hload]
    exact Fault.neverPanics_ok b'
  | _ =>
    apply ofSmall
    trivial

theorem toUnit_neverPanics (filename : String) (shape : UnitShape) (body : Draft) :
    Fault.NeverPanics (body.toUnit filename shape) :=
  (build_neverPanics filename body _).bind fun _ => Fault.neverPanics_ofError _

end Draft

end UnitAtlas
