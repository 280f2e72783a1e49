-- The code that drafts become. Whatever a well-shaped draft adds to sound code keeps it sound:
-- jumps out of a block are set to go to its end when it ends, and jumps back go to the start of
-- the loop around them, which is within reach because the loop itself jumps back there.
import UnitAtlas.Proofs.Bytecode.Jumps
import UnitAtlas.Proofs.Draft.Growth
import UnitAtlas.Proofs.Draft.Shape

namespace UnitAtlas

open Opcode

/-! ## What stays where it is -/

namespace Assembler

variable {a a' : Assembler} {t : TableSizes}

/-- Instructions keep their places, and jumps that may be set can still be set. -/
structure Extends (a a' : Assembler) : Prop where
  sizes : a.sizes <+: a'.sizes
  slots : ∀ slot, a.HasSlot slot → a'.HasSlot slot

theorem Extends.refl (a : Assembler) : a.Extends a := ⟨List.prefix_refl _, fun _ h => h⟩

theorem Extends.trans {a'' : Assembler} (h : a.Extends a') (h' : a'.Extends a'') :
    a.Extends a'' :=
  ⟨h.sizes.trans h'.sizes, fun slot hslot => h'.slots slot (h.slots slot hslot)⟩

theorem extends_setLine (n : UInt32) (a : Assembler) : a.Extends (a.setLine n) :=
  ⟨List.prefix_refl _, fun _ h => ⟨h.jump, h.offset, h.written⟩⟩

theorem extends_write (op : UInt8) (operand : Option UInt32) (a : Assembler) :
    a.Extends (a.write op operand) :=
  ⟨sizes_prefix_write op operand a, fun _ h => h.write op operand⟩

theorem Sound.extends_patchTo {slot : JumpSlot} {target : Nat} (h : a.Sound t)
    (hslot : a.HasSlot slot) (hnear : jumpOperand slot.op slot.offset target < 0x10000) :
    a.Extends (a.patchTo slot target) := by
  refine ⟨?_, ?_⟩
  · rw [sizes_patchTo slot target a (h.size_of_slot hslot)]
  · intro other hother
    exact hother.patchTo h hslot hnear

/-- All jumps of a block that has ended go to what is written next. -/
theorem Sound.patchAll {slots : List JumpSlot} (h : a.Sound t)
    (hslots : ∀ slot ∈ slots, a.HasSlot slot)
    (hover : (a.patchAll slots).overflowed = false) :
    (a.patchAll slots).Sound t ∧ a.Extends (a.patchAll slots) := by
  induction slots generalizing a with
  | nil => exact ⟨h, Extends.refl a⟩
  | cons slot slots ih =>
    obtain ⟨hslot, hrest⟩ := List.forall_mem_cons.mp hslots
    have hpatched : (a.patch slot).overflowed = false := overflowed_patchAll hover
    have hnear := (overflowed_patchTo hpatched).2
    have hextends : a.Extends (a.patch slot) := h.extends_patchTo hslot hnear
    have hsound : (a.patch slot).Sound t := by
      refine h.patchTo hslot ?_ (fun _ => h.slot_add_le hslot) hnear
      rw [h.offset]
      exact a.isStart_end
    obtain ⟨hall, hallExtends⟩ :=
      ih hsound (fun other hother => hextends.slots other (hrest other hother)) hover
    exact ⟨hall, hextends.trans hallExtends⟩

end Assembler

namespace Builder

variable {b b' : Builder}

/-! ## Sound builders -/

structure Sound (b : Builder) : Prop where
  code : b.assembler.Sound b.tableSizes
  slots : ∀ slots ∈ b.blocks, ∀ slot ∈ slots, b.assembler.HasSlot slot
  loops : ∀ place ∈ b.loops, b.assembler.IsStart place ∧ place < 0x10000

theorem sound_start (shape : UnitShape) : (Builder.start shape).Sound where
  code := Assembler.sound_start _ _
  slots := nofun
  loops := nofun

/-- More code, among the same blocks and loops. -/
theorem Sound.extend (h : b.Sound) (hcode : b'.assembler.Sound b'.tableSizes)
    (hextends : b.assembler.Extends b'.assembler) (hblocks : b'.blocks = b.blocks)
    (hloops : b'.loops = b.loops) : b'.Sound where
  code := hcode
  slots := by
    intro slots hslots slot hslot
    rw [hblocks] at hslots
    exact hextends.slots slot (h.slots slots hslots slot hslot)
  loops := by
    intro place hplace
    rw [hloops] at hplace
    obtain ⟨hstart, hlt⟩ := h.loops place hplace
    exact ⟨hstart.mono hextends.sizes, hlt⟩

theorem Adds.tableSizes_le {op : UInt8} {operand : Option UInt32} (h : b.Adds op operand b') :
    b.tableSizes.Le b'.tableSizes :=
  ⟨h.consts.length_le, h.names.length_le, h.varNames.length_le⟩

theorem Sound.adds {op : UInt8} {operand : Option UInt32} (h : b.Sound)
    (hadds : b.Adds op operand b') : b'.Sound := by
  refine h.extend ?_ ?_ hadds.blocks hadds.loops
  · rw [hadds.assembler]
    exact h.code.write_accepts hadds.tableSizes_le hadds.accepts
  · rw [hadds.assembler]
    exact Assembler.extends_write op operand _

theorem mem_addExit {slot : JumpSlot} {depth : Nat} {blocks : List (List JumpSlot)}
    {slots : List JumpSlot} {s : JumpSlot} (hslots : slots ∈ addExit slot depth blocks)
    (hs : s ∈ slots) : s = slot ∨ ∃ old ∈ blocks, s ∈ old := by
  induction blocks generalizing depth with
  | nil => simp [addExit] at hslots
  | cons first outer ih =>
    cases depth with
    | zero =>
      rcases List.mem_cons.mp hslots with rfl | hslots
      · rcases List.mem_append.mp hs with hs | hs
        · exact Or.inr ⟨first, List.mem_cons_self, hs⟩
        · exact Or.inl (List.mem_singleton.mp hs)
      · exact Or.inr ⟨slots, List.mem_cons_of_mem first hslots, hs⟩
    | succ depth =>
      rcases List.mem_cons.mp hslots with rfl | hslots
      · exact Or.inr ⟨slots, List.mem_cons_self, hs⟩
      · rcases ih hslots with hs | ⟨old, hold, hs⟩
        · exact Or.inl hs
        · exact Or.inr ⟨old, List.mem_cons_of_mem first hold, hs⟩

/-! ## One step -/

theorem Sound.write_open (h : b.Sound) (op : Jump) :
    (b.assembler.write op.byte (some 0)).Sound b.tableSizes :=
  h.code.write_jump op 0 (by decide) (Assembler.isStart_write_open h.code op)

theorem Sound.jumpOut (h : b.Sound) (op : Jump) (depth : Nat) :
    Sound { b with
      assembler := b.assembler.write op.byte (some 0)
      blocks := addExit (b.nextSlot op) depth b.blocks } := by
  have hextends := Assembler.extends_write op.byte (some 0) b.assembler
  refine ⟨h.write_open op, ?_, ?_⟩
  · intro slots hslots slot hslot
    rcases mem_addExit hslots hslot with rfl | ⟨old, hold, hslot⟩
    · exact Assembler.hasSlot_write h.code op
    · exact hextends.slots slot (h.slots old hold slot hslot)
  · intro place hplace
    obtain ⟨hstart, hlt⟩ := h.loops place hplace
    exact ⟨hstart.mono hextends.sizes, hlt⟩

theorem Sound.jumpBack (h : b.Sound) {place : Nat} {outer : List Nat}
    (hloops : b.loops = place :: outer) :
    Sound { b with
      assembler := (b.assembler.write Jump.absolute.byte (some 0)).patchTo
        (b.nextSlot .absolute) place } := by
  obtain ⟨hstart, hlt⟩ := h.loops place (by rw [hloops]; exact List.mem_cons_self)
  have hwrite := Assembler.extends_write Jump.absolute.byte (some 0) b.assembler
  have hopen := h.write_open .absolute
  have hslot := Assembler.hasSlot_write h.code .absolute
  refine h.extend ?_ ?_ rfl rfl
  · exact hopen.patchTo hslot (hstart.mono hwrite.sizes) nofun hlt
  · exact hwrite.trans (hopen.extends_patchTo hslot hlt)

theorem Sound.continueInner (h : b.Sound) {place : Nat} {outer : List Nat}
    (hloops : b.loops = place :: outer) :
    Sound { b with
      assembler := b.assembler.write Jump.continueLoop.byte (some (UInt32.ofNat place)) } := by
  obtain ⟨hstart, hlt⟩ := h.loops place (by rw [hloops]; exact List.mem_cons_self)
  have hvalue : (UInt32.ofNat place).toNat = place := by
    rw [UInt32.toNat_ofNat']
    exact Nat.mod_eq_of_lt (by omega)
  have hwrite := Assembler.extends_write Jump.continueLoop.byte (some (UInt32.ofNat place))
    b.assembler
  refine h.extend ?_ hwrite rfl rfl
  refine h.code.write_jump .continueLoop _ (by rw [hvalue]; exact hlt) ?_
  rw [hvalue]
  exact hstart.mono hwrite.sizes

theorem Sound.step (h : b.Sound) (hstep : b.Step b') : b'.Sound := by
  cases hstep with
  | stay => exact h
  | setLine n =>
    exact h.extend (h.code.setLine n) (Assembler.extends_setLine n _) rfl rfl
  | declareGlobal name => exact ⟨h.code, h.slots, h.loops⟩
  | add hadds _ => exact h.adds hadds
  | jumpOut op depth => exact h.jumpOut op depth
  | jumpBack hloops => exact h.jumpBack hloops
  | continueInner hloops => exact h.continueInner hloops

/-! ## Blocks and loops -/

theorem Sound.openBlock (h : b.Sound) : b.openBlock.Sound where
  code := h.code
  slots := by
    intro slots hslots
    rcases List.mem_cons.mp hslots with rfl | hslots
    · exact nofun
    · exact h.slots slots hslots
  loops := h.loops

theorem Sound.closeBlock (h : b.Sound) (hover : b.closeBlock.assembler.overflowed = false) :
    b.closeBlock.Sound := by
  rcases hblocks : b.blocks with _ | ⟨slots, outer⟩
  · rw [closeBlock_nil hblocks]
    exact h
  · rw [closeBlock_cons hblocks] at hover ⊢
    have hslots := h.slots
    rw [hblocks] at hslots
    obtain ⟨hfirst, houter⟩ := List.forall_mem_cons.mp hslots
    obtain ⟨hcode, hextends⟩ := h.code.patchAll hfirst hover
    refine ⟨hcode, ?_, ?_⟩
    · intro slots hslots slot hslot
      exact hextends.slots slot (houter slots hslots slot hslot)
    · intro place hplace
      obtain ⟨hstart, hlt⟩ := h.loops place hplace
      exact ⟨hstart.mono hextends.sizes, hlt⟩

theorem Sound.openLoop (h : b.Sound) (hnear : b.assembler.offset < 0x10000) :
    b.openLoop.Sound where
  code := h.code
  slots := h.slots
  loops := by
    intro place hplace
    rcases List.mem_cons.mp hplace with rfl | hplace
    · refine ⟨?_, hnear⟩
      rw [h.code.offset]
      exact b.assembler.isStart_end
    · exact h.loops place hplace

theorem Sound.closeLoop (h : b.Sound) : b.closeLoop.Sound where
  code := h.code
  slots := h.slots
  loops := fun place hplace => h.loops place (List.mem_of_mem_tail hplace)

end Builder

namespace Draft

open Builder

variable {filename : String}

/-! ## A whole draft -/

theorem WellShaped.units {d : Draft} (h : d.WellShaped) :
    d.Units fun _ body => body.Returns ∧ body.WellShaped := by
  induction d with
  | seq first second ihfirst ihsecond => exact ⟨ihfirst h.1, ihsecond h.2⟩
  | block body ih => exact ih h
  | loop body ih => exact ih h.2
  | unit shape body ih => exact ⟨h, ih h.2⟩
  | _ => trivial

/-- The start of a loop is within reach of the jump back to it. -/
theorem near_of_goesBack {d : Draft} {b b' : Builder} (h : d.build filename b = .ok b')
    (hd : d.GoesBack) (hover : b'.assembler.overflowed = false) {place : Nat} {outer : List Nat}
    (hloops : b.loops = place :: outer) : place < 0x10000 := by
  induction d generalizing b b' with
  | again =>
    -- The only jump that is set at once: had its target been out of reach, the code were spoilt.
    rw [build, jumpBack_of_cons hloops] at h
    cases h
    exact (Assembler.overflowed_patchTo hover).2
  | seq first second ihfirst ihsecond =>
    obtain ⟨middle, hfirst, hsecond⟩ := Fault.bind_eq_ok.mp h
    rcases hd with hd | hd
    · exact ihfirst hfirst hd ((grows_of_build hsecond).overflowed hover) hloops
    · exact ihsecond hsecond hd hover ((grows_of_build hfirst).loops.trans hloops)
  | block body ih =>
    obtain ⟨inner, hinner, h⟩ := Fault.bind_eq_ok.mp h
    cases h
    exact ih hinner hd ((grows_closeBlock inner).overflowed hover) hloops
  | _ => exact hd.elim

theorem sound_of_build {d : Draft} {b b' : Builder} (h : d.build filename b = .ok b')
    (hover : b'.assembler.overflowed = false) (hd : d.WellShaped) (hb : b.Sound) : b'.Sound := by
  -- Code that is not spoilt in the end was not spoilt on the way, so each target set was in reach.
  refine build_induction (M := fun d b b' =>
    b'.assembler.overflowed = false → d.WellShaped → b.Sound → b'.Sound) ?_ ?_ ?_ ?_ ?_
    d b b' h hover hd hb
  · intro d b b' _ hstep _ _ hb
    exact hb.step hstep
  · intro first second b middle b' hfirst hsecond hbuild hover hd hb
    have hmiddle := (grows_of_build hbuild).overflowed hover
    exact hsecond hover hd.2 (hfirst hmiddle hd.1 hb)
  · intro body b inner hbody hover hd hb
    have hinner := (grows_closeBlock inner).overflowed hover
    exact (hbody hinner hd hb.openBlock).closeBlock hover
  · intro body b inner hbody hbuild hover hd hb
    have hnear : b.assembler.offset < 0x10000 := near_of_goesBack hbuild hd.1 hover rfl
    exact (hbody hover hd.2 (hb.openLoop hnear)).closeLoop
  · intro shape body b inner u operand b' _ _ _ hadds _ _ _ hb
    exact hb.adds hadds

/-- Code that leaves its unit ends with the instruction for it, behind code that is sound. -/
theorem returns_of_build {d : Draft} {b b' : Builder} (h : d.build filename b = .ok b')
    (hover : b'.assembler.overflowed = false) (hd : d.WellShaped) (hreturns : d.Returns)
    (hb : b.Sound) :
    ∃ m : Builder, m.Sound ∧
      b' = { m with assembler := m.assembler.write Plain.returnValue.byte none } := by
  induction d generalizing b b' with
  | plain op =>
    obtain rfl : op = .returnValue := hreturns
    have hemit : b.emit (ε := DraftError) Plain.returnValue.byte = .ok b' := h
    rw [emit_eq] at hemit
    cases hemit
    exact ⟨b, hb, rfl⟩
  | seq first second _ ihsecond =>
    obtain ⟨middle, hfirst, hsecond⟩ := Fault.bind_eq_ok.mp h
    have hmiddle := (grows_of_build hsecond).overflowed hover
    exact ihsecond hsecond hover hd.2 hreturns (sound_of_build hfirst hmiddle hd.1 hb)
  | _ => exact hreturns.elim

end Draft

end UnitAtlas
