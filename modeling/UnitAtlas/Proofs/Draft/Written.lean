-- The instructions that a draft becomes, one for each of its parts. Which line and which opcode an
-- instruction has is settled when its part is reached; only the targets of jumps change later.
import Mathlib.Data.List.Forall2
import UnitAtlas.Proofs.Draft.Code
import UnitAtlas.Proofs.Draft.Parts

namespace UnitAtlas

open Opcode

/-! ## Instructions but for the targets of jumps -/

namespace Emission

/-- The same instruction, but for where it goes if it is a jump. -/
structure Alike (e e' : Emission) : Prop where
  op : e'.op = e.op
  line : e'.line = e.line
  isSome : e'.operand.isSome = e.operand.isSome
  operand : (∀ j : Jump, e.op ≠ j.byte) → e'.operand = e.operand

/-- A jump that has an operand to set. -/
structure IsJump (e : Emission) : Prop where
  op : ∃ j : Jump, e.op = j.byte
  isSome : e.operand.isSome = true

theorem Alike.refl (e : Emission) : e.Alike e := ⟨rfl, rfl, rfl, fun _ => rfl⟩

theorem Alike.trans {e e' e'' : Emission} (h : e.Alike e') (h' : e'.Alike e'') : e.Alike e'' where
  op := h'.op.trans h.op
  line := h'.line.trans h.line
  isSome := h'.isSome.trans h.isSome
  operand hop := (h'.operand (h.op ▸ hop)).trans (h.operand hop)

theorem Alike.proper {e e' : Emission} (h : e.Alike e') (he : e.Proper) : e'.Proper where
  isSome := by rw [h.isSome, h.op, he.isSome]
  not_widening := by rw [h.op]; exact he.not_widening

theorem Alike.isJump {e e' : Emission} (h : e.Alike e') (he : e.IsJump) : e'.IsJump where
  op := by rw [h.op]; exact he.op
  isSome := by rw [h.isSome, he.isSome]

theorem alike_refl (es : List Emission) : List.Forall₂ Alike es es :=
  List.forall₂_same.mpr fun e _ => Alike.refl e

theorem alike_trans {es fs gs : List Emission} (h : List.Forall₂ Alike es fs)
    (h' : List.Forall₂ Alike fs gs) : List.Forall₂ Alike es gs := by
  induction h generalizing gs with
  | nil => exact h'
  | cons he _ ih =>
    cases h' with
    | cons he' hrest => exact .cons (he.trans he') (ih hrest)

theorem getElem?_of_alike {es fs : List Emission} (h : List.Forall₂ Alike es fs) {i : Nat}
    {e : Emission} (he : es[i]? = some e) : ∃ f, fs[i]? = some f ∧ e.Alike f := by
  induction h generalizing i with
  | nil => cases he
  | cons hef _ ih =>
    cases i with
    | zero =>
      cases he
      exact ⟨_, rfl, hef⟩
    | succ i => exact ih he

/-- Setting the operand of a jump. -/
theorem alike_modify {es : List Emission} {i : Nat} (n : UInt32)
    (h : ∀ e, es[i]? = some e → e.IsJump) :
    List.Forall₂ Alike es (es.modify i fun e => { e with operand := some n }) := by
  induction es generalizing i with
  | nil =>
    rw [List.modify_nil]
    exact .nil
  | cons e es ih =>
    cases i with
    | zero =>
      obtain ⟨hop, hoperand⟩ := h e rfl
      refine .cons ⟨rfl, rfl, hoperand.symm, fun hnot => ?_⟩ (alike_refl es)
      obtain ⟨j, hj⟩ := hop
      exact absurd hj (hnot j)
    | succ i => exact .cons (Alike.refl e) (ih h)

end Emission

open Emission

namespace Assembler

theorem alike_patchTo {slot : JumpSlot} {target : Nat} {a : Assembler}
    (h : ∀ e, a.emitted.toList[slot.index]? = some e → e.IsJump) :
    List.Forall₂ Alike a.emitted.toList (a.patchTo slot target).emitted.toList := by
  unfold patchTo
  dsimp only
  split
  · rw [Array.toList_modify]
    exact alike_modify _ h
  · exact alike_refl _

theorem alike_patchAll {slots : List JumpSlot} {a : Assembler}
    (h : ∀ slot ∈ slots, ∃ e, a.emitted.toList[slot.index]? = some e ∧ e.IsJump) :
    List.Forall₂ Alike a.emitted.toList (a.patchAll slots).emitted.toList := by
  induction slots generalizing a with
  | nil => exact alike_refl _
  | cons slot slots ih =>
    obtain ⟨⟨e, he, hjump⟩, hrest⟩ := List.forall_mem_cons.mp h
    have hpatch : List.Forall₂ Alike a.emitted.toList (a.patch slot).emitted.toList := by
      apply alike_patchTo
      intro f hf
      rw [he] at hf
      cases hf
      exact hjump
    refine alike_trans hpatch (ih fun other hother => ?_)
    obtain ⟨f, hf, hjump⟩ := hrest other hother
    obtain ⟨g, hg, halike⟩ := getElem?_of_alike hpatch hf
    exact ⟨g, hg, halike.isJump hjump⟩

theorem line_patchAll (slots : List JumpSlot) (a : Assembler) :
    (a.patchAll slots).line = a.line := by
  induction slots generalizing a with
  | nil => rfl
  | cons slot slots ih => exact (ih (a.patch slot)).trans (patchTo_keeps slot _ a).2.1

end Assembler

/-! ## What parts write -/

namespace Draft

/-- The instruction is one that the part writes. -/
def Writes (q : Draft) (e : Emission) : Prop :=
  e.Proper ∧ match q with
    | .line _ => False
    | .plain op => e.op = op.byte
    | .counted op n => e.op = op.byte ∧ e.operand = some (UInt32.ofNat n)
    | .access what _ =>
      e.op = what.localByte ∨ e.op = what.globally.byte ∨ e.op = what.byName.byte
    | _ => hasOperand e.op = true

/-- Parts that may write nothing. -/
def MayBeSilent : Draft → Prop
  | .declareGlobal _ | .again | .continueLoop => True
  | _ => False

theorem Writes.alike {q : Draft} {e e' : Emission} (h : q.Writes e) (he : e.Alike e') :
    q.Writes e' := by
  obtain ⟨hproper, hwrites⟩ := h
  refine ⟨he.proper hproper, ?_⟩
  rw [he.op]
  cases q with
  | counted op n =>
    obtain ⟨hop, hoperand⟩ := hwrites
    refine ⟨hop, ?_⟩
    rw [he.operand ?_, hoperand]
    intro j
    rw [hop]
    exact ne_of_family op.family j.family (by decide)
  | _ => exact hwrites

/-- Parts and their instructions, from where `line` is current up to where another line is: `R` holds
of each part that writes and the instruction that it writes. -/
inductive Along (R : Draft → Emission → Prop) :
    UInt32 → List Draft → List Emission → UInt32 → Prop
  | nil (line : UInt32) : Along R line [] [] line
  | line (line n : UInt32) {ps : List Draft} {es : List Emission} {after : UInt32}
      (h : Along R n ps es after) : Along R line (.line n :: ps) es after
  | silent {line : UInt32} {q : Draft} {ps : List Draft} {es : List Emission} {after : UInt32}
      (hq : q.MayBeSilent) (h : Along R line ps es after) : Along R line (q :: ps) es after
  | write {line : UInt32} {q : Draft} {e : Emission} {ps : List Draft} {es : List Emission}
      {after : UInt32} (hq : R q e) (he : e.line = line) (h : Along R line ps es after) :
      Along R line (q :: ps) (e :: es) after

namespace Along

variable {R R' : Draft → Emission → Prop} {line middle after : UInt32} {ps qs : List Draft}
  {es fs : List Emission}

theorem append (h : Along R line ps es middle) (h' : Along R middle qs fs after) :
    Along R line (ps ++ qs) (es ++ fs) after := by
  induction h with
  | nil => exact h'
  | line line n _ ih => exact .line line n (ih h')
  | silent hq _ ih => exact .silent hq (ih h')
  | write hq he _ ih => exact .write hq he (ih h')

theorem split (h : Along R line (ps ++ qs) es after) :
    ∃ fs gs middle, es = fs ++ gs ∧ Along R line ps fs middle ∧ Along R middle qs gs after := by
  induction ps generalizing line es with
  | nil => exact ⟨[], es, line, rfl, .nil line, h⟩
  | cons p ps ih =>
    cases h with
    | line line n h =>
      obtain ⟨fs, gs, middle, rfl, hps, hqs⟩ := ih h
      exact ⟨fs, gs, middle, rfl, .line line n hps, hqs⟩
    | silent hp h =>
      obtain ⟨fs, gs, middle, rfl, hps, hqs⟩ := ih h
      exact ⟨fs, gs, middle, rfl, .silent hp hps, hqs⟩
    | @write _ p e _ es _ hp he h =>
      obtain ⟨fs, gs, middle, rfl, hps, hqs⟩ := ih h
      exact ⟨e :: fs, gs, middle, rfl, .write hp he hps, hqs⟩

theorem mono (h : Along R line ps es after) (hR : ∀ q ∈ ps, ∀ e, R q e → R' q e) :
    Along R' line ps es after := by
  induction h with
  | nil line => exact .nil line
  | line line n _ ih => exact .line line n (ih (List.forall_mem_cons.mp hR).2)
  | silent hq _ ih => exact .silent hq (ih (List.forall_mem_cons.mp hR).2)
  | write hq he _ ih =>
    obtain ⟨hfirst, hrest⟩ := List.forall_mem_cons.mp hR
    exact .write (hfirst _ hq) he (ih hrest)

theorem alike (h : Along R line ps es after) (hes : List.Forall₂ Alike es fs)
    (hR : ∀ q e e', R q e → e.Alike e' → R q e') : Along R line ps fs after := by
  induction h generalizing fs with
  | nil line =>
    cases hes
    exact .nil line
  | line line n _ ih => exact .line line n (ih hes)
  | silent hq _ ih => exact .silent hq (ih hes)
  | write hq he _ ih =>
    cases hes with
    | cons halike hrest => exact .write (hR _ _ _ hq halike) (halike.line.trans he) (ih hrest)

end Along

/-- Parts and the instructions that they write. -/
abbrev Written := Along Writes

namespace Written

variable {line after : UInt32} {ps : List Draft} {es : List Emission}

theorem proper (h : Written line ps es after) : ∀ e ∈ es, e.Proper := by
  induction h with
  | nil => exact nofun
  | line _ _ _ ih => exact ih
  | silent _ _ ih => exact ih
  | write hq _ _ ih => exact List.forall_mem_cons.mpr ⟨hq.1, ih⟩

end Written

/-! ## The lines of what is written -/

/-- The line that a part starts. -/
def line? : Draft → Option UInt32
  | .line n => some n
  | _ => none

def startLines (ps : List Draft) : List UInt32 := ps.filterMap line?

@[simp] theorem startLines_line (n : UInt32) (ps : List Draft) :
    startLines (.line n :: ps) = n :: startLines ps := rfl

theorem startLines_append (ps qs : List Draft) :
    startLines (ps ++ qs) = startLines ps ++ startLines qs := List.filterMap_append

theorem line?_of_mayBeSilent {q : Draft} (h : q.MayBeSilent) : q.line? = none := by
  cases q <;> first | rfl | exact h.elim

namespace Along

variable {R : Draft → Emission → Prop} {line after : UInt32} {ps : List Draft}
  {es : List Emission}

/-- When the lines that parts start never go back, the lines of the instructions do not either. -/
theorem sorted (h : Along R line ps es after)
    (hlines : (line :: startLines ps).Pairwise (· ≤ ·)) :
    (line :: es.map (·.line)).Pairwise (· ≤ ·) := by
  induction h with
  | nil => exact hlines
  | @line line n ps es after h ih =>
    obtain ⟨hfirst, hrest⟩ := List.pairwise_cons.mp hlines
    have hes := ih hrest
    refine List.pairwise_cons.mpr ⟨?_, (List.pairwise_cons.mp hes).2⟩
    intro m hm
    exact UInt32.le_trans (hfirst n List.mem_cons_self) ((List.pairwise_cons.mp hes).1 m hm)
  | silent hq _ ih =>
    rw [startLines, List.filterMap_cons_none (line?_of_mayBeSilent hq)] at hlines
    exact ih hlines
  | @write line q e ps es after hq he _ ih =>
    have hes := ih (hlines.sublist ((List.sublist_cons_self q ps).filterMap _ |>.cons_cons _))
    rw [List.map_cons, he]
    refine List.pairwise_cons.mpr ⟨?_, hes⟩
    exact List.forall_mem_cons.mpr ⟨UInt32.le_refl _, (List.pairwise_cons.mp hes).1⟩

/-- Each instruction stands on the first line or on one that a part starts. -/
theorem mem_lines (h : Along R line ps es after) {e : Emission} (he : e ∈ es) :
    e.line ∈ line :: startLines ps := by
  induction h with
  | nil => cases he
  | line line n _ ih => exact List.mem_cons_of_mem line (ih he)
  | silent hq _ ih =>
    rw [startLines, List.filterMap_cons_none (line?_of_mayBeSilent hq)]
    exact ih he
  | @write line q f ps es after hq hf _ ih =>
    rcases List.mem_cons.mp he with rfl | he
    · rw [hf]
      exact List.mem_cons_self
    · exact ((List.sublist_cons_self q ps).filterMap _).cons_cons _ |>.subset (ih he)

/-- Where no line is started, all is on the first one. -/
theorem of_startLines_eq_nil (h : Along R line ps es after) (hps : startLines ps = []) :
    after = line ∧ ∀ e ∈ es, e.line = line := by
  constructor
  · induction h with
    | nil => rfl
    | line line n _ _ => cases hps
    | silent hq _ ih =>
      rw [startLines, List.filterMap_cons_none (line?_of_mayBeSilent hq)] at hps
      exact ih hps
    | @write line q e ps es after _ _ _ ih =>
      apply ih
      rw [startLines, List.filterMap_eq_nil_iff] at hps ⊢
      exact (List.forall_mem_cons.mp hps).2
  · intro e he
    have hmem := h.mem_lines he
    rw [hps] at hmem
    exact List.mem_singleton.mp hmem

end Along

/-- The instruction that builds a class comes from a part of its own. -/
theorem Written.buildClass_mem {line after : UInt32} {ps : List Draft} {es : List Emission}
    (h : Written line ps es after) {e : Emission} (he : e ∈ es)
    (hop : e.op = Plain.buildClass.byte) : .plain .buildClass ∈ ps := by
  induction h with
  | nil => cases he
  | line line n _ ih => exact List.mem_cons_of_mem _ (ih he)
  | silent _ _ ih => exact List.mem_cons_of_mem _ (ih he)
  | @write line q f ps es after hq _ _ ih =>
    rcases List.mem_cons.mp he with rfl | he
    · have hwrites := hq.2
      rw [hop] at hwrites
      cases q with
      | plain op =>
        have hbyte : Plain.buildClass.byte = op.byte := hwrites
        cases op <;> first | exact List.mem_cons_self | exact absurd hbyte (by decide)
      | counted op n =>
        exact absurd hwrites.1 (ne_of_family Plain.buildClass.family op.family (by decide))
      | line n => exact hwrites.elim
      | access what name =>
        have hplain := Plain.buildClass.family
        rcases hwrites with hlocal | hglobal | hname
        · exact absurd hlocal (ne_of_family hplain what.family (by decide))
        · exact absurd hglobal (ne_of_family hplain what.globally.family (by decide))
        · exact absurd hname (ne_of_family hplain what.byName.family (by decide))
      | _ =>
        have hoperand : hasOperand Plain.buildClass.byte = true := hwrites
        exact absurd hoperand (by decide)
    · exact List.mem_cons_of_mem _ (ih he)

end Draft

/-! ## What building writes -/

namespace Builder

def emitted (b : Builder) : List Emission := b.assembler.emitted.toList

def line (b : Builder) : UInt32 := b.assembler.line

/-- The jumps out of open blocks are among the instructions. -/
def HoldsJumps (b : Builder) : Prop :=
  ∀ slots ∈ b.blocks, ∀ slot ∈ slots, ∃ e, b.emitted[slot.index]? = some e ∧ e.IsJump

/-- `b'` is `b` with the instructions of the parts added. -/
structure Appends (b : Builder) (ps : List Draft) (b' : Builder) : Prop where
  jumps : b'.HoldsJumps
  written : ∃ es, List.Forall₂ Alike (b.emitted ++ es) b'.emitted ∧
    Draft.Written b.line ps es b'.line

variable {b b' b'' : Builder} {ps qs : List Draft}

theorem Appends.silent (hb : b.HoldsJumps) (hemitted : b'.emitted = b.emitted)
    (hblocks : b'.blocks = b.blocks) (h : Draft.Written b.line ps [] b'.line) : b.Appends ps b' := by
  refine ⟨?_, [], ?_, h⟩
  · intro slots hslots slot hslot
    rw [hemitted]
    exact hb slots (hblocks ▸ hslots) slot hslot
  · rw [List.append_nil, hemitted]
    exact alike_refl _

theorem Appends.trans (h : b.Appends ps b') (h' : b'.Appends qs b'') : b.Appends (ps ++ qs) b'' := by
  obtain ⟨-, es, hes, hps⟩ := h
  obtain ⟨hjumps, fs, hfs, hqs⟩ := h'
  refine ⟨hjumps, es ++ fs, ?_, hps.append hqs⟩
  rw [← List.append_assoc]
  exact alike_trans (List.rel_append hes (alike_refl fs)) hfs

theorem holdsJumps_of_alike (hb : b.HoldsJumps) (hblocks : b'.blocks = b.blocks)
    (es : List Emission) (h : List.Forall₂ Alike (b.emitted ++ es) b'.emitted) :
    b'.HoldsJumps := by
  intro slots hslots slot hslot
  obtain ⟨e, he, hjump⟩ := hb slots (hblocks ▸ hslots) slot hslot
  have he : (b.emitted ++ es)[slot.index]? = some e := by
    rw [List.getElem?_append_left (List.getElem?_eq_some_iff.mp he).1, he]
  obtain ⟨f, hf, halike⟩ := getElem?_of_alike h he
  exact ⟨f, hf, halike.isJump hjump⟩

/-- A part that writes one instruction. -/
theorem Appends.write (hb : b.HoldsJumps) {q : Draft} {op : UInt8} {operand : Option UInt32}
    (hassembler : b'.assembler = b.assembler.write op operand) (hblocks : b'.blocks = b.blocks)
    (hq : q.Writes ⟨op, operand, b.line⟩) : b.Appends [q] b' := by
  have halike : List.Forall₂ Alike (b.emitted ++ [⟨op, operand, b.line⟩]) b'.emitted := by
    rw [emitted, emitted, hassembler, Assembler.write, Array.toList_push]
    exact alike_refl _
  refine ⟨holdsJumps_of_alike hb hblocks _ halike, _, halike, ?_⟩
  have hline : b'.line = b.line := by
    rw [line, hassembler]
    rfl
  rw [hline]
  exact .write hq rfl (.nil b.line)

/-- An instruction with an operand that is no jump out of a block. -/
theorem Appends.emitArg {ε : Type} (hb : b.HoldsJumps) {q : Draft} {op : UInt8} {f : Family}
    (hop : family? op = some f) (hf : f ≠ .plain ∧ f ≠ .widening) {n : Nat} {c : Builder}
    (h : c.emitArg (ε := ε) op n = .ok b') (hassembler : c.assembler = b.assembler)
    (hblocks : c.blocks = b.blocks)
    (hq : Draft.Writes q ⟨op, some (UInt32.ofNat n), b.line⟩) : b.Appends [q] b' := by
  rw [emitArg_eq hop hf.1] at h
  cases h
  exact Appends.write hb (by rw [hassembler]) hblocks hq

theorem proper_of_family {op : UInt8} {f : Family} (hop : family? op = some f)
    (hf : f ≠ .plain ∧ f ≠ .widening) (n line : UInt32) :
    Emission.Proper ⟨op, some n, line⟩ where
  isSome := by simp [hasOperand_of_family hop, hf.1]
  not_widening := ne_of_family hop extendedOperand_family hf.2

theorem Appends.jumpOut (hb : b.HoldsJumps) (op : Jump) (depth : Nat) :
    b.Appends [.jump op depth] { b with
      assembler := b.assembler.write op.byte (some 0)
      blocks := addExit (b.nextSlot op) depth b.blocks } := by
  have hproper := proper_of_family op.family (by decide) 0 b.line
  have hwritten : b.Appends [.jump op depth]
      { b with assembler := b.assembler.write op.byte (some 0) } :=
    Appends.write hb rfl rfl ⟨hproper, hproper.isSome.symm⟩
  refine ⟨?_, hwritten.written⟩
  intro slots hslots slot hslot
  rcases mem_addExit hslots hslot with rfl | ⟨old, hold, hslot⟩
  · refine ⟨⟨op.byte, some 0, b.line⟩, ?_, ⟨op, rfl⟩, rfl⟩
    show (b.assembler.write op.byte (some 0)).emitted.toList[b.assembler.emitted.size]? = _
    simp [Assembler.write, line]
  · exact hwritten.jumps old hold slot hslot

/-- A jump back has its target set as soon as it is written. -/
theorem alike_jumpBack (b : Builder) (start : Nat) :
    List.Forall₂ Alike (b.assembler.write Jump.absolute.byte (some 0)).emitted.toList
      ((b.assembler.write Jump.absolute.byte (some 0)).patchTo
        (b.nextSlot .absolute) start).emitted.toList := by
  apply Assembler.alike_patchTo
  intro e he
  have hlast : (b.assembler.write Jump.absolute.byte (some 0)).emitted.toList[
      b.assembler.emitted.size]? = some ⟨Jump.absolute.byte, some 0, b.line⟩ := by
    simp [Assembler.write, line]
  have he : some e = some ⟨Jump.absolute.byte, some 0, b.line⟩ := he.symm.trans hlast
  cases he
  exact ⟨⟨.absolute, rfl⟩, rfl⟩

theorem Appends.jumpBack (hb : b.HoldsJumps) (start : Nat) :
    b.Appends [.again] { b with
      assembler := (b.assembler.write Jump.absolute.byte (some 0)).patchTo
        (b.nextSlot .absolute) start } := by
  have hproper := proper_of_family Jump.absolute.family (by decide) 0 b.line
  obtain ⟨hjumps, es, hes, hwritten⟩ : b.Appends [.again]
      { b with assembler := b.assembler.write Jump.absolute.byte (some 0) } :=
    Appends.write hb rfl rfl ⟨hproper, hproper.isSome.symm⟩
  have hpatch := b.alike_jumpBack start
  refine ⟨holdsJumps_of_alike hjumps rfl [] ?_, es, alike_trans hes hpatch, ?_⟩
  · rw [List.append_nil]
    exact hpatch
  · have hline := (Assembler.patchTo_keeps (b.nextSlot .absolute) start
      (b.assembler.write Jump.absolute.byte (some 0))).2.1
    show Draft.Written b.line _ es (Assembler.patchTo _ _ _).line
    rw [hline]
    exact hwritten

theorem alike_closeBlock (h : b.HoldsJumps) :
    List.Forall₂ Alike b.emitted b.closeBlock.emitted := by
  rcases hblocks : b.blocks with _ | ⟨slots, outer⟩
  · rw [closeBlock_nil hblocks]
    exact alike_refl _
  · rw [closeBlock_cons hblocks]
    exact Assembler.alike_patchAll (h slots (by rw [hblocks]; exact List.mem_cons_self))

theorem line_closeBlock (b : Builder) : b.closeBlock.line = b.line := by
  rcases hblocks : b.blocks with _ | ⟨slots, outer⟩
  · rw [closeBlock_nil hblocks]
  · rw [closeBlock_cons hblocks]
    exact Assembler.line_patchAll slots _

theorem HoldsJumps.closeBlock (h : b.HoldsJumps) : b.closeBlock.HoldsJumps := by
  have halike := alike_closeBlock h
  rcases hblocks : b.blocks with _ | ⟨slots, outer⟩
  · rw [closeBlock_nil hblocks]
    exact h
  · rw [closeBlock_cons hblocks] at halike ⊢
    rw [HoldsJumps, hblocks] at h
    refine holdsJumps_of_alike (b := { b with blocks := outer })
      (List.forall_mem_cons.mp h).2 rfl [] ?_
    rw [List.append_nil]
    exact halike

/-- The end of a block sets its jumps, and writes nothing. -/
theorem Appends.closeBlock (h : b.openBlock.Appends ps b') : b.Appends ps b'.closeBlock := by
  obtain ⟨hjumps, es, hes, hwritten⟩ := h
  refine ⟨hjumps.closeBlock, es, alike_trans hes (alike_closeBlock hjumps), ?_⟩
  rw [line_closeBlock]
  exact hwritten

end Builder

namespace Draft

open Builder

variable {filename : String}

/-- An instruction whose operand is the index of a name in the name table. -/
theorem appends_withName {q : Draft} {op : Named} {name : String} {b b' : Builder}
    (hb : b.HoldsJumps) (h : b.withName (ε := DraftError) op name = .ok b')
    (hq : ∀ e : Emission, e.Proper → e.op = op.byte → q.Writes e) : b.Appends [q] b' := by
  have hbuild : Builder.emitArg (ε := DraftError) op.byte (intern b.names name).1
      { b with names := (intern b.names name).2 } = .ok b' := h
  refine Appends.emitArg hb op.family (by decide) hbuild rfl rfl (hq _ ?_ rfl)
  exact proper_of_family op.family (by decide) _ _

theorem appends_access {what : Access} {name : String} {b b' : Builder} (hb : b.HoldsJumps)
    (h : b.access (ε := DraftError) what name = .ok b') : b.Appends [.access what name] b' := by
  unfold Builder.access at h
  split at h
  · have hbuild : Builder.emitArg (ε := DraftError) what.localByte (intern b.varNames name).1
        { b with varNames := (intern b.varNames name).2 } = .ok b' := h
    refine Appends.emitArg hb what.family (by decide) hbuild rfl rfl ⟨?_, Or.inl rfl⟩
    exact proper_of_family what.family (by decide) _ _
  · split at h
    · exact appends_withName hb h fun _ hproper hop => ⟨hproper, Or.inr (Or.inl hop)⟩
    · exact appends_withName hb h fun _ hproper hop => ⟨hproper, Or.inr (Or.inr hop)⟩

theorem appends_plain {op : Plain} {b b' : Builder} (hb : b.HoldsJumps)
    (h : b.emit (ε := DraftError) op.byte = .ok b') : b.Appends [.plain op] b' := by
  rw [emit_eq] at h
  cases h
  refine Appends.write hb rfl rfl ⟨⟨(hasOperand_of_family op.family).symm, ?_⟩, rfl⟩
  exact ne_of_family op.family extendedOperand_family (by decide)

/-- A jump back is written in loops only. -/
theorem appends_again {b b' : Builder} (hb : b.HoldsJumps)
    (h : b.jumpBack (ε := DraftError) = .ok b') : b.Appends [.again] b' := by
  rcases hloops : b.loops with _ | ⟨start, outer⟩
  · cases (jumpBack_of_nil hloops).symm.trans h
    exact Appends.silent hb rfl rfl (.silent trivial (.nil _))
  · cases (jumpBack_of_cons hloops).symm.trans h
    exact Appends.jumpBack hb start

theorem appends_continueLoop {b b' : Builder} (hb : b.HoldsJumps)
    (h : b.continueInner (ε := DraftError) = .ok b') : b.Appends [.continueLoop] b' := by
  rcases hloops : b.loops with _ | ⟨start, outer⟩
  · cases (continueInner_of_nil hloops).symm.trans h
    exact Appends.silent hb rfl rfl (.silent trivial (.nil _))
  · cases (continueInner_of_cons hloops).symm.trans h
    exact Appends.write hb rfl rfl
      ⟨proper_of_family Jump.continueLoop.family (by decide) _ _, rfl⟩

/-- Building writes the instructions of the parts, behind all that was written before. -/
theorem appends_of_build {d : Draft} {b b' : Builder} (h : d.build filename b = .ok b')
    (hb : b.HoldsJumps) : b.Appends d.parts b' := by
  induction d generalizing b b' with
  | skip =>
    cases h
    exact Appends.silent hb rfl rfl (.nil _)
  | seq first second ihfirst ihsecond =>
    obtain ⟨middle, hfirst, hsecond⟩ := Fault.bind_eq_ok.mp h
    have happends := ihfirst hfirst hb
    exact happends.trans (ihsecond hsecond happends.jumps)
  | fail e => cases h
  | line n =>
    cases h
    exact Appends.silent hb rfl rfl (.line _ n (.nil n))
  | plain op => exact appends_plain hb h
  | counted op n =>
    exact Appends.emitArg hb op.family (by decide) h rfl rfl
      ⟨proper_of_family op.family (by decide) _ _, rfl, rfl⟩
  | literal l =>
    exact Appends.emitArg hb loadConst_family (by decide) h rfl rfl
      ⟨proper_of_family loadConst_family (by decide) _ _, rfl⟩
  | access what name => exact appends_access hb h
  | named op name =>
    refine appends_withName hb h fun e hproper hop => ⟨hproper, ?_⟩
    rw [hop]
    exact hasOperand_of_family op.family
  | declareGlobal name =>
    cases h
    exact Appends.silent hb rfl rfl (.silent trivial (.nil _))
  | block body ih =>
    obtain ⟨inner, hinner, h⟩ := Fault.bind_eq_ok.mp h
    cases h
    refine (ih hinner ?_).closeBlock
    exact List.forall_mem_cons.mpr ⟨nofun, hb⟩
  | jump op depth =>
    cases (jumpOut_eq op depth b).symm.trans h
    exact Appends.jumpOut hb op depth
  | loop body ih =>
    obtain ⟨inner, hinner, h⟩ := Fault.bind_eq_ok.mp h
    cases h
    have happends := ih hinner (b := b.openLoop) hb
    exact ⟨happends.jumps, happends.written⟩
  | again => exact appends_again hb h
  | continueLoop => exact appends_continueLoop hb h
  | unit shape body _ =>
    obtain ⟨u, -, h⟩ := exists_of_build_unit h
    exact Appends.emitArg hb loadConst_family (by decide) h rfl rfl
      ⟨proper_of_family loadConst_family (by decide) _ _, rfl⟩

/-! ## The code of a finished unit -/

/-- The code and the line table of a unit are those of an assembler that wrote the parts. -/
structure WrittenIn (ps : List Draft) (u : CodeUnit) (a : Assembler) : Prop where
  table : a.TableOf u
  code : u.info.code = a.code
  written : ∃ after, Written u.info.firstLine ps a.emitted.toList after

theorem exists_writtenIn {shape : UnitShape} {body : Draft} {u : CodeUnit}
    (h : body.toUnit filename shape = .ok u) : ∃ a, WrittenIn body.parts u a := by
  obtain ⟨b, hb, hfinish⟩ := toUnit_eq_ok.mp h
  have hfirst : b.assembler.firstLine = shape.firstLine := (grows_of_build hb).firstLine
  obtain ⟨-, es, hes, hwritten⟩ := appends_of_build hb (b := Builder.start shape) nofun
  obtain ⟨-, rfl⟩ := finish_eq_ok hfinish
  exact ⟨b.assembler, ⟨hfirst.symm, rfl⟩, rfl, _, hwritten.alike hes fun _ _ _ => Writes.alike⟩

end Draft

end UnitAtlas
