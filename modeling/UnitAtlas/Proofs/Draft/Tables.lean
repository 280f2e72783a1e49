-- What the operands of written code find in the tables of its unit: the name, the literal or the
-- nested unit that its part of the draft speaks of. Entries never move, so what an operand finds
-- when it is written is what it finds in the finished unit.
import UnitAtlas.Proofs.Draft.Written

namespace UnitAtlas

open Opcode

/-! ## Tables -/

/-- The tables that operands point into. -/
structure Tables where
  consts : List (Constant CodeUnit)
  names : List String
  varNames : List String

/-- All entries are still where they were. -/
structure Tables.Le (t t' : Tables) : Prop where
  consts : t.consts <+: t'.consts
  names : t.names <+: t'.names
  varNames : t.varNames <+: t'.varNames

/-- An entry of a table stays where it is when there is more behind it. -/
theorem Tables.getElem?_of_prefix {α : Type} {xs ys : List α} (h : xs <+: ys) {i : Nat} {x : α}
    (hx : xs[i]? = some x) : ys[i]? = some x := by
  obtain ⟨added, rfl⟩ := h
  rw [List.getElem?_append_left (List.getElem?_eq_some_iff.mp hx).1, hx]

def CodeUnit.tables (u : CodeUnit) : Tables := ⟨u.consts, u.info.names, u.info.varNames⟩

def Builder.tables (b : Builder) : Tables := ⟨b.consts, b.names, b.varNames⟩

theorem Builder.Grows.tables {b b' : Builder} (h : b.Grows b') : b.tables.Le b'.tables :=
  ⟨h.consts, h.names, h.varNames⟩

/-! ## What an operand finds -/

/-- The operand is the index of an entry, and that is a good one. -/
def Emission.Finds {α : Type} (e : Emission) (table : List α) (good : α → Prop) : Prop :=
  ∃ i x, table[i]? = some x ∧ good x ∧ e.operand = some (UInt32.ofNat i)

theorem Emission.Finds.mono {α : Type} {e : Emission} {table table' : List α} {good : α → Prop}
    (h : e.Finds table good) (hle : table <+: table') : e.Finds table' good := by
  obtain ⟨i, x, hx, hgood, hoperand⟩ := h
  exact ⟨i, x, Tables.getElem?_of_prefix hle hx, hgood, hoperand⟩

theorem Emission.Finds.alike {α : Type} {e e' : Emission} {table : List α} {good : α → Prop}
    (h : e.Finds table good) (he : e.Alike e') {op : UInt8} (hop : e.op = op) {f : Family}
    (hf : family? op = some f) (hne : f ≠ .jump) : e'.Finds table good := by
  obtain ⟨i, x, hx, hgood, hoperand⟩ := h
  have hnot : ∀ j : Jump, e.op ≠ j.byte := fun j => hop ▸ ne_of_family hf j.family hne
  exact ⟨i, x, hx, hgood, (he.operand hnot).trans hoperand⟩

namespace Builder

theorem getElem?_intern (table : List String) (name : String) :
    (intern table name).2[(intern table name).1]? = some name := by
  unfold intern
  rcases h : table.idxOf? name with _ | i
  · simp
  · obtain ⟨hi, hname, -⟩ := List.idxOf?_eq_some_iff.mp h
    rw [List.getElem?_eq_getElem hi, hname]

/-- The entry that a literal gets: its own, or one that it can share. -/
theorem getElem?_internLiteral (consts : List (Constant CodeUnit)) (l : Literal) :
    ∃ m, (internLiteral consts l).2[(internLiteral consts l).1]? = some (.literal m) ∧
      (m = l ∨ m.same l = true) := by
  unfold internLiteral
  rcases h : consts.findIdx? (isSame l) with _ | i
  · exact ⟨l, by simp, Or.inl rfl⟩
  · obtain ⟨hi, hsame, -⟩ := List.findIdx?_eq_some_iff_getElem.mp h
    rcases hc : consts[i] with m | u
    · rw [hc] at hsame
      exact ⟨m, by rw [List.getElem?_eq_getElem hi, hc], Or.inr hsame⟩
    · rw [hc] at hsame
      cases hsame

end Builder

namespace Draft

open Emission

/-- The instruction says what the part says: its operand finds in the tables what the part speaks
of, if that is a name, a literal or a unit. -/
def Tells (filename : String) (t : Tables) (e : Emission) : Draft → Prop
  | .literal l => e.op = loadConst ∧
    e.Finds t.consts fun c => ∃ m, c = .literal m ∧ (m = l ∨ m.same l = true)
  | .access what name => e.op = what.localByte ∧ e.Finds t.varNames (· = name) ∨
    (e.op = what.globally.byte ∨ e.op = what.byName.byte) ∧ e.Finds t.names (· = name)
  | .named op name => e.op = op.byte ∧ e.Finds t.names (· = name)
  | .unit shape body => e.op = loadConst ∧
    e.Finds t.consts fun c => ∃ u, c = .unit u ∧ body.toUnit filename shape = .ok u
  | .jump op _ => e.op = op.byte
  | _ => True

section Tells

variable {filename : String} {t t' : Tables} {q : Draft} {e e' : Emission}

theorem Tells.mono (h : q.Tells filename t e) (hle : t.Le t') : q.Tells filename t' e := by
  cases q with
  | literal l => exact ⟨h.1, h.2.mono hle.consts⟩
  | access what name =>
    exact h.imp (fun h => ⟨h.1, h.2.mono hle.varNames⟩) fun h => ⟨h.1, h.2.mono hle.names⟩
  | named op name => exact ⟨h.1, h.2.mono hle.names⟩
  | unit shape body => exact ⟨h.1, h.2.mono hle.consts⟩
  | jump op depth => exact h
  | _ => trivial

theorem Tells.alike (h : q.Tells filename t e) (he : e.Alike e') : q.Tells filename t e' := by
  cases q with
  | literal l => exact ⟨he.op.trans h.1, h.2.alike he h.1 loadConst_family (by decide)⟩
  | access what name =>
    rcases h with ⟨hop, hfinds⟩ | ⟨hop | hop, hfinds⟩
    · exact Or.inl ⟨he.op.trans hop, hfinds.alike he hop what.family (by decide)⟩
    · exact Or.inr ⟨Or.inl (he.op.trans hop), hfinds.alike he hop what.globally.family (by decide)⟩
    · exact Or.inr ⟨Or.inr (he.op.trans hop), hfinds.alike he hop what.byName.family (by decide)⟩
  | named op name => exact ⟨he.op.trans h.1, h.2.alike he h.1 op.family (by decide)⟩
  | unit shape body => exact ⟨he.op.trans h.1, h.2.alike he h.1 loadConst_family (by decide)⟩
  | jump op depth => exact he.op.trans h
  | _ => trivial

end Tells

/-! ## What building spells -/

/-- The instruction is one that the part writes, with an operand that tells what the part does. -/
def Spells (filename : String) (t : Tables) (q : Draft) (e : Emission) : Prop :=
  q.Writes e ∧ q.Tells filename t e

/-- Parts and the instructions that they write, down to what the operands find. -/
abbrev Spelled (filename : String) (t : Tables) := Along (Spells filename t)

theorem Spelled.written {filename : String} {t : Tables} {line after : UInt32} {ps : List Draft}
    {es : List Emission} (h : Spelled filename t line ps es after) : Written line ps es after :=
  h.mono fun _ _ _ => And.left

end Draft

namespace Builder

open Draft Emission

variable {filename : String} {b b' : Builder} {ps qs : List Draft}

/-- `b'` is `b` with the instructions of the parts added, and they tell what the parts do. -/
def Spells (filename : String) (b : Builder) (ps : List Draft) (b' : Builder) : Prop :=
  ∃ es, List.Forall₂ Alike (b.emitted ++ es) b'.emitted ∧
    Spelled filename b'.tables b.line ps es b'.line

/-- Where no part speaks of an entry of a table, there is nothing more to tell. -/
theorem Appends.spells (h : b.Appends ps b')
    (hps : ∀ q ∈ ps, ∀ e : Emission, q.Tells filename b'.tables e) : b.Spells filename ps b' := by
  obtain ⟨-, es, hes, hwritten⟩ := h
  exact ⟨es, hes, hwritten.mono fun q hq e hwrites => ⟨hwrites, hps q hq e⟩⟩

theorem Spells.trans {b'' : Builder} (h : b.Spells filename ps b') (h' : b'.Spells filename qs b'')
    (hle : b'.tables.Le b''.tables) : b.Spells filename (ps ++ qs) b'' := by
  obtain ⟨es, hes, hps⟩ := h
  obtain ⟨fs, hfs, hqs⟩ := h'
  refine ⟨es ++ fs, ?_, (hps.mono fun q _ e hq => ⟨hq.1, hq.2.mono hle⟩).append hqs⟩
  rw [← List.append_assoc]
  exact alike_trans (List.rel_append hes (alike_refl fs)) hfs

theorem Spells.closeBlock (h : b.openBlock.Spells filename ps b') (hb' : b'.HoldsJumps) :
    b.Spells filename ps b'.closeBlock := by
  obtain ⟨es, hes, hps⟩ := h
  refine ⟨es, alike_trans hes (alike_closeBlock hb'), ?_⟩
  rw [line_closeBlock]
  exact hps.mono fun q _ e hq => ⟨hq.1, hq.2.mono (grows_closeBlock b').tables⟩

/-- An instruction whose operand finds what the part speaks of. -/
theorem Spells.emitArg {ε : Type} {q : Draft} {op : UInt8} {f : Family} (hop : family? op = some f)
    (hf : f ≠ .plain ∧ f ≠ .widening) {n : Nat} {c : Builder}
    (h : c.emitArg (ε := ε) op n = .ok b') (hassembler : c.assembler = b.assembler)
    (hwrites : ∀ e : Emission, e.Proper → e.op = op → q.Writes e)
    (htells : q.Tells filename c.tables ⟨op, some (UInt32.ofNat n), b.line⟩) :
    b.Spells filename [q] b' := by
  rw [emitArg_eq hop hf.1] at h
  cases h
  have hq := hwrites _ (proper_of_family hop hf (UInt32.ofNat n) b.line) rfl
  refine ⟨[⟨op, some (UInt32.ofNat n), b.line⟩], ?_, ?_⟩
  · simp only [emitted, hassembler, Assembler.write, Array.toList_push]
    exact alike_refl _
  · simp only [line, hassembler]
    exact .write ⟨hq, htells⟩ rfl (.nil _)

end Builder

namespace Draft

open Builder Emission

variable {filename : String}

theorem spells_withName {q : Draft} {op : Named} {name : String} {b b' : Builder}
    (h : b.withName (ε := DraftError) op name = .ok b')
    (hwrites : ∀ e : Emission, e.Proper → e.op = op.byte → q.Writes e)
    (htells : ∀ (t : Tables) (e : Emission), e.op = op.byte → e.Finds t.names (· = name) →
      q.Tells filename t e) : b.Spells filename [q] b' := by
  have hbuild : Builder.emitArg (ε := DraftError) op.byte (intern b.names name).1
      { b with names := (intern b.names name).2 } = .ok b' := h
  exact Spells.emitArg op.family (by decide) hbuild rfl hwrites
    (htells _ _ rfl ⟨_, _, getElem?_intern b.names name, rfl, rfl⟩)

theorem spells_access {what : Access} {name : String} {b b' : Builder}
    (h : b.access (ε := DraftError) what name = .ok b') :
    b.Spells filename [.access what name] b' := by
  unfold Builder.access at h
  split at h
  · have hbuild : Builder.emitArg (ε := DraftError) what.localByte (intern b.varNames name).1
        { b with varNames := (intern b.varNames name).2 } = .ok b' := h
    exact Spells.emitArg what.family (by decide) hbuild rfl
      (fun _ hproper hop => ⟨hproper, Or.inl hop⟩)
      (Or.inl ⟨rfl, _, _, getElem?_intern b.varNames name, rfl, rfl⟩)
  · split at h
    · exact spells_withName h (fun _ hproper hop => ⟨hproper, Or.inr (Or.inl hop)⟩)
        fun _ _ hop hfinds => Or.inr ⟨Or.inl hop, hfinds⟩
    · exact spells_withName h (fun _ hproper hop => ⟨hproper, Or.inr (Or.inr hop)⟩)
        fun _ _ hop hfinds => Or.inr ⟨Or.inr hop, hfinds⟩

/-- Building writes the instructions of the parts, and these tell what the parts do. -/
theorem spells_of_build {d : Draft} {b b' : Builder} (h : d.build filename b = .ok b')
    (hb : b.HoldsJumps) : b.Spells filename d.parts b' := by
  have happends := appends_of_build h hb
  induction d generalizing b b' with
  | skip => exact happends.spells nofun
  | seq first second ihfirst ihsecond =>
    obtain ⟨middle, hfirst, hsecond⟩ := Fault.bind_eq_ok.mp h
    have hmiddle := appends_of_build hfirst hb
    exact (ihfirst hfirst hb hmiddle).trans
      (ihsecond hsecond hmiddle.jumps (appends_of_build hsecond hmiddle.jumps))
      (grows_of_build hsecond).tables
  | block body ih =>
    obtain ⟨inner, hinner, h⟩ := Fault.bind_eq_ok.mp h
    cases h
    have hopen : b.openBlock.HoldsJumps := List.forall_mem_cons.mpr ⟨nofun, hb⟩
    have hbody := appends_of_build hinner hopen
    exact (ih hinner hopen hbody).closeBlock hbody.jumps
  | loop body ih =>
    obtain ⟨inner, hinner, h⟩ := Fault.bind_eq_ok.mp h
    have hbody := ih hinner hb (appends_of_build hinner hb)
    cases h
    exact hbody
  | literal l =>
    obtain ⟨m, hentry, hsame⟩ := getElem?_internLiteral b.consts l
    exact Spells.emitArg loadConst_family (by decide) h rfl
      (fun e hproper hop => ⟨hproper, hop ▸ rfl⟩) ⟨rfl, _, _, hentry, ⟨m, rfl, hsame⟩, rfl⟩
  | access what name => exact spells_access h
  | named op name =>
    refine spells_withName h (fun e hproper hop => ⟨hproper, ?_⟩)
      fun _ _ hop hfinds => ⟨hop, hfinds⟩
    rw [hop]
    exact hasOperand_of_family op.family
  | jump op depth =>
    cases (jumpOut_eq op depth b).symm.trans h
    have hproper := proper_of_family op.family (by decide) 0 b.line
    refine ⟨[⟨op.byte, some 0, b.line⟩], ?_,
      .write ⟨⟨hproper, hproper.isSome.symm⟩, rfl⟩ rfl (.nil _)⟩
    simp only [emitted, Assembler.write, Array.toList_push]
    exact alike_refl _
  | unit shape body _ =>
    obtain ⟨u, hmade, h⟩ := exists_of_build_unit h
    refine Spells.emitArg loadConst_family (by decide) h rfl
      (fun e hproper hop => ⟨hproper, hop ▸ rfl⟩) ⟨rfl, _, _, ?_, ⟨u, rfl, hmade⟩, rfl⟩
    exact List.getElem?_concat_length
  | _ => exact happends.spells (List.forall_mem_singleton.mpr fun _ => trivial)

/-- The code of a finished unit, down to what the operands find in the tables of the unit. -/
theorem exists_spelled {shape : UnitShape} {body : Draft} {u : CodeUnit}
    (h : body.toUnit filename shape = .ok u) : ∃ a, WrittenIn body.parts u a ∧
      ∃ after, Spelled filename u.tables u.info.firstLine body.parts a.emitted.toList after := by
  obtain ⟨b, hb, hfinish⟩ := toUnit_eq_ok.mp h
  have hfirst : b.assembler.firstLine = shape.firstLine := (grows_of_build hb).firstLine
  obtain ⟨es, hes, hspelled⟩ := spells_of_build hb (b := Builder.start shape) nofun
  obtain ⟨-, rfl⟩ := finish_eq_ok hfinish
  have hcode := hspelled.alike hes fun q _ _ hq he => ⟨hq.1.alike he, hq.2.alike he⟩
  exact ⟨b.assembler, ⟨⟨hfirst.symm, rfl⟩, rfl, _, Spelled.written hcode⟩, _, hcode⟩

end Draft

end UnitAtlas
