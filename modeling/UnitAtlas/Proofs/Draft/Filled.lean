-- How building fills the tables of a unit. All that goes into a table is looked up by some part of
-- the draft, one part after the other, and the operands of the finished code are the indices that
-- these lookups gave, in the same order.
import UnitAtlas.Proofs.Draft.Finished
import UnitAtlas.Proofs.Draft.Lookups

namespace UnitAtlas

open Opcode

/-! ## Operands that are indices -/

namespace Opcode

/-- The families whose operands are indices of entries. -/
def Family.isIndex : Family → Bool
  | .constant | .named | .variable => true
  | _ => false

/-- The entry that an operand is the index of: the family of the instruction, and the index. -/
def indexed? {α : Type} (op : UInt8) (operand : Option α) : Option (Family × α) :=
  ((family? op).filter Family.isIndex).bind fun f => operand.map (Prod.mk f)

theorem indexed?_of_isIndex {α : Type} {op : UInt8} {f : Family} (h : family? op = some f)
    (hf : f.isIndex = true) (operand : Option α) :
    indexed? op operand = operand.map (Prod.mk f) := by
  rw [indexed?, h, Option.filter_some_pos hf]
  rfl

theorem indexed?_of_not_isIndex {α : Type} {op : UInt8} {f : Family} (h : family? op = some f)
    (hf : f.isIndex = false) (operand : Option α) : indexed? op operand = none := by
  rw [indexed?, h, Option.filter_some_neg hf]
  rfl

end Opcode

def Emission.indexed? (e : Emission) : Option (Family × UInt32) := Opcode.indexed? e.op e.operand

def Instruction.indexed? (i : Instruction) : Option (Family × Nat) := Opcode.indexed? i.op i.operand

namespace Emission

/-- Jumps have no entries, so where they go makes no difference. -/
theorem Alike.indexed? {e e' : Emission} (h : e.Alike e') : e'.indexed? = e.indexed? := by
  unfold Emission.indexed?
  rw [h.op]
  by_cases hjump : ∃ j : Jump, e.op = j.byte
  · obtain ⟨j, hj⟩ := hjump
    have hfamily : family? e.op = some .jump := hj ▸ j.family
    rw [indexed?_of_not_isIndex hfamily rfl, indexed?_of_not_isIndex hfamily rfl]
  · rw [h.operand fun j hj => hjump ⟨j, hj⟩]

theorem filterMap_indexed?_of_alike {es fs : List Emission} (h : List.Forall₂ Alike es fs) :
    fs.filterMap indexed? = es.filterMap indexed? := by
  induction h with
  | nil => rfl
  | cons halike _ ih => rw [List.filterMap_cons, List.filterMap_cons, halike.indexed?, ih]

theorem indexed?_instruction (offset : Nat) (e : Emission) :
    (e.instruction offset).indexed? = e.indexed?.map (Prod.map id UInt32.toNat) := by
  show ((family? e.op).filter Family.isIndex).bind _ =
    (((family? e.op).filter Family.isIndex).bind _).map _
  rw [Option.map_bind]
  congr 1
  funext f
  show (e.operand.map UInt32.toNat).map _ = (e.operand.map _).map _
  rw [Option.map_map, Option.map_map]
  rfl

end Emission

theorem Bytecode.filterMap_listing (offset : Nat) (es : List Emission) :
    (listing offset es).filterMap Instruction.indexed? =
      (es.filterMap Emission.indexed?).map (Prod.map id UInt32.toNat) := by
  induction es generalizing offset with
  | nil => rfl
  | cons e es ih =>
    rw [listing, List.filterMap_cons, List.filterMap_cons, e.indexed?_instruction, ih]
    cases e.indexed? <;> rfl

/-! ## What a draft looks up -/

namespace Draft

/-- The lookups that building makes, in order: one for each part that speaks of an entry. -/
def lookups (filename : String) : Draft → Builder → List Lookup
  | .seq first second, b =>
    first.lookups filename b ++
      match first.build filename b with
      | .ok middle => second.lookups filename middle
      | .error _ => []
  | .literal l, b => [⟨b.tables, .literal l⟩]
  | .access what name, b =>
    [⟨b.tables, if b.isLocal what name then .varName name else .name name⟩]
  | .named _ name, b => [⟨b.tables, .name name⟩]
  | .block body, b => body.lookups filename b.openBlock
  | .loop body, b => body.lookups filename b.openLoop
  | .unit shape body, b =>
    match body.toUnit filename shape with
    | .ok u => [⟨b.tables, .unit u⟩]
    | .error _ => []
  | _, _ => []

end Draft

def Lookup.entry (x : Lookup) : Family × Nat := (x.request.family, x.index)

/-! ## What building looks up -/

namespace Builder

open Emission

variable {b b' b'' : Builder} {xs ys : List Lookup}

/-- The entries that the operands written so far are the indices of. -/
def entries (b : Builder) : List (Family × UInt32) := b.emitted.filterMap Emission.indexed?

/-- `b'` is `b` with some lookups made and their indices written. -/
structure Serves (b : Builder) (xs : List Lookup) (b' : Builder) : Prop where
  leads : Lookup.Leads b.tables xs b'.tables
  entries : b'.entries = b.entries ++ xs.map fun x => x.entry.map id UInt32.ofNat

theorem Serves.nothing (htables : b'.tables = b.tables) (hentries : b'.entries = b.entries) :
    b.Serves [] b' where
  leads := htables ▸ .nil b.tables
  entries := by rw [hentries, List.map_nil, List.append_nil]

theorem Serves.trans (h : b.Serves xs b') (h' : b'.Serves ys b'') : b.Serves (xs ++ ys) b'' where
  leads := h.leads.append h'.leads
  entries := by rw [h'.entries, h.entries, List.map_append, List.append_assoc]

theorem entries_write {op : UInt8} {operand : Option UInt32}
    (h : b'.assembler = b.assembler.write op operand) :
    b'.entries = b.entries ++ (Opcode.indexed? op operand).toList := by
  rw [entries, emitted, h, Assembler.write, Array.toList_push, List.filterMap_append]
  show _ ++ List.filterMap Emission.indexed? [⟨op, operand, _⟩] = _
  rw [List.filterMap_cons]
  cases h : Opcode.indexed? op operand <;> simp [Emission.indexed?, h, entries, emitted]

/-- Instructions of the other families look nothing up. -/
theorem Serves.write {op : UInt8} {operand : Option UInt32} {f : Family}
    (hop : family? op = some f) (hf : f.isIndex = false)
    (hassembler : b'.assembler = b.assembler.write op operand) (htables : b'.tables = b.tables) :
    b.Serves [] b' := by
  refine .nothing htables ?_
  rw [entries_write hassembler, indexed?_of_not_isIndex hop hf]
  exact List.append_nil _

/-- An instruction with the index of what is looked up. -/
theorem Serves.lookup {ε : Type} {op : UInt8} (r : Request) {c : Builder}
    (h : c.emitArg (ε := ε) op (b.tables.serve r).1 = .ok b') (hop : family? op = some r.family)
    (hassembler : c.assembler = b.assembler) (htables : c.tables = (b.tables.serve r).2) :
    b.Serves [⟨b.tables, r⟩] b' := by
  have hindex : r.family.isIndex = true := by cases r <;> rfl
  have hplain : r.family ≠ .plain := by cases r <;> nofun
  rw [emitArg_eq hop hplain] at h
  cases h
  refine ⟨?_, ?_⟩
  · show Lookup.Leads _ _ c.tables
    rw [htables]
    exact .cons ⟨b.tables, r⟩ (.nil _)
  · rw [entries_write (b := b) (by rw [hassembler]), indexed?_of_isIndex hop hindex]
    rfl

theorem tables_closeBlock (b : Builder) : b.closeBlock.tables = b.tables := by
  rcases h : b.blocks with _ | ⟨slots, outer⟩
  · rw [closeBlock_nil h]
  · rw [closeBlock_cons h]
    rfl

/-- The end of a block sets jumps, and looks nothing up. -/
theorem Serves.closeBlock (h : b.openBlock.Serves xs b') (hjumps : b'.HoldsJumps) :
    b.Serves xs b'.closeBlock where
  leads := b'.tables_closeBlock ▸ h.leads
  entries := (filterMap_indexed?_of_alike (alike_closeBlock hjumps)).trans h.entries

end Builder

namespace Draft

open Builder Emission

variable {filename : String} {b b' : Builder}

theorem serves_withName {op : Named} {name : String}
    (h : b.withName (ε := DraftError) op name = .ok b') :
    b.Serves [⟨b.tables, .name name⟩] b' :=
  Serves.lookup (c := { b with names := (intern b.names name).2 }) (.name name) h op.family rfl rfl

theorem serves_access {what : Access} {name : String}
    (h : b.access (ε := DraftError) what name = .ok b') :
    b.Serves ((access what name).lookups filename b) b' := by
  show b.Serves [⟨b.tables, if b.isLocal what name then _ else _⟩] b'
  unfold Builder.access at h
  split at h
  · rename_i hlocal
    rw [if_pos hlocal]
    exact Serves.lookup (c := { b with varNames := (intern b.varNames name).2 }) (.varName name) h
      what.family rfl rfl
  · rename_i hlocal
    rw [if_neg hlocal]
    split at h
    · exact serves_withName h
    · exact serves_withName h

theorem serves_again (h : b.jumpBack (ε := DraftError) = .ok b') : b.Serves [] b' := by
  rcases hloops : b.loops with _ | ⟨start, outer⟩
  · cases (jumpBack_of_nil hloops).symm.trans h
    exact .nothing rfl rfl
  · cases (jumpBack_of_cons hloops).symm.trans h
    have hwrite : b.Serves [] { b with
        assembler := b.assembler.write Jump.absolute.byte (some 0) } :=
      .write Jump.absolute.family rfl rfl rfl
    exact .nothing rfl ((filterMap_indexed?_of_alike (b.alike_jumpBack start)).trans
      (hwrite.entries.trans (List.append_nil _)))

theorem serves_continueLoop (h : b.continueInner (ε := DraftError) = .ok b') :
    b.Serves [] b' := by
  rcases hloops : b.loops with _ | ⟨start, outer⟩
  · cases (continueInner_of_nil hloops).symm.trans h
    exact .nothing rfl rfl
  · cases (continueInner_of_cons hloops).symm.trans h
    exact .write Jump.continueLoop.family rfl rfl rfl

/-- Building makes the lookups of the draft, and no others. That the jumps out of open blocks are
where they should be is needed when these are set: no other operand changes then. -/
theorem serves_of_build {d : Draft} (h : d.build filename b = .ok b') (hb : b.HoldsJumps) :
    b.Serves (d.lookups filename b) b' := by
  induction d generalizing b b' with
  | skip =>
    cases h
    exact .nothing rfl rfl
  | seq first second ihfirst ihsecond =>
    obtain ⟨middle, hfirst, hsecond⟩ := Fault.bind_eq_ok.mp h
    have hrest := ihsecond hsecond (appends_of_build hfirst hb).jumps
    show b.Serves (first.lookups filename b ++ match first.build filename b with
      | .ok middle => second.lookups filename middle
      | .error _ => []) b'
    rw [hfirst]
    exact (ihfirst hfirst hb).trans hrest
  | fail e => cases h
  | line n =>
    cases h
    exact .nothing rfl rfl
  | plain op =>
    cases (emit_eq op b).symm.trans h
    exact .write op.family rfl rfl rfl
  | counted op n =>
    cases (emitArg_eq op.family (by decide) n b).symm.trans h
    exact .write op.family rfl rfl rfl
  | literal l =>
    exact Serves.lookup (c := { b with consts := (internLiteral b.consts l).2 }) (.literal l) h
      loadConst_family rfl rfl
  | access what name => exact serves_access h
  | named op name => exact serves_withName h
  | declareGlobal name =>
    cases h
    exact .nothing rfl rfl
  | block body ih =>
    obtain ⟨inner, hinner, h⟩ := Fault.bind_eq_ok.mp h
    cases h
    have hopen : b.openBlock.HoldsJumps := List.forall_mem_cons.mpr ⟨nofun, hb⟩
    exact (ih hinner hopen).closeBlock (appends_of_build hinner hopen).jumps
  | jump op depth =>
    cases (jumpOut_eq op depth b).symm.trans h
    exact .write op.family rfl rfl rfl
  | loop body ih =>
    obtain ⟨inner, hinner, h⟩ := Fault.bind_eq_ok.mp h
    cases h
    obtain ⟨hleads, hentries⟩ := ih hinner (b := b.openLoop) hb
    exact ⟨hleads, hentries⟩
  | again => exact serves_again h
  | continueLoop => exact serves_continueLoop h
  | unit shape body _ =>
    obtain ⟨u, hmade, h⟩ := exists_of_build_unit h
    show b.Serves (match body.toUnit filename shape with
      | .ok u => [⟨b.tables, .unit u⟩]
      | .error _ => []) b'
    rw [hmade]
    exact Serves.lookup (c := { b with consts := b.consts ++ [.unit u] }) (.unit u) h
      loadConst_family rfl rfl

end Draft

/-! ## Literals that can be looked up -/

/-- The bits are not those of a value that is not a number. -/
def Double.isNumber (bits : UInt64) : Bool := !(infinity < (bits &&& ~~~signBit))

/-- Everything equals itself but values that are not numbers. -/
theorem Literal.same_self {l : Literal} (h : l.floatIs Double.isNumber = true) :
    l.same l = true := by
  cases l with
  | float bits =>
    have hnumber : Double.isNumber bits = true := h
    show Double.same bits bits = true
    rw [Double.isNumber] at hnumber
    simp [Double.same, hnumber]
  | _ => exact beq_self_eq_true _

namespace Draft

open Builder

variable {filename : String}

/-- The literals that are looked up are those of the draft. -/
theorem floatIs_of_mem_lookups {f : UInt64 → Bool} {d : Draft} (hd : d.Orderly f) {b : Builder}
    {x : Lookup} (hx : x ∈ d.lookups filename b) {l : Literal} (hl : x.request = .literal l) :
    l.floatIs f = true := by
  induction d generalizing b with
  | seq first second ihfirst ihsecond =>
    rcases List.mem_append.mp hx with hx | hx
    · exact ihfirst hd.1 hx
    · split at hx
      · exact ihsecond hd.2 hx
      · cases hx
  | literal m =>
    cases List.mem_singleton.mp hx
    cases hl
    exact hd
  | access what name =>
    cases List.mem_singleton.mp hx
    dsimp only at hl
    split at hl <;> cases hl
  | named op name =>
    cases List.mem_singleton.mp hx
    cases hl
  | block body ih => exact ih hd hx
  | loop body ih => exact ih hd.2 hx
  | unit shape body _ =>
    rw [lookups] at hx
    split at hx
    · cases List.mem_singleton.mp hx
      cases hl
    · cases hx
  | _ => cases hx

/-! ## Units with their tables -/

theorem distinct_start {shape : UnitShape} (h : shape.consts.length ≤ 1) :
    (Builder.start shape).tables.Distinct shape.parameters.all where
  names := List.nodup_nil
  varNames := ⟨[], (List.append_nil _).symm, List.nodup_nil, nofun⟩
  literals := by
    have hliterals : CodeUnit.literalsOf (shape.consts.map .literal) = shape.consts := by
      rw [CodeUnit.literalsOf, List.filterMap_map]
      exact List.filterMap_some
    show (CodeUnit.literalsOf (shape.consts.map .literal)).Pairwise _
    rw [hliterals]
    rcases hconsts : shape.consts with _ | ⟨l, _ | ⟨m, rest⟩⟩
    · exact .nil
    · exact List.pairwise_singleton _ l
    · rw [hconsts] at h
      exact absurd h (by simp)

/-- There are no units among the constants before the first lookup. -/
theorem own_start {shape : UnitShape} {xs : List Lookup} {t : Tables}
    (h : Lookup.Leads (Builder.start shape).tables xs t) {i : Nat} {u : CodeUnit}
    (hi : t.consts[i]? = some (.unit u)) :
    (xs.filter (Lookup.takes i)).map Lookup.request = [.unit u] := by
  rw [h.own hi, if_neg]
  intro hlt
  have hstart := Tables.getElem?_of_prefix h.le.consts (List.getElem?_eq_getElem hlt)
  rw [hi] at hstart
  simp [Builder.start, Builder.tables] at hstart

/-- All lookups that the code of a unit makes. -/
def lookedUp (filename : String) (shape : UnitShape) (body : Draft) : List Lookup :=
  body.lookups filename (Builder.start shape)

/-- The tables of a unit hold what the parts of its draft asked for, and the operands of its code
are the indices that they were given. -/
structure Filled (filename : String) (shape : UnitShape) (body : Draft) (u : CodeUnit) :
    Prop where
  made : body.toUnit filename shape = .ok u
  leads : Lookup.Leads (Builder.start shape).tables (body.lookedUp filename shape) u.tables
  grows : ∀ x ∈ body.lookedUp filename shape, x.before.Le x.after ∧ x.after.Le u.tables
  kept : ∀ x ∈ body.lookedUp filename shape, u.tables.Holds x.index x.request
  distinct : u.tables.Distinct shape.parameters.all
  own : ∀ i v, u.consts[i]? = some (.unit v) →
    ((body.lookedUp filename shape).filter (Lookup.takes i)).map Lookup.request = [.unit v]
  operands : ∃ is, Bytecode.sweep u.info.code = some is ∧
    is.filterMap Instruction.indexed? = (body.lookedUp filename shape).map Lookup.entry

end Draft

/-- All indices of the tables can be written with 32 bits. -/
structure Tables.Short (t : Tables) : Prop where
  consts : t.consts.length < 2 ^ 32
  names : t.names.length < 2 ^ 32
  varNames : t.varNames.length < 2 ^ 32

theorem Tables.Holds.index_lt {t : Tables} {i : Nat} {r : Request} (h : t.Holds i r)
    (ht : t.Short) : i < 2 ^ 32 := by
  cases r with
  | name s => exact (List.getElem?_eq_some_iff.mp h).1.trans ht.names
  | varName s => exact (List.getElem?_eq_some_iff.mp h).1.trans ht.varNames
  | literal l =>
    obtain ⟨m, hm, -⟩ := h
    exact (List.getElem?_eq_some_iff.mp hm).1.trans ht.consts
  | unit u => exact (List.getElem?_eq_some_iff.mp h).1.trans ht.consts

namespace Draft

open Builder

variable {filename : String}

theorem filled_of_toUnit {shape : UnitShape} {body : Draft} {u : CodeUnit}
    (h : body.toUnit filename shape = .ok u) (hconsts : shape.consts.length ≤ 1)
    (hbody : body.Orderly Double.isNumber) (hu : u.tables.Short) :
    Filled filename shape body u := by
  obtain ⟨b, hb, hfinish⟩ := toUnit_eq_ok.mp h
  obtain ⟨htables, hcode⟩ : u.tables = b.tables ∧ u.info.code = b.assembler.code := by
    obtain ⟨-, rfl⟩ := finish_eq_ok hfinish
    exact ⟨rfl, rfl⟩
  obtain ⟨hleads, hentries⟩ := serves_of_build hb (b := Builder.start shape) nofun
  rw [← htables] at hleads
  have hkept : ∀ x ∈ body.lookedUp filename shape, u.tables.Holds x.index x.request := by
    intro x hx
    refine Tables.Holds.mono (x.before.holds_serve fun l hl => ?_) (hleads.after_le hx)
    exact Literal.same_self (floatIs_of_mem_lookups hbody hx hl)
  refine ⟨h, hleads, fun x hx => ⟨x.before.le_serve x.request, hleads.after_le hx⟩, hkept,
    hleads.distinct (distinct_start hconsts), fun i v => own_start hleads,
    Bytecode.listing 0 b.emitted, ?_, ?_⟩
  · obtain ⟨-, es, hes, hwritten⟩ := appends_of_build hb (b := Builder.start shape) nofun
    rw [hcode]
    exact Bytecode.sweep_flatMap
      (Written.proper (hwritten.alike hes fun _ _ _ => Writes.alike))
  · rw [Bytecode.filterMap_listing, ← entries, hentries]
    show List.map _ (List.map _ _) = _
    rw [List.map_map]
    refine List.map_congr_left fun x hx => ?_
    have hlt : x.index < 2 ^ 32 := (hkept x hx).index_lt hu
    show (x.request.family, (UInt32.ofNat x.index).toNat) = (x.request.family, x.index)
    rw [UInt32.toNat_ofNat', Nat.mod_eq_of_lt hlt]

end Draft

end UnitAtlas
