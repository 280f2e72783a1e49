-- What an assembler's history leaves behind. From the steps alone it is told where each
-- instruction stands and which line is current then; the finished line table, read back, gives
-- every instruction the highest line so far.
import Mathlib.Data.List.Basic
import Mathlib.Data.List.Chain
import UnitAtlas.Bytecode.Assembler
import UnitAtlas.Proofs.Bytecode.LineDeltas
import UnitAtlas.Proofs.Fault

namespace UnitAtlas

open LineTable LineDeltas

/-! ## Where instructions stand -/

namespace Assembler

/-- Where instructions written from `offset` on stand, each with its line. -/
def places (offset : Nat) : List Emission → List Breakpoint
  | [] => []
  | e :: es => ⟨offset, e.line.toNat⟩ :: places (offset + e.size) es

/-- The size and the line of an instruction; setting the target of a jump changes neither. -/
def shape (e : Emission) : Nat × UInt32 := (e.size, e.line)

theorem places_congr {es fs : List Emission} (h : es.map shape = fs.map shape) (offset : Nat) :
    places offset es = places offset fs := by
  induction es generalizing fs offset with
  | nil =>
    cases fs with
    | nil => rfl
    | cons f fs => cases h
  | cons e es ih =>
    cases fs with
    | nil => cases h
    | cons f fs =>
      simp only [List.map_cons, List.cons.injEq, shape, Prod.mk.injEq] at h
      obtain ⟨⟨hsize, hline⟩, hrest⟩ := h
      rw [places, places, hsize, hline, ih hrest]

theorem places_append (offset : Nat) (es fs : List Emission) :
    places offset (es ++ fs) =
      places offset es ++ places (offset + (es.map Emission.size).sum) fs := by
  induction es generalizing offset with
  | nil => rfl
  | cons e es ih =>
    rw [List.cons_append, places, places, ih, List.map_cons, List.sum_cons, Nat.add_assoc]
    rfl

theorem size_pos (e : Emission) : 0 < e.size := by
  unfold Emission.size
  split
  · omega
  · split <;> omega

theorem offset_le_of_mem_places {offset : Nat} {es : List Emission} {b : Breakpoint}
    (h : b ∈ places offset es) : offset ≤ b.offset := by
  induction es generalizing offset with
  | nil => cases h
  | cons e es ih =>
    rcases List.mem_cons.mp h with rfl | h
    · exact Nat.le_refl _
    · have := ih h
      omega

/-! ## Rising lines -/

/-- The breakpoints at which a list of places reaches a line above `top` and all before. -/
def risesAbove (top : Nat) : List Breakpoint → List Breakpoint
  | [] => []
  | b :: bs => if top < b.line then b :: risesAbove b.line bs else risesAbove top bs

theorem risesFrom_eq (top offset : Nat) (es : List Emission) :
    risesFrom top offset es = risesAbove top (places offset es) := by
  induction es generalizing top offset with
  | nil => rfl
  | cons e es ih =>
    rw [risesFrom, places, risesAbove, ih, ih]

theorem mem_of_mem_risesAbove {top : Nat} {bs : List Breakpoint} {b : Breakpoint}
    (h : b ∈ risesAbove top bs) : b ∈ bs := by
  induction bs generalizing top with
  | nil => cases h
  | cons c cs ih =>
    rw [risesAbove] at h
    split at h
    · rcases List.mem_cons.mp h with rfl | h
      · exact List.mem_cons_self
      · exact List.mem_cons_of_mem c (ih h)
    · exact List.mem_cons_of_mem c (ih h)

/-- The highest line of places, at least `top`. -/
def highest (top : Nat) (bs : List Breakpoint) : Nat := (bs.map (·.line)).foldl max top

@[simp] theorem highest_cons (top : Nat) (b : Breakpoint) (bs : List Breakpoint) :
    highest top (b :: bs) = highest (max top b.line) bs := rfl

theorem ascending_risesAbove (start : Breakpoint) (bs : List Breakpoint)
    (h : (start :: bs).Pairwise fun a b => a.offset ≤ b.offset) :
    Ascending start (risesAbove start.line bs) := by
  induction bs generalizing start with
  | nil => exact List.isChain_singleton start
  | cons b bs ih =>
    obtain ⟨hstart, hbs⟩ := List.pairwise_cons.mp h
    rw [risesAbove]
    split
    · rename_i hrise
      exact List.isChain_cons_cons.mpr
        ⟨⟨hstart b List.mem_cons_self, Nat.le_of_lt hrise⟩, ih b hbs⟩
    · refine ih start (List.pairwise_cons.mpr ⟨?_, (List.pairwise_cons.mp hbs).2⟩)
      intro c hc
      exact hstart c (List.mem_cons_of_mem b hc)

/-- The last rise is at the highest line. -/
theorem getLast_risesAbove (start : Breakpoint) (bs : List Breakpoint) :
    ((start :: risesAbove start.line bs).getLast (by simp)).line = highest start.line bs := by
  induction bs generalizing start with
  | nil => rfl
  | cons b bs ih =>
    simp only [risesAbove, highest_cons]
    split
    · rename_i hrise
      rw [List.getLast_cons_cons, ih b, Nat.max_eq_right (Nat.le_of_lt hrise)]
    · rename_i hrise
      rw [ih start, Nat.max_eq_left (by omega)]

/-- At the offset of each place, the rises give the highest line up to that place. -/
theorem lineAt?_risesAbove (start : Breakpoint) (bs : List Breakpoint) (i : Nat) (w : Breakpoint)
    (hstart : ∀ b ∈ bs, start.offset ≤ b.offset)
    (hbs : bs.Pairwise fun a b => a.offset < b.offset) (hw : bs[i]? = some w) :
    lineAt? (start :: risesAbove start.line bs) w.offset =
      some (highest start.line (bs.take (i + 1))) := by
  induction bs generalizing start i with
  | nil => cases hw
  | cons b bs ih =>
    obtain ⟨hb, hrest⟩ := List.pairwise_cons.mp hbs
    have hfirst := hstart b List.mem_cons_self
    -- At the first place, no later rise is reached yet.
    have hnone : ∀ top, lineAt? (risesAbove top bs) b.offset = none := fun top =>
      lineAt?_eq_none fun c hc => hb c (mem_of_mem_risesAbove hc)
    rw [risesAbove, List.take_succ_cons, highest_cons]
    by_cases hrise : start.line < b.line
    · rw [if_pos hrise, Nat.max_eq_right (Nat.le_of_lt hrise), lineAt?_cons start]
      cases i with
      | zero =>
        cases hw
        rw [lineAt?_cons, hnone, if_pos (Nat.le_refl _), List.take_zero]
        rfl
      | succ i =>
        rw [ih b i (fun c hc => Nat.le_of_lt (hb c hc)) hrest hw]
        rfl
    · rw [if_neg hrise, Nat.max_eq_left (by omega)]
      cases i with
      | zero =>
        cases hw
        rw [lineAt?_cons, hnone, if_pos hfirst, List.take_zero]
        rfl
      | succ i => exact ih start i (fun c hc => hstart c (List.mem_cons_of_mem b hc)) hrest hw

/-! ## The finished table, read back -/

theorem highest_lt {top bound : Nat} {bs : List Breakpoint} (htop : top < bound)
    (hbs : ∀ b ∈ bs, b.line < bound) : highest top bs < bound := by
  induction bs generalizing top with
  | nil => exact htop
  | cons b bs ih =>
    have hb := hbs b List.mem_cons_self
    exact ih (Nat.max_lt.mpr ⟨htop, hb⟩) fun c hc => hbs c (List.mem_cons_of_mem b hc)

theorem line_lt_of_mem_places {offset : Nat} {es : List Emission} {b : Breakpoint}
    (h : b ∈ places offset es) : b.line < lineBound := by
  induction es generalizing offset with
  | nil => cases h
  | cons e es ih =>
    rcases List.mem_cons.mp h with rfl | h
    · exact e.line.toNat_lt
    · exact ih h

theorem pairwise_places (offset : Nat) (es : List Emission) :
    (places offset es).Pairwise fun a b => a.offset < b.offset := by
  induction es generalizing offset with
  | nil => exact List.Pairwise.nil
  | cons e es ih =>
    refine List.pairwise_cons.mpr ⟨?_, ih _⟩
    intro b hb
    have hle := offset_le_of_mem_places hb
    have hpos := size_pos e
    show offset < b.offset
    omega

/-- The places of what was written so far. -/
def written (a : Assembler) : List Breakpoint := places 0 a.emitted.toList

/-- A unit with the first line and the line table of an assembler. -/
structure TableOf (a : Assembler) (u : CodeUnit) : Prop where
  firstLine : u.info.firstLine = a.firstLine
  lineTable : u.info.lineTable = a.lineTable

/-- The rises of what was written, behind the first line. -/
theorem ascending_rises (a : Assembler) : Ascending ⟨0, a.firstLine.toNat⟩ a.rises := by
  rw [rises, risesFrom_eq]
  refine ascending_risesAbove ⟨0, a.firstLine.toNat⟩ _ (List.pairwise_cons.mpr ⟨?_, ?_⟩)
  · intro b _
    exact Nat.zero_le _
  · exact (pairwise_places 0 _).imp Nat.le_of_lt

theorem pairs_of_tableOf {a : Assembler} {u : CodeUnit} (h : TableOf a u) :
    pairs u = .ok (pairsAlong ⟨0, a.firstLine.toNat⟩ a.rises) := by
  rw [pairs, h.lineTable, lineTable, if_pos (length_encode _ _), pairUp_encode]

theorem climb_rises (a : Assembler) :
    a.firstLine.toNat + climb (pairsAlong ⟨0, a.firstLine.toNat⟩ a.rises) =
      highest a.firstLine.toNat a.written := by
  rw [climb_pairsAlong ⟨0, a.firstLine.toNat⟩ a.rises (ascending_rises a)]
  simp only [rises, risesFrom_eq]
  exact getLast_risesAbove ⟨0, a.firstLine.toNat⟩ _

theorem highest_written_lt (a : Assembler) : highest a.firstLine.toNat a.written < lineBound :=
  highest_lt a.firstLine.toNat_lt fun _ hb => line_lt_of_mem_places hb

/-- The table of an assembler never leaves the range of lines. -/
theorem scan_of_tableOf {a : Assembler} {u : CodeUnit} (h : TableOf a u) :
    scan u =
      .ok (walk ⟨0, a.firstLine.toNat⟩ (pairsAlong ⟨0, a.firstLine.toNat⟩ a.rises)) := by
  have hbound := highest_written_lt a
  rw [scan_eq u _ (pairs_of_tableOf h), h.firstLine, climb_rises, if_pos hbound]

theorem resolveSpan_of_tableOf {a : Assembler} {u : CodeUnit} (h : TableOf a u) :
    resolveSpan u = .ok ⟨a.firstLine.toNat, highest a.firstLine.toNat a.written⟩ := by
  have hbound := highest_written_lt a
  rw [resolveSpan_eq u _ (pairs_of_tableOf h), h.firstLine, climb_rises, if_pos hbound]

/-- Reading the table at an instruction gives the highest line up to it. -/
theorem lineAt?_written (a : Assembler) (i : Nat) (w : Breakpoint) (hw : a.written[i]? = some w) :
    lineAt? (walk ⟨0, a.firstLine.toNat⟩ (pairsAlong ⟨0, a.firstLine.toNat⟩ a.rises)) w.offset =
      some (highest a.firstLine.toNat (a.written.take (i + 1))) := by
  rw [lineAt?_walk_pairsAlong _ _ _ (ascending_rises a), rises, risesFrom_eq]
  exact lineAt?_risesAbove ⟨0, a.firstLine.toNat⟩ a.written i w
    (fun b _ => Nat.zero_le _) (pairwise_places 0 _) hw

/-! ## What the steps say -/

namespace Step

/-- The bytes that a step adds to the code; none when it writes no instruction. -/
def size? : Step → Option Nat
  | .emit _ => some 1
  | .arg _ operand => if 0xFFFF < operand then some 6 else some 3
  | .jump _ | .jumpTo _ _ => some 3
  | .line _ | .patch _ => none

/-- The line that is current after a step. -/
def lineAfter (line : UInt32) : Step → UInt32
  | .line n => n
  | _ => line

/-- The place that a step writes an instruction at, if it writes one. -/
def place? (offset : Nat) (line : UInt32) (s : Step) : Option Breakpoint :=
  s.size?.map fun _ => ⟨offset, line.toNat⟩

/-- Where the instructions stand that steps write, each with the line that is current then. -/
def placesOf (offset : Nat) (line : UInt32) : List Step → List Breakpoint
  | [] => []
  | s :: rest =>
    (s.place? offset line).toList ++ placesOf (offset + s.size?.getD 0) (s.lineAfter line) rest

end Step

/-- What a history finished with: the code and the line table. -/
def assemble (firstLine : UInt32) (steps : List Step) :
    Except (Fault AssemblyError) (Bytes × Bytes) := do
  let d ← (Desk.start firstLine).run steps
  Fault.ofError d.assembler.finish

/-- What is finished is the code and the table of the assembler that the history leads to. -/
theorem assemble_eq_ok {firstLine : UInt32} {steps : List Step} {code table : Bytes}
    (h : assemble firstLine steps = .ok (code, table)) :
    ∃ d, Desk.run (ε := AssemblyError) (Desk.start firstLine) steps = .ok d ∧
      d.assembler.code = code ∧ d.assembler.lineTable = table := by
  obtain ⟨d, hrun, h⟩ := Fault.bind_eq_ok.mp h
  rw [Fault.ofError_eq_ok, finish] at h
  split at h <;> cases h
  exact ⟨d, hrun, rfl, rfl⟩

/-! ## What the assembler keeps -/

/-- The sizes of the instructions written so far. -/
def sizes (a : Assembler) : List Nat := a.emitted.toList.map Emission.size

/-- The bytes written are counted right, and each open jump is a short instruction. -/
structure Desk.Sound (d : Desk) : Prop where
  offset : d.assembler.offset = d.assembler.sizes.sum
  slots : ∀ slot ∈ d.slots, d.assembler.sizes[slot.index]? = some 3

theorem Desk.sound_start (firstLine : UInt32) : (Desk.start firstLine).Sound :=
  ⟨rfl, by simp [Desk.start]⟩

theorem sizes_write (op : UInt8) (operand : Option UInt32) (a : Assembler) :
    (a.write op operand).sizes = a.sizes ++ [Emission.size ⟨op, operand, a.line⟩] := by
  simp [sizes, write]

/-- A new instruction stands behind all others. -/
theorem written_write (op : UInt8) (operand : Option UInt32) (a : Assembler)
    (h : a.offset = a.sizes.sum) :
    (a.write op operand).written = a.written ++ [⟨a.offset, a.line.toNat⟩] := by
  simp only [written, write, Array.toList_push]
  rw [places_append, Nat.zero_add, h]
  rfl

theorem Desk.sound_write {d : Desk} (hd : d.Sound) (op : UInt8) (operand : Option UInt32) :
    Desk.Sound { d with assembler := d.assembler.write op operand } := by
  refine ⟨?_, ?_⟩
  · show d.assembler.offset + _ = _
    rw [sizes_write, List.sum_append, ← hd.offset]
    rfl
  · intro slot hslot
    have hold := hd.slots slot hslot
    rw [sizes_write, List.getElem?_append_left (List.getElem?_eq_some_iff.mp hold).1, hold]

/-- Setting the target of a short jump keeps all sizes and lines. -/
theorem shape_patchTo (slot : JumpSlot) (target : Nat) (a : Assembler)
    (h : a.sizes[slot.index]? = some 3) :
    (a.patchTo slot target).emitted.toList.map shape = a.emitted.toList.map shape := by
  unfold patchTo
  dsimp only
  split
  · rename_i hnear
    apply List.ext_getElem?
    intro i
    rw [Array.toList_modify, List.getElem?_map, List.getElem?_map, List.getElem?_modify]
    by_cases hi : slot.index = i
    · subst hi
      rcases he : a.emitted.toList[slot.index]? with _ | e
      · rfl
      · rw [sizes, List.getElem?_map, he, Option.map_some, Option.some.injEq] at h
        -- The operand stays within two bytes, so the instruction keeps its three.
        have hshort : ¬ (0xFFFF : UInt32) <
            UInt32.ofNat (jumpOperand slot.op slot.offset target) := by
          rw [UInt32.lt_iff_toNat_lt, UInt32.toNat_ofNat']
          simp only [UInt32.reduceToNat]
          omega
        have hset : Emission.size { e with
            operand := some (UInt32.ofNat (jumpOperand slot.op slot.offset target)) } = 3 := by
          simp [Emission.size, hshort]
        simp [shape, h, hset]
    · simp [hi]
  · rfl

theorem written_patchTo (slot : JumpSlot) (target : Nat) (a : Assembler)
    (h : a.sizes[slot.index]? = some 3) : (a.patchTo slot target).written = a.written :=
  places_congr (shape_patchTo slot target a h) 0

theorem sizes_patchTo (slot : JumpSlot) (target : Nat) (a : Assembler)
    (h : a.sizes[slot.index]? = some 3) : (a.patchTo slot target).sizes = a.sizes := by
  have hshape := congrArg (List.map Prod.fst) (shape_patchTo slot target a h)
  rw [List.map_map, List.map_map] at hshape
  exact hshape

/-- Setting a target touches instructions only. -/
theorem patchTo_keeps (slot : JumpSlot) (target : Nat) (a : Assembler) :
    (a.patchTo slot target).firstLine = a.firstLine ∧ (a.patchTo slot target).line = a.line ∧
      (a.patchTo slot target).offset = a.offset := by
  unfold patchTo
  dsimp only
  split <;> exact ⟨rfl, rfl, rfl⟩

theorem Desk.sound_patchTo {d : Desk} (hd : d.Sound) (slot : JumpSlot) (target : Nat)
    (h : d.assembler.sizes[slot.index]? = some 3) :
    Desk.Sound { d with assembler := d.assembler.patchTo slot target } := by
  refine ⟨?_, ?_⟩
  · show (d.assembler.patchTo slot target).offset = (d.assembler.patchTo slot target).sizes.sum
    rw [sizes_patchTo slot target _ h, (patchTo_keeps slot target _).2.2, hd.offset]
  · intro other hother
    show (d.assembler.patchTo slot target).sizes[other.index]? = some 3
    rw [sizes_patchTo slot target _ h, hd.slots other hother]

/-- A jump just written can be patched. -/
theorem sizes_write_jump (op : UInt8) (a : Assembler) :
    (a.write op (some 0)).sizes[a.emitted.size]? = some 3 := by
  rw [sizes_write]
  simp [sizes, Emission.size]

/-! ## One step -/

/-- What a step does to the places written and to the current line. -/
structure Desk.Follows (d : Desk) (s : Step) (d' : Desk) : Prop where
  sound : d'.Sound
  firstLine : d'.assembler.firstLine = d.assembler.firstLine
  line : d'.assembler.line = s.lineAfter d.assembler.line
  offset : d'.assembler.offset = d.assembler.offset + s.size?.getD 0
  written : d'.assembler.written =
    d.assembler.written ++ (s.place? d.assembler.offset d.assembler.line).toList

theorem Desk.follows_write {d : Desk} (hd : d.Sound) (s : Step) (op : UInt8)
    (operand : Option UInt32)
    (hsize : s.size? = some (Emission.size ⟨op, operand, d.assembler.line⟩))
    (hline : s.lineAfter d.assembler.line = d.assembler.line) :
    d.Follows s { d with assembler := d.assembler.write op operand } where
  sound := sound_write hd op operand
  firstLine := rfl
  line := hline.symm
  offset := by
    rw [hsize]
    rfl
  written := by
    rw [Step.place?, hsize]
    exact written_write op operand d.assembler hd.offset

/-- Setting a target afterwards changes nothing of that. -/
theorem Desk.Follows.patchTo {d d' : Desk} {s : Step} (h : d.Follows s d') (slot : JumpSlot)
    (target : Nat) (hslot : d'.assembler.sizes[slot.index]? = some 3) :
    d.Follows s { d' with assembler := d'.assembler.patchTo slot target } := by
  obtain ⟨hfirst, hline, hoffset⟩ := patchTo_keeps slot target d'.assembler
  exact ⟨sound_patchTo h.sound slot target hslot, hfirst.trans h.firstLine, hline.trans h.line,
    hoffset.trans h.offset, (written_patchTo slot target _ hslot).trans h.written⟩

/-- Each step that succeeds writes what `Step.place?` says, at the line that was current. -/
theorem Desk.follows_of_step {ε : Type} {d d' : Desk} {s : Step} (hd : d.Sound)
    (hstep : Desk.step (ε := ε) d s = .ok d') : d.Follows s d' := by
  cases s with
  | line n =>
    cases hstep
    exact ⟨⟨hd.offset, hd.slots⟩, rfl, rfl, rfl, (List.append_nil _).symm⟩
  | emit op =>
    rw [Desk.step, emit] at hstep
    split at hstep
    · cases hstep
    · cases hstep
      exact Desk.follows_write hd _ op none rfl rfl
  | arg op operand =>
    rw [Desk.step, emitArg] at hstep
    split at hstep
    · cases hstep
      refine Desk.follows_write hd _ op (some operand) ?_ rfl
      simp only [Step.size?, Emission.size]
      split <;> rfl
    · cases hstep
  | jump op =>
    rw [Desk.step, emitJump, emitArg] at hstep
    split at hstep
    · cases hstep
      have h := Desk.follows_write hd (.jump op) op (some 0) rfl rfl
      -- The only new slot is that of the instruction just written.
      refine ⟨⟨h.sound.offset, ?_⟩, h.firstLine, h.line, h.offset, h.written⟩
      intro slot hslot
      rcases Array.mem_push.mp hslot with hold | rfl
      · exact h.sound.slots slot hold
      · exact sizes_write_jump op d.assembler
    · cases hstep
  | jumpTo op target =>
    rw [Desk.step, emitJumpTo, emitJump, emitArg] at hstep
    split at hstep
    · cases hstep
      have h := Desk.follows_write hd (.jumpTo op target) op (some 0) rfl rfl
      exact h.patchTo ⟨_, op, _⟩ target (sizes_write_jump op d.assembler)
    · cases hstep
  | patch i =>
    rw [Desk.step] at hstep
    split at hstep
    · rename_i slot hslot
      cases hstep
      have h : d.Follows (.patch i) d := ⟨hd, rfl, rfl, rfl, (List.append_nil _).symm⟩
      exact h.patchTo slot _ (hd.slots slot (Array.mem_of_getElem? hslot))
    · cases hstep
      exact ⟨hd, rfl, rfl, rfl, (List.append_nil _).symm⟩

/-! ## A whole history -/

/-- A history writes its instructions where `Step.placesOf` says. -/
theorem Desk.written_of_run {ε : Type} {d d' : Desk} {steps : List Step} (hd : d.Sound)
    (hrun : Desk.run (ε := ε) d steps = .ok d') :
    d'.assembler.firstLine = d.assembler.firstLine ∧
      d'.assembler.written = d.assembler.written ++
        Step.placesOf d.assembler.offset d.assembler.line steps := by
  induction steps generalizing d with
  | nil =>
    cases hrun
    exact ⟨rfl, (List.append_nil _).symm⟩
  | cons s rest ih =>
    rw [Desk.run, List.foldlM_cons] at hrun
    rcases hstep : Desk.step (ε := ε) d s with _ | middle
    · rw [hstep] at hrun
      cases hrun
    · rw [hstep] at hrun
      have hs := Desk.follows_of_step hd hstep
      obtain ⟨hfirst, hwritten⟩ := ih hs.sound hrun
      refine ⟨by rw [hfirst, hs.firstLine], ?_⟩
      rw [hwritten, hs.written, hs.offset, hs.line, List.append_assoc]
      rfl

/-! ## The laws -/

/-- The line table that a history finishes with can be read, whatever the lines were: the line
found at an instruction is the highest of the first line and the lines current at all
instructions up to it, and the span ends at the highest of all. -/
theorem every_instruction_reads_back_the_highest_line_so_far (firstLine : UInt32)
    (steps : List Step) (code table : Bytes) (info : UnitInfo) (consts : List (Constant CodeUnit))
    (h : assemble firstLine steps = .ok (code, table)) :
    let u : CodeUnit :=
      ⟨{ info with firstLine := firstLine, code := code, lineTable := table }, consts⟩
    let places := Step.placesOf 0 firstLine steps
    table.length % 2 = 0 ∧
      (∃ breaks, scan u = .ok breaks ∧ ∀ i w, places[i]? = some w →
        lineAt? breaks w.offset = some (highest firstLine.toNat (places.take (i + 1)))) ∧
      resolveSpan u = .ok ⟨firstLine.toNat, highest firstLine.toNat places⟩ := by
  intro u places
  obtain ⟨d, hrun, -, hfinish⟩ := assemble_eq_ok h
  obtain ⟨hfirst, hwritten⟩ := Desk.written_of_run (Desk.sound_start firstLine) hrun
  have hplaces : d.assembler.written = places := hwritten
  have hfirst : d.assembler.firstLine = firstLine := hfirst
  have hu : TableOf d.assembler u := ⟨hfirst.symm, hfinish.symm⟩
  refine ⟨?_, ⟨_, scan_of_tableOf hu, ?_⟩, ?_⟩
  · rw [← hfinish]
    exact length_encode _ _
  · intro i w hw
    rw [lineAt?_written d.assembler i w (hplaces ▸ hw), hplaces, hfirst]
  · rw [resolveSpan_of_tableOf hu, hplaces, hfirst]

/-- Both deltas need several pairs: 270 bytes of instructions, then a line far below, then a
line above it again. -/
def longHistory : List Step :=
  List.replicate 90 (.arg 100 7) ++ [.line 400, .emit 1, .line 2, .emit 83]

set_option maxRecDepth 20000 in
theorem a_long_history_reads_back :
    let code : Bytes := (List.replicate 90 [100, 7, 0]).flatten ++ [1, 83]
    let table : Bytes := [255, 0, 15, 255, 0, 144]
    let u : CodeUnit := ⟨⟨"m", "m.py", 1, code, table, [], [], 0, 0, .empty⟩, []⟩
    assemble 1 longHistory = .ok (code, table) ∧
      (∃ breaks, scan u = .ok breaks ∧ lineAt? breaks 267 = some 1 ∧
        lineAt? breaks 270 = some 400 ∧ lineAt? breaks 271 = some 400) ∧
      resolveSpan u = .ok ⟨1, 400⟩ := by
  intro code table u
  have h : assemble 1 longHistory = .ok (code, table) := by decide +kernel
  obtain ⟨_, ⟨breaks, hscan, hline⟩, hspan⟩ :=
    every_instruction_reads_back_the_highest_line_so_far 1 longHistory code table u.info [] h
  refine ⟨h, ⟨breaks, hscan, ?_, ?_, ?_⟩, hspan⟩
  · exact hline 89 ⟨267, 1⟩ (by decide +kernel)
  · exact hline 90 ⟨270, 400⟩ (by decide +kernel)
  · exact hline 91 ⟨271, 2⟩ (by decide +kernel)

end Assembler

end UnitAtlas
