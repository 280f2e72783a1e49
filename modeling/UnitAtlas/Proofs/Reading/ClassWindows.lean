-- What the windows of definitions and of lambdas end with. A class that a later line follows has a
-- window that ends right before the store under its name, so with the byte that makes the class or
-- with the call of its outermost decorator. Where a window ends with the byte that makes a class,
-- and this is a whole instruction, there is a class on the line of the window.
import UnitAtlas.Proofs.Draft.Finished
import UnitAtlas.Proofs.Reading.NestedUnits
import UnitAtlas.Proofs.Unit.Window

namespace UnitAtlas

open Syntax LineTable Opcode

/-! ## Single instructions -/

namespace Draft

theorem family_of_writes_access {what : Access} {name : String} {e : Emission}
    (h : (Draft.access what name).Writes e) :
    family? e.op = some .variable ∨ family? e.op = some .named := by
  obtain ⟨-, hop | hop | hop⟩ := h <;> rw [hop]
  · exact Or.inl what.family
  · exact Or.inr what.globally.family
  · exact Or.inr what.byName.family

theorem bytes_of_writes_plain {op : Plain} {e : Emission} (h : (Draft.plain op).Writes e) :
    e.bytes = [op.byte] := by
  obtain ⟨hproper, hop⟩ := h
  have hnone : e.operand = none := by
    have hsome := hproper.isSome
    rw [hop, hasOperand_of_family op.family] at hsome
    exact Option.isNone_iff_eq_none.mp (by simpa using hsome)
  rw [Emission.bytes, hnone, ← hop]

theorem bytes_of_writes_call {e : Emission} (h : (Draft.counted .callFunction 1).Writes e) :
    e.bytes = [Counted.callFunction.byte, 1, 0] := by
  obtain ⟨-, hop, hoperand⟩ := h
  rw [Emission.bytes, hoperand, hop]
  rfl

/-- What stands before the store of a class ends with the byte that makes the class, or with a
zero when it is the call of a decorator. -/
theorem ends_of_writes {e : Emission} {decorators : List Node}
    (h : (if decorators = [] then Draft.plain .buildClass
      else .counted .callFunction 1).Writes e) :
    e.bytes[e.size - 1]? = some Plain.buildClass.byte ↔ decorators = [] := by
  rw [← e.length_bytes]
  split at h <;> rename_i hnil
  · rw [bytes_of_writes_plain h]
    exact iff_of_true rfl hnil
  · rw [bytes_of_writes_call h]
    exact iff_of_false (by decide) hnil

end Draft

/-! ## The code of a unit, instruction by instruction -/

namespace Draft.WrittenIn

variable {ps : List Draft} {u : CodeUnit} {a : Assembler} {is : List Instruction}

theorem sweep_code (h : WrittenIn ps u a) : Bytecode.sweep u.info.code = some a.instructions := by
  obtain ⟨after, hwritten⟩ := h.written
  rw [h.code]
  exact Bytecode.sweep_flatMap hwritten.proper

theorem instructions_eq (h : WrittenIn ps u a) (hu : u.WellFormed is) : is = a.instructions := by
  have hswept := hu.swept
  rw [h.sweep_code] at hswept
  exact (Option.some.inj hswept).symm

/-- The code ends with the instruction that leaves the unit. -/
theorem exists_last (h : WrittenIn ps u a) (hu : u.WellFormed is) :
    ∃ fs e, a.emitted.toList = fs ++ [e] ∧ e.op = Plain.returnValue.byte := by
  have hlast := hu.last
  rw [h.instructions_eq hu, Assembler.instructions] at hlast
  rcases List.eq_nil_or_concat a.emitted.toList with hnil | ⟨fs, e, hes⟩
  · rw [hnil] at hlast
    cases hlast
  · rw [List.concat_eq_append] at hes
    rw [hes, Bytecode.listing_append, List.getLast?_concat, Option.map_some] at hlast
    exact ⟨fs, e, hes, Option.some.inj hlast⟩

/-- Tables that are not too long are reached with short operands. -/
theorem size_of_access (h : WrittenIn ps u a) (hu : u.WellFormed is) {fs gs : List Emission}
    {e : Emission} (hes : a.emitted.toList = fs ++ e :: gs) {what : Access} {name : String}
    (hwrites : (Draft.access what name).Writes e) (hnames : u.info.names.length ≤ 0x10000)
    (hvarNames : u.info.varNames.length ≤ 0x10000) : e.size = 3 := by
  have hsome : e.operand.isSome = true := by
    rw [hwrites.1.isSome]
    rcases family_of_writes_access hwrites with hfamily | hfamily <;>
      rw [hasOperand_of_family hfamily] <;> rfl
  obtain ⟨n, hn⟩ := Option.isSome_iff_exists.mp hsome
  have hmem : e.instruction (0 + (fs.map Emission.size).sum) ∈ is := by
    rw [h.instructions_eq hu]
    exact Bytecode.mem_listing.mpr ⟨fs, e, gs, hes, rfl⟩
  have hholds := hu.holds _ hmem n.toNat (by rw [Emission.instruction, hn]; rfl)
  refine e.size_of_short hn ?_
  rcases hwrites.2 with hop | hop | hop
  · exact Nat.lt_of_lt_of_le (hholds.varNames what hop) hvarNames
  · exact Nat.lt_of_lt_of_le (hholds.names _ hop) hnames
  · exact Nat.lt_of_lt_of_le (hholds.names _ hop) hnames

end Draft.WrittenIn

namespace Reading

open Draft

variable {filename : String} {n : Node} {u v : CodeUnit} {ps : List Draft} {a : Assembler}
  {glue : Nat} {range : ByteRange}

/-! ## Windows in written code -/

/-- The window of a unit that starts on a line of the code around it. -/
theorem Listing.found (h : Listing n u ps a) (ho : n.OrderedFrom u.info.firstLine)
    {front behind : List Emission} (hes : a.emitted.toList = front ++ behind) {span : LineSpan}
    (hfront : ∀ e ∈ front, e.line.toNat ≤ span.first)
    (hbehind : ∀ e ∈ behind, span.first < e.line.toNat ∧ span.last ≤ e.line.toNat)
    (hreach : ∃ e ∈ front, e.line.toNat = span.first) (hspan : resolveSpan v = .ok span)
    (hwindow : Window.extract glue u v = .ok range) :
    ∃ breaks, scan u = .ok breaks ∧ Window.Found glue front behind span breaks range := by
  have hscan := Assembler.scan_of_tableOf h.written.table
  have hsorted := h.sorted ho
  rw [h.written.table.firstLine] at hsorted
  refine ⟨_, hscan, ?_⟩
  rw [Window.extract, hspan, hscan] at hwindow
  cases hwindow
  rw [h.written.code, Assembler.length_code]
  exact Window.found_of_locate glue hes hsorted hfront hbehind hreach

/-- The code on the line of a definition, and all code around it by lines. -/
theorem Listing.lines_of_around (h : Listing n u ps a) (ho : n.OrderedFrom u.info.firstLine)
    {d : Definition} (hd : d ∈ n.definitions) {front own behind : List Emission}
    {later : List Draft} {after : List Item} (haround : Around n d a front own behind later after) :
    own ≠ [] ∧ (∀ e ∈ front, e.line ≤ d.line) ∧ (∀ e ∈ own, e.line = d.line) ∧
      ∀ e ∈ behind, d.line ≤ e.line := by
  obtain ⟨line, hown⟩ := haround.own
  have hparts := h.parts d (Node.mem_definitions.mp hd)
  have hlines := (hparts.lines hown).2
  obtain ⟨values, shape, body, makes, hparts⟩ := hparts
  obtain ⟨fs, store, -, rfl, -, -⟩ := hparts.exists_store hown
  have hstore := hlines store (by simp)
  have hsorted := (List.pairwise_cons.mp (h.sorted ho)).2
  rw [List.pairwise_map, haround.emitted] at hsorted
  obtain ⟨-, hrest, hfront⟩ := List.pairwise_append.mp hsorted
  rw [← ho.line_eq hd] at hstore hlines
  refine ⟨by simp, ?_, hlines, ?_⟩
  · intro e he
    rw [← hstore]
    exact hfront e he store (by simp)
  · intro e he
    rw [← hstore]
    exact (List.pairwise_append.mp hrest).2.2 store (by simp) e he

/-- What is below the line of a definition is below all lines of the definition. -/
theorem Listing.below_definition (h : Listing n u ps a) (ho : n.OrderedFrom u.info.firstLine)
    {d : Definition} (hd : d ∈ n.definitions) {e : Emission} (he : e ∈ a.emitted.toList)
    (hline : d.line < e.line) : ∀ x ∈ d.line :: Node.linesAmong d.node.children, x ≤ e.line := by
  obtain ⟨front, own, behind, later, after, haround⟩ := h.around hd
  obtain ⟨-, hfront, hown, -⟩ := h.lines_of_around ho hd haround
  obtain ⟨last, hbehind⟩ := haround.behind
  obtain ⟨before, hitems⟩ := haround.items
  rw [haround.emitted] at he
  have hmem : e ∈ behind := by
    rcases List.mem_append.mp he with he | he
    · exact absurd (hfront e he) (UInt32.not_le.mpr hline)
    · rcases List.mem_append.mp he with he | he
      · rw [hown e he] at hline
        exact absurd hline (UInt32.lt_irrefl _)
      · exact he
  -- It stands on a line that was started after the definition, by an item behind it.
  rcases List.mem_cons.mp (hbehind.mem_lines hmem) with hsame | hstart
  · rw [hsame, ← ho.line_eq hd] at hline
    exact absurd hline (UInt32.lt_irrefl _)
  · obtain ⟨i, hi, hline⟩ := List.mem_map.mp (haround.starts.subset hstart)
    rw [← hline]
    exact ho.le_of_after hitems hi

/-- Code on lines in order is in two parts, down to a line and below. -/
theorem exists_split {es : List Emission} (h : (es.map (·.line)).Pairwise (· ≤ ·))
    (line : UInt32) : ∃ front behind, es = front ++ behind ∧ (∀ e ∈ front, e.line ≤ line) ∧
      ∀ e ∈ behind, line < e.line := by
  induction es with
  | nil => exact ⟨[], [], rfl, nofun, nofun⟩
  | cons e es ih =>
    obtain ⟨hfirst, hrest⟩ := List.pairwise_cons.mp h
    by_cases he : e.line ≤ line
    · obtain ⟨front, behind, rfl, hfront, hbehind⟩ := ih hrest
      exact ⟨e :: front, behind, rfl, List.forall_mem_cons.mpr ⟨he, hfront⟩, hbehind⟩
    · have hlt := UInt32.not_le.mp he
      refine ⟨[], e :: es, rfl, nofun, List.forall_mem_cons.mpr ⟨hlt, fun f hf => ?_⟩⟩
      exact UInt32.lt_of_lt_of_le hlt (hfirst f.line (List.mem_map_of_mem hf))

/-- Every instruction reads back its own line. -/
theorem Listing.lineAt?_start (h : Listing n u ps a) (ho : n.OrderedFrom u.info.firstLine)
    {fs gs : List Emission} {e : Emission} (hes : a.emitted.toList = fs ++ e :: gs) :
    ∃ breaks, scan u = .ok breaks ∧
      lineAt? breaks (fs.map Emission.size).sum = some e.line.toNat := by
  obtain ⟨htop, hlines⟩ := List.pairwise_cons.mp (h.sorted ho)
  rw [h.written.table.firstLine] at htop
  rw [List.pairwise_map, hes] at hlines
  have hbefore := (List.pairwise_append.mp hlines).2.2
  have hplaces : a.written = Assembler.places 0 fs ++ ⟨(fs.map Emission.size).sum, e.line.toNat⟩ ::
      Assembler.places ((fs.map Emission.size).sum + e.size) gs := by
    rw [Assembler.written, hes, Assembler.places_append, Nat.zero_add]
    rfl
  have hread := Assembler.lineAt?_written a (Assembler.places 0 fs).length
    ⟨(fs.map Emission.size).sum, e.line.toNat⟩ (by simp [hplaces])
  refine ⟨_, Assembler.scan_of_tableOf h.written.table, hread.trans (congrArg some ?_)⟩
  rw [hplaces, List.take_length_add_append, List.take_succ_cons, List.take_zero]
  -- The line is no lower than those before it, so the highest so far.
  refine Nat.le_antisymm (Assembler.highest_le ?_ ?_)
    (Assembler.le_highest_of_mem (b := ⟨(fs.map Emission.size).sum, e.line.toNat⟩) (by simp))
  · exact UInt32.le_iff_toNat_le.mp (htop e.line (List.mem_map_of_mem (by simp [hes])))
  · intro b hb
    rcases List.mem_append.mp hb with hb | hb
    · obtain ⟨xs, f, ys, rfl, rfl⟩ := Assembler.mem_places hb
      exact UInt32.le_iff_toNat_le.mp (hbefore f (by simp) e List.mem_cons_self)
    · rw [List.mem_singleton.mp hb]

/-- The span of a definition starts on its line, and all code below this line is below the span. -/
theorem LiesOn.exists_span_above (h : LiesOn filename n u) (hl : Listing n u ps a)
    {d : Definition} (hd : d ∈ n.definitions) (hv : Makes filename d v) :
    ∃ span, resolveSpan v = .ok span ∧ span.first = d.line.toNat ∧
      ∀ e ∈ a.emitted.toList, d.line < e.line → span.last ≤ e.line.toNat := by
  obtain ⟨span, hspan, hfirst, ⟨x, hx, hlast⟩, -⟩ := (h.inward hd hv).exists_span
  rw [hv.firstLine] at hfirst hx
  refine ⟨span, hspan, hfirst, fun e he hline => ?_⟩
  rw [hlast]
  exact UInt32.le_iff_toNat_le.mp (hl.below_definition h.ordered hd he hline x hx)

/-- The window of a definition in code that is split behind its line. -/
theorem LiesOn.found_of_definition (h : LiesOn filename n u) (hl : Listing n u ps a)
    {d : Definition} (hd : d ∈ n.definitions) (hv : Makes filename d v)
    {front behind : List Emission} (hes : a.emitted.toList = front ++ behind)
    (hfront : ∀ e ∈ front, e.line ≤ d.line) (hbehind : ∀ e ∈ behind, d.line < e.line)
    (hwindow : Window.extract glue u v = .ok range) :
    ∃ span breaks, resolveSpan v = .ok span ∧ span.first = d.line.toNat ∧ scan u = .ok breaks ∧
      Window.Found glue front behind span breaks range := by
  obtain ⟨span, hspan, hfirst, habove⟩ := h.exists_span_above hl hd hv
  have hfront : ∀ e ∈ front, e.line.toNat ≤ span.first := fun e he =>
    hfirst ▸ UInt32.le_iff_toNat_le.mp (hfront e he)
  have hbelow : ∀ e ∈ behind, span.first < e.line.toNat ∧ span.last ≤ e.line.toNat := by
    intro e he
    rw [hfirst]
    exact ⟨UInt32.lt_iff_toNat_lt.mp (hbehind e he),
      habove e (hes ▸ List.mem_append_right _ he) (hbehind e he)⟩
  have hreach : ∃ e ∈ front, e.line.toNat = span.first := by
    obtain ⟨e, he, hline⟩ := hl.exists_emission hd
    rw [← h.ordered.line_eq hd] at hline
    rcases List.mem_append.mp (hes ▸ he) with he | he
    · exact ⟨e, he, by rw [hline, hfirst]⟩
    · exact absurd (hbehind e he) (hline ▸ UInt32.lt_irrefl _)
  obtain ⟨breaks, hscan, hfound⟩ := hl.found h.ordered hes hfront hbelow hreach hspan hwindow
  exact ⟨span, breaks, hspan, hfirst, hscan, hfound⟩

/-! ## The window of a class -/

/-- A later statement behind a definition keeps all code behind it below. -/
theorem Listing.Around.below (ho : n.OrderedFrom u.info.firstLine) {d : Definition}
    {front own behind : List Emission} {later : List Draft} {after : List Item}
    (h : Listing.Around n d a front own behind later after) {l : Label} (hnext : d.next = some l)
    (hline : d.line < l.line) : ∀ e ∈ behind, d.line < e.line := by
  obtain ⟨last, hbehind⟩ := h.behind
  obtain ⟨before, hitems⟩ := h.items
  obtain ⟨rest, rfl⟩ : ∃ rest, later = .line l.line :: rest :=
    List.head?_eq_some_iff.mp (h.next l hnext)
  have hsorted := (List.pairwise_cons.mp ho.sorted_map_line).2
  rw [hitems, List.map_append, List.map_cons] at hsorted
  have hlines := ((List.pairwise_append.mp hsorted).2.1.of_cons).sublist h.starts
  intro e he
  refine UInt32.lt_of_lt_of_le hline ?_
  rcases List.mem_cons.mp (hbehind.line_inv.mem_lines he) with hsame | hlater
  · exact hsame ▸ UInt32.le_refl _
  · exact (List.pairwise_cons.mp hlines).1 e.line hlater

/-- What ends with a store does not end a unit. -/
theorem Listing.behind_ne_nil (h : Listing n u ps a) {is : List Instruction} (hu : u.WellFormed is)
    {front behind : List Emission} {store : Emission} {what : Access} {name : String}
    (hes : a.emitted.toList = front ++ store :: behind)
    (hstore : (Draft.access what name).Writes store) : behind ≠ [] := by
  rintro rfl
  obtain ⟨fs, last, hfs, hop⟩ := h.written.exists_last hu
  obtain ⟨-, hlast⟩ := List.append_inj' (hes.symm.trans hfs) rfl
  obtain ⟨rfl, -⟩ := List.cons.inj hlast
  rcases family_of_writes_access hstore with hfamily | hfamily
  · exact ne_of_family hfamily Plain.returnValue.family (by decide) hop
  · exact ne_of_family hfamily Plain.returnValue.family (by decide) hop

/-- The window of a class that a later statement follows, when no other place of the line table is
on the line of the class or the class ends below that line: it ends with the instruction that makes
the class, if there is no decorator to call on it. -/
theorem LiesOn.ends_of_class (h : LiesOn filename n u) {is : List Instruction}
    (hu : u.WellFormed is) {d : Definition} (hd : d ∈ n.definitions) (hclass : d.isClass = true)
    (hv : Makes filename d v) {l : Label} (hnext : d.next = some l) (hline : d.line < l.line)
    (hwindow : Window.extract Window.defaultGlue u v = .ok range)
    (hnames : u.info.names.length ≤ 0x10000) (hvarNames : u.info.varNames.length ≤ 0x10000) :
    ∃ span breaks, resolveSpan v = .ok span ∧ scan u = .ok breaks ∧
      (span.first < span.last ∨ breaks.countP (·.line == span.first) ≤ 1 →
        (range.start < range.stop ∧
          u.info.code[range.stop - 1]? = some Plain.buildClass.byte ↔ d.decorators = [])) := by
  obtain ⟨ps, a, hl⟩ := h.holds.exists_listing
  obtain ⟨front, own, behind, later, after, haround⟩ := hl.around hd
  obtain ⟨-, hfront, hown, -⟩ := hl.lines_of_around h.ordered hd haround
  obtain ⟨line, hwritten⟩ := haround.own
  obtain ⟨fs, e, store, rfl, hstore, hmakes⟩ :=
    (hl.parts d (Node.mem_definitions.mp hd)).before_store hclass hwritten
  have hes : a.emitted.toList = (front ++ fs ++ [e, store]) ++ behind := by
    simp [haround.emitted]
  have hes' : a.emitted.toList = (front ++ fs ++ [e]) ++ store :: behind := by simp [hes]
  have hlines : ∀ f ∈ front ++ fs ++ [e, store], f.line ≤ d.line := by
    intro f hf
    rw [List.append_assoc] at hf
    rcases List.mem_append.mp hf with hf | hf
    · exact hfront f hf
    · exact hown f hf ▸ UInt32.le_refl _
  obtain ⟨span, breaks, hspan, hfirst, hscan, hfound⟩ := h.found_of_definition hl hd hv hes hlines
    (haround.below h.ordered hnext hline) hwindow
  refine ⟨span, breaks, hspan, hscan, fun hclose => ?_⟩
  have hsize : store.size = Window.defaultGlue :=
    hl.written.size_of_access hu hes' hstore hnames hvarNames
  rw [← hsize] at hfound
  obtain ⟨hlt, hstop⟩ := hfound.stop_before_store (hl.behind_ne_nil hu hes' hstore) hclose
    (by rw [hown e (by simp), hfirst])
  have hpos := Assembler.size_pos e
  have hcode : u.info.code = (front ++ fs ++ e :: store :: behind).flatMap Emission.bytes := by
    rw [hl.written.code, Assembler.code, hes, List.append_assoc]
    rfl
  rw [and_iff_right hlt, hcode, hstop, Nat.add_sub_assoc hpos,
    Emission.getElem?_bytes _ _ _ (by omega)]
  exact ends_of_writes hmakes

/-! ## Windows that end with the byte that makes a class -/

/-- Where this byte starts an instruction, it makes a class. -/
theorem exists_buildClass (h : WrittenIn ps u a) {i : Instruction} (hi : i ∈ a.instructions)
    (hbyte : u.info.code[i.start]? = some Plain.buildClass.byte) :
    ∃ fs e gs, a.emitted.toList = fs ++ e :: gs ∧ i.start = (fs.map Emission.size).sum ∧
      e.op = Plain.buildClass.byte := by
  obtain ⟨fs, e, gs, hes, rfl⟩ := Bytecode.mem_listing.mp hi
  have hstart : (e.instruction (0 + (fs.map Emission.size).sum)).start =
      (fs.map Emission.size).sum := Nat.zero_add _
  refine ⟨fs, e, gs, hes, hstart, ?_⟩
  have hfirst := Emission.getElem?_bytes fs gs e (Assembler.size_pos e)
  rw [← hes, ← Assembler.code, ← h.code, Nat.add_zero, ← hstart, hbyte, Emission.bytes] at hfirst
  -- The first byte is the opcode, or the prefix of a wide operand.
  split at hfirst
  · exact (Option.some.inj hfirst).symm
  · split at hfirst
    · cases hfirst
    · exact (Option.some.inj hfirst).symm

/-- Code that defines nothing makes no class. -/
theorem OfCode.makes_no_class (h : OfCode filename u) {is : List Instruction}
    (hswept : Bytecode.sweep u.info.code = some is) {i : Instruction} (hi : i ∈ is) :
    u.info.code[i.start]? ≠ some Plain.buildClass.byte := by
  intro hbyte
  obtain ⟨shape, body, hcode, hmade⟩ := h
  obtain ⟨a, hwritten⟩ := Draft.exists_writtenIn hmade
  rw [hwritten.sweep_code] at hswept
  cases hswept
  obtain ⟨fs, e, gs, hes, -, hop⟩ := exists_buildClass hwritten hi hbyte
  obtain ⟨after, hlines⟩ := hwritten.written
  exact hcode.2.parts _ (hlines.buildClass_mem (by simp [hes]) hop) rfl

/-- Such a byte in a window is that of a class on the first line of the window, if the code is in
two parts there. -/
theorem Listing.exists_class (h : Listing n u ps a) (ho : n.OrderedFrom u.info.firstLine)
    {i : Instruction} (hi : i ∈ a.instructions) (hstop : i.start + 1 = range.stop)
    (hlt : range.start < range.stop)
    (hbyte : u.info.code[range.stop - 1]? = some Plain.buildClass.byte) :
    ∃ d ∈ n.definitions, d.isClass = true ∧ ∀ {glue : Nat} {front behind : List Emission}
      {span : LineSpan} {breaks : List Breakpoint}, a.emitted.toList = front ++ behind →
        Window.Found glue front behind span breaks range → d.line.toNat = span.first := by
  rw [← hstop, Nat.add_sub_cancel] at hbyte
  obtain ⟨fs, e, gs, hes, hstart, hop⟩ := exists_buildClass h.written hi hbyte
  obtain ⟨after, hlines⟩ := h.written.written
  obtain ⟨d, hd, hclass, hline⟩ := h.draws.exists_class h.parts hlines (by simp [hes]) hop
  refine ⟨d, Node.mem_definitions.mpr hd, hclass, ?_⟩
  intro glue front behind span breaks hsplit hfound
  rw [ho.line_eq (Node.mem_definitions.mpr hd), ← hline]
  exact hfound.line_of_start (hsplit.symm.trans hes) (by omega) (by omega)

namespace LiesOn

/-- The window of a function ends with no instruction that makes a class. -/
theorem ends_of_function (h : LiesOn filename n u) (hopens : n.opensLines = true) {d : Definition}
    (hd : d ∈ n.definitions) (hfunction : d.isClass = false) (hv : Makes filename d v)
    (hwindow : Window.extract glue u v = .ok range) (hlt : range.start < range.stop)
    (hbyte : u.info.code[range.stop - 1]? = some Plain.buildClass.byte) {is : List Instruction}
    (hswept : Bytecode.sweep u.info.code = some is) : ∀ i ∈ is, i.start + 1 ≠ range.stop := by
  intro i hi hstop
  obtain ⟨ps, a, hl⟩ := h.holds.exists_listing
  rw [hl.written.sweep_code] at hswept
  cases hswept
  obtain ⟨front, behind, hes, hfront, hbehind⟩ :=
    exists_split (List.pairwise_cons.mp (hl.sorted h.ordered)).2 d.line
  obtain ⟨span, breaks, -, hfirst, -, hfound⟩ :=
    h.found_of_definition hl hd hv hes hfront hbehind hwindow
  obtain ⟨c, hc, hclass, hline⟩ := hl.exists_class h.ordered hi hstop hlt hbyte
  have hsame : c.line = d.line :=
    UInt32.toNat_inj.mp ((hline hes hfound).trans hfirst)
  rw [h.ordered.eq_of_line_eq hopens hc hd hsame, hfunction] at hclass
  cases hclass

/-- When the window of a lambda ends with an instruction that makes a class, the unit around it
defines a class, and that on the line of the lambda if it has code there. -/
theorem ends_of_lambda (h : LiesOn filename n u) (hv : v ∈ u.nested) (hlambda : v.isLambda = true)
    (hwindow : Window.extract glue u v = .ok range) (hlt : range.start < range.stop)
    (hbyte : u.info.code[range.stop - 1]? = some Plain.buildClass.byte) {is : List Instruction}
    (hswept : Bytecode.sweep u.info.code = some is) {i : Instruction} (hi : i ∈ is)
    (hstop : i.start + 1 = range.stop) {breaks : List Breakpoint} (hscan : scan u = .ok breaks) :
    ∃ d ∈ n.definitions, d.isClass = true ∧
      ((∃ k ∈ is, lineAt? breaks k.start = some v.info.firstLine.toNat) →
        d.line = v.info.firstLine) := by
  obtain ⟨ps, a, hl⟩ := h.holds.exists_listing
  rw [hl.written.sweep_code] at hswept
  cases hswept
  obtain ⟨d, hd, hclass, hline⟩ := hl.exists_class h.ordered hi hstop hlt hbyte
  refine ⟨d, hd, hclass, ?_⟩
  rintro ⟨k, hk, hread⟩
  obtain ⟨fs, e, gs, hes, rfl⟩ := Bytecode.mem_listing.mp hk
  obtain ⟨breaks', hscan', hread'⟩ := hl.lineAt?_start h.ordered hes
  rw [hscan] at hscan'
  cases hscan'
  rw [Emission.instruction, Nat.zero_add, hread', Option.some.injEq] at hread
  obtain ⟨front, behind, hsplit, hfront, hbehind⟩ :=
    exists_split (List.pairwise_cons.mp (hl.sorted h.ordered)).2 v.info.firstLine
  have hbelow : ∀ f ∈ behind, v.info.firstLine.toNat < f.line.toNat ∧
      v.info.firstLine.toNat ≤ f.line.toNat := by
    intro f hf
    have hlt := UInt32.lt_iff_toNat_lt.mp (hbehind f hf)
    exact ⟨hlt, Nat.le_of_lt hlt⟩
  have hreach : ∃ f ∈ front, f.line.toNat = v.info.firstLine.toNat := by
    have he : e ∈ front ++ behind := by simp [← hsplit, hes]
    rcases List.mem_append.mp he with he | he
    · exact ⟨e, he, hread⟩
    · have hlt := (hbelow e he).1
      omega
  obtain ⟨breaks', -, hfound⟩ := hl.found h.ordered hsplit
    (fun f hf => UInt32.le_iff_toNat_le.mp (hfront f hf)) hbelow hreach
    (h.holds.ofCode_of_isLambda hv hlambda).resolveSpan hwindow
  exact UInt32.toNat_inj.mp (hline hsplit hfound)

end LiesOn

end Reading

end UnitAtlas
