-- Building a map in machine words: sums that are no word and places outside of a list stop the
-- work at the step where they come up. On units that fit into a machine this gives the same map,
-- error or panic as before, and the one step that can panic is the sum of the counts of a unit.
import Mathlib.Data.List.TakeDrop
import UnitAtlas.Proofs.Entity.Malformed

namespace UnitAtlas

open CodeUnit LineTable

namespace Words

/-! ## Steps that can panic -/

section Steps

variable {ε α : Type}

/-- The sum of two words, when it is a word. -/
def add (a b : Nat) : Except (Fault ε) Nat :=
  if a + b < Parameters.countBound then .ok (a + b)
  else .error (.panic "attempt to add with overflow")

/-- The entries from `start` up to, not including, `stop`. -/
def slice (xs : List α) (start stop : Nat) : Except (Fault ε) (List α) :=
  if stop < start then .error (.panic s!"slice index starts at {start} but ends at {stop}")
  else if xs.length < stop then
    .error (.panic s!"range end index {stop} out of range for slice of length {xs.length}")
  else .ok ((xs.take stop).drop start)

/-- The entry at a place. -/
def entry (xs : List α) (i : Nat) : Except (Fault ε) α :=
  match xs[i]? with
  | some x => .ok x
  | none => .error (.panic s!"index out of bounds: the len is {xs.length} but the index is {i}")

theorem add_eq_ok {a b : Nat} (h : a + b < Parameters.countBound) :
    (add a b : Except (Fault ε) Nat) = .ok (a + b) :=
  if_pos h

theorem add_eq_panic {a b : Nat} (h : Parameters.countBound ≤ a + b) :
    (add a b : Except (Fault ε) Nat) = .error (.panic "attempt to add with overflow") :=
  if_neg (Nat.not_lt.mpr h)

theorem slice_eq_ok {xs : List α} {start stop : Nat} (hstart : start ≤ stop)
    (hstop : stop ≤ xs.length) :
    (slice xs start stop : Except (Fault ε) (List α)) = .ok ((xs.take stop).drop start) := by
  rw [slice, if_neg (Nat.not_lt.mpr hstart), if_neg (Nat.not_lt.mpr hstop)]

theorem entry_eq_ok {xs : List α} {i : Nat} (h : i < xs.length) :
    (entry xs i : Except (Fault ε) α) = .ok xs[i] := by
  rw [entry, List.getElem?_eq_getElem h]

end Steps

/-! ## Reading a unit -/

/-- The breakpoint given, and one more after each delta pair. Lines are advanced with a check of
their own, but offsets are plain sums. -/
def trace (u : CodeUnit) (start : Breakpoint) :
    List (UInt8 × UInt8) → Except (Fault DecodeError) (List Breakpoint)
  | [] => return [start]
  | p :: ps => do
    let offset ← add start.offset p.1.toNat
    let line ← Fault.ofError (LineTable.advance u start.line p.2)
    let later ← trace u ⟨offset, line⟩ ps
    return start :: later

/-- All breakpoints of a unit, for which room is made first. -/
def scan (u : CodeUnit) : Except (Fault DecodeError) (List Breakpoint) := do
  let ps ← Fault.ofError (LineTable.pairs u)
  let _ ← add ps.length 1
  trace u ⟨0, u.info.firstLine.toNat⟩ ps

/-- The window of `child` in the instructions of `parent`. Cutting off the glue stops at zero. -/
def extract (glue : Nat) (parent child : CodeUnit) : Except (Fault DecodeError) ByteRange := do
  let span ← Fault.ofError (LineTable.resolveSpan child)
  let breaks ← scan parent
  return Window.locate glue parent.info.code.length breaks span

/-- The star of a parameter list, and the place in the names that comes next. -/
def star (info : UnitInfo) (kwOnly : List String) (next : Nat) :
    Except (Fault DecodeError) (List String × Nat) :=
  if info.flags.contains .varArgs then do
    let name ← entry info.varNames next
    let behind ← add next 1
    return (["*" ++ name], behind)
  else return (if kwOnly.isEmpty then [] else ["*"], next)

def doubleStar (info : UnitInfo) (next : Nat) : Except (Fault DecodeError) (List String) :=
  if info.flags.contains .varKeywords then do
    let name ← entry info.varNames next
    return ["**" ++ name]
  else return []

/-- The number of names that a unit asks for, summed up from the left. -/
def needed (info : UnitInfo) : Except (Fault DecodeError) Nat := do
  let counts ← add info.argCount info.kwOnlyCount
  let withStar ← add counts (info.flags.contains .varArgs).toNat
  add withStar (info.flags.contains .varKeywords).toNat

def parts (info : UnitInfo) : Except (Fault DecodeError) (List String) := do
  let positional ← slice info.varNames 0 info.argCount
  let next ← add info.argCount info.kwOnlyCount
  let kwOnly ← slice info.varNames info.argCount next
  let (catchAll, next) ← star info kwOnly next
  let keywords ← doubleStar info next
  return positional ++ catchAll ++ kwOnly ++ keywords

/-- The declared parameters as they are shown. -/
def display (kind : UnitKind) (u : CodeUnit) : Except (Fault DecodeError) String :=
  if kind.takesArguments then do
    let count ← needed u.info
    if u.info.varNames.length < count then
      .error (.error (.parameters u.info.name count u.info.varNames.length))
    else
      let names ← parts u.info
      return "(" ++ ", ".intercalate names ++ ")"
  else .ok ""

/-! ## The map -/

def entityOf (u : CodeUnit) (kind : UnitKind) (path : AncestryPath) (window : ByteRange) :
    Except (Fault DecodeError) Entity := do
  let lines ← Fault.ofError (LineTable.resolveSpan u)
  let args ← display kind u
  return ⟨kind, u.info.name, lines, window, path, args, IdentityToken.ofUnit u⟩

mutual
/-- The entities below a unit at `path`. -/
def below (c : Classifier) (path : AncestryPath) :
    CodeUnit → Except (Fault DecodeError) (List Entity)
  | ⟨info, consts⟩ => belowAll c path ⟨info, consts⟩ consts

/-- The entities that a stretch of the parent's constant table gives. -/
def belowAll (c : Classifier) (path : AncestryPath) (parent : CodeUnit) :
    List (Constant CodeUnit) → Except (Fault DecodeError) (List Entity)
  | [] => return []
  | k :: ks => do
    let here ← belowOne c path parent k
    let later ← belowAll c path parent ks
    return here ++ later

/-- The entities that one constant of the parent gives. -/
def belowOne (c : Classifier) (path : AncestryPath) (parent : CodeUnit) :
    Constant CodeUnit → Except (Fault DecodeError) (List Entity)
  | .literal _ => return []
  | .unit u => do
    let range ← extract c.glue parent u
    let kind := EntityTree.kindOf c parent range
    let childPath := path.child kind u.info.name
    let entity ← entityOf u kind childPath range
    let inner ← below c childPath u
    return entity :: inner
end

/-- Every unit reachable from `root`, the root first and seen as a module. -/
def build (c : Classifier) (root : CodeUnit) : Except (Fault DecodeError) (List Entity) := do
  let path : AncestryPath := [⟨.module, root.info.name⟩]
  let first ← entityOf root .module path ⟨0, root.info.code.length⟩
  let rest ← below c path root
  return first :: rest

/-! ## Units that fit -/

/-- The table of a unit is shorter than 2^48 bytes, and what is counted is counted in words. -/
structure Fits (u : CodeUnit) : Prop where
  table : u.info.lineTable.length < 2 ^ 48
  names : u.info.varNames.length < Parameters.countBound
  positional : u.info.argCount < Parameters.countBound
  kwOnly : u.info.kwOnlyCount < Parameters.countBound

variable {u : CodeUnit}

theorem length_pairUp_le : ∀ table : Bytes, (pairUp table).length ≤ table.length
  | [] => Nat.le_refl _
  | [_] => Nat.zero_le _
  | b :: l :: rest => by
    have hrest := length_pairUp_le rest
    simp only [pairUp, List.length_cons]
    omega

/-- A pair moves the offset by at most 255. -/
theorem trace_eq (start : Breakpoint) (ps : List (UInt8 × UInt8))
    (h : start.offset + 255 * ps.length < Parameters.countBound) :
    trace u start ps = Fault.ofError (LineTable.trace u start ps) := by
  induction ps generalizing start with
  | nil => rfl
  | cons p ps ih =>
    have hbyte : p.1.toNat ≤ 255 := Nat.le_of_lt_succ p.1.toNat_lt
    rw [List.length_cons] at h
    rw [trace, add_eq_ok (by omega), LineTable.trace]
    rcases LineTable.advance u start.line p.2 with e | line
    · rfl
    · have hrest := ih ⟨start.offset + p.1.toNat, line⟩ (by dsimp only; omega)
      show (trace u ⟨start.offset + p.1.toNat, line⟩ ps >>= fun later => pure (start :: later)) = _
      rw [hrest]
      show _ = Fault.ofError (LineTable.trace u ⟨start.offset + p.1.toNat, line⟩ ps >>= _)
      rcases LineTable.trace u ⟨start.offset + p.1.toNat, line⟩ ps with e | later <;> rfl

theorem scan_eq (h : Fits u) : scan u = Fault.ofError (LineTable.scan u) := by
  rcases hpairs : LineTable.pairs u with e | ps
  · rw [scan, LineTable.scan, hpairs]
    rfl
  · have hps : ps = pairUp u.info.lineTable := by
      unfold LineTable.pairs at hpairs
      split at hpairs <;> cases hpairs
      rfl
    have hlength : ps.length < 2 ^ 48 := by
      rw [hps]
      exact Nat.lt_of_le_of_lt (length_pairUp_le _) h.table
    rw [scan, LineTable.scan, hpairs]
    show (add ps.length 1 >>= fun _ => trace u _ ps) = Fault.ofError (LineTable.trace u _ ps)
    rw [add_eq_ok (by unfold Parameters.countBound; omega)]
    exact trace_eq _ ps (by unfold Parameters.countBound; dsimp only; omega)

theorem extract_eq {parent : CodeUnit} (h : Fits parent) (glue : Nat) (child : CodeUnit) :
    extract glue parent child = Fault.ofError (Window.extract glue parent child) := by
  rw [extract, Window.extract, scan_eq h]
  rcases LineTable.resolveSpan child with e | span
  · rfl
  · rcases LineTable.scan parent with e | breaks <;> rfl

/-- The sum is a word at each step, or it is none in the end. -/
theorem needed_eq (info : UnitInfo) :
    needed info =
      if Parameters.countBound ≤ Parameters.needed info then
        .error (.panic "attempt to add with overflow")
      else .ok (Parameters.needed info) := by
  unfold needed Parameters.needed
  by_cases hcounts : Parameters.countBound ≤ info.argCount + info.kwOnlyCount
  · rw [add_eq_panic hcounts, if_pos (by omega)]
    rfl
  · rw [add_eq_ok (Nat.not_le.mp hcounts)]
    show (add _ _ >>= fun withStar => add withStar _) = _
    by_cases hstar : Parameters.countBound ≤
        info.argCount + info.kwOnlyCount + (info.flags.contains .varArgs).toNat
    · rw [add_eq_panic hstar, if_pos (by omega)]
      rfl
    · rw [add_eq_ok (Nat.not_le.mp hstar)]
      show add _ _ = _
      split
      · exact add_eq_panic (by assumption)
      · exact add_eq_ok (by omega)

theorem star_eq {info : UnitInfo} {next : Nat} (kwOnly : List String)
    (hlength : info.varNames.length < Parameters.countBound)
    (hnames : next + (info.flags.contains .varArgs).toNat ≤ info.varNames.length) :
    star info kwOnly next =
      .ok (if info.flags.contains .varArgs then
          ((info.varNames.drop next).take 1).map ("*" ++ ·)
        else if kwOnly.isEmpty then [] else ["*"],
        next + (info.flags.contains .varArgs).toNat) := by
  unfold star
  cases hstar : info.flags.contains .varArgs with
  | true =>
    rw [hstar, Bool.toNat_true] at hnames
    have hlt : next < info.varNames.length := hnames
    rw [if_pos rfl, entry_eq_ok hlt, add_eq_ok (by omega), List.take_one_drop_eq_of_lt_length hlt]
    rfl
  | false => rfl

theorem doubleStar_eq {info : UnitInfo} {next : Nat}
    (hnames : next + (info.flags.contains .varKeywords).toNat ≤ info.varNames.length) :
    doubleStar info next =
      .ok (if info.flags.contains .varKeywords then
          ((info.varNames.drop next).take 1).map ("**" ++ ·)
        else []) := by
  unfold doubleStar
  cases hkeywords : info.flags.contains .varKeywords with
  | true =>
    rw [hkeywords, Bool.toNat_true] at hnames
    have hlt : next < info.varNames.length := hnames
    rw [if_pos rfl, entry_eq_ok hlt, List.take_one_drop_eq_of_lt_length hlt]
    rfl
  | false => rfl

/-- With names enough no place is outside of them. -/
theorem parts_eq {info : UnitInfo} (hlength : info.varNames.length < Parameters.countBound)
    (hnames : Parameters.needed info ≤ info.varNames.length) :
    parts info = .ok (Parameters.parts info) := by
  unfold Parameters.needed at hnames
  have hkwOnly : (info.varNames.take (info.argCount + info.kwOnlyCount)).drop info.argCount =
      (info.varNames.drop info.argCount).take info.kwOnlyCount := by
    rw [List.drop_take, Nat.add_sub_cancel_left]
  rw [parts, slice_eq_ok (Nat.zero_le _) (by omega), add_eq_ok (by omega)]
  show (slice info.varNames _ _ >>= fun kwOnly => star info kwOnly _ >>= _) = _
  rw [slice_eq_ok (Nat.le_add_right _ _) (by omega), hkwOnly]
  show (star info _ _ >>= _) = _
  rw [star_eq _ hlength (by omega)]
  show (doubleStar info _ >>= _) = _
  rw [doubleStar_eq (by omega), Parameters.parts]
  simp only [List.drop_drop, List.drop_zero, bind, Except.bind, pure, Except.pure]

theorem display_eq (h : Fits u) (kind : UnitKind) :
    display kind u = Parameters.display kind u := by
  unfold display Parameters.display
  split
  · rw [needed_eq]
    by_cases hnames : Parameters.needed u.info ≤ u.info.varNames.length
    · have hword : ¬ Parameters.countBound ≤ Parameters.needed u.info := by
        have := h.names
        omega
      rw [if_pos hnames, if_neg hword]
      show (if _ then _ else parts u.info >>= _) = _
      rw [if_neg (Nat.not_lt.mpr hnames), parts_eq h.names hnames]
      rfl
    · rw [if_neg hnames]
      by_cases hword : Parameters.countBound ≤ Parameters.needed u.info
      · rw [if_pos hword, if_pos hword]
        rfl
      · rw [if_neg hword, if_neg hword]
        exact if_pos (Nat.not_le.mp hnames)
  · rfl

theorem entityOf_eq (h : Fits u) : entityOf u = Entity.ofUnit u := by
  funext kind path window
  unfold entityOf Entity.ofUnit
  rw [display_eq h]

/-! ## The same map -/

theorem belowAll_eq {c : Classifier} {path : AncestryPath} {parent : CodeUnit}
    (hparent : Fits parent) (cs : List (Constant CodeUnit)) (hcs : ∀ v ∈ unitsOf cs, Fits v)
    (ih : ∀ v ∈ unitsOf cs, ∀ path, below c path v = EntityTree.below c path v) :
    belowAll c path parent cs = EntityTree.belowAll c path parent cs := by
  induction cs with
  | nil => rfl
  | cons k cs ihcs =>
    have hhere : belowOne c path parent k = EntityTree.belowOne c path parent k := by
      cases k with
      | literal l => rfl
      | unit v =>
        have hv : v ∈ unitsOf (.unit v :: cs) := List.mem_cons_self
        rw [belowOne, EntityTree.belowOne, extract_eq hparent, entityOf_eq (hcs v hv)]
        simp only [ih v hv]
    have htail : ∀ v ∈ unitsOf cs, v ∈ unitsOf (k :: cs) := by
      intro v hv
      rw [mem_unitsOf] at hv ⊢
      exact List.mem_cons_of_mem k hv
    rw [belowAll, EntityTree.belowAll, hhere,
      ihcs (fun v hv => hcs v (htail v hv)) fun v hv => ih v (htail v hv)]

theorem below_eq {c : Classifier} (h : u.Throughout Fits) (path : AncestryPath) :
    below c path u = EntityTree.below c path u := by
  induction u using CodeUnit.induction generalizing path with
  | unit u ih =>
    obtain ⟨hu, hnested⟩ := throughout_iff.mp h
    obtain ⟨info, consts⟩ := u
    rw [below, EntityTree.below]
    refine belowAll_eq hu consts ?_ ?_
    · intro v hv
      exact (throughout_iff.mp (hnested v hv)).1
    · intro v hv path
      exact ih v hv (hnested v hv) path

theorem build_eq {c : Classifier} {root : CodeUnit} (h : root.Throughout Fits) :
    build c root = EntityTree.build c root := by
  unfold build EntityTree.build
  simp only [entityOf_eq (throughout_iff.mp h).1, below_eq h]

/-! ## The one panic -/

open EntityTree

theorem reported_eq_panic {c : Classifier} {root : CodeUnit} {a : List Nat} {e : DecodeError}
    {message : String} (h : Malformed c root a e) :
    Parameters.reported e = .panic message ↔
      message = "attempt to add with overflow" ∧
        ∃ p u, a ≠ [] ∧ root.at? a.dropLast = some p ∧ root.at? a = some u ∧
          c.isClass p u = .ok false ∧ Parameters.countBound ≤ Parameters.needed u.info ∧
          e = Parameters.shortage u := by
  constructor
  · intro hpanic
    cases h with
    | odd hu hodd => cases hpanic
    | overflow hu heven hover => cases hpanic
    | @short p u ha hp hu hfunction hshort =>
      have hpanic : (if Parameters.countBound ≤ Parameters.needed u.info then
          Fault.panic "attempt to add with overflow"
        else .error (Parameters.shortage u)) = .panic message := hpanic
      split at hpanic
      · rename_i hword
        cases hpanic
        exact ⟨rfl, p, u, ha, hp, hu, hfunction, hword, rfl⟩
      · cases hpanic
  · rintro ⟨rfl, p, u, -, -, -, -, hword, rfl⟩
    exact if_pos hword

/-- On units that fit, no step of building a map leaves the machine words or the bounds of a list
but one: the counts of a function may have a sum that is no word. It stops the map just when this
function is the first malformed unit; all other malformed units end in an error. -/
theorem only_the_sum_of_counts_can_panic (c : Classifier) (root : CodeUnit)
    (hfits : root.Throughout Fits) :
    build c root = EntityTree.build c root ∧
      ∀ message, build c root = .error (.panic message) ↔
        message = "attempt to add with overflow" ∧
          ∃ a p u, FirstMalformed c root a (Parameters.shortage u) ∧ a ≠ [] ∧
            root.at? a.dropLast = some p ∧ root.at? a = some u ∧ c.isClass p u = .ok false ∧
            Parameters.countBound ≤ Parameters.needed u.info := by
  refine ⟨build_eq hfits, fun message => ?_⟩
  rw [build_eq hfits, build_eq_error]
  constructor
  · rintro ⟨a, e, hfirst, hpanic⟩
    obtain ⟨hmessage, p, u, ha, hp, hu, hfunction, hword, rfl⟩ :=
      (reported_eq_panic hfirst.malformed).mp hpanic.symm
    exact ⟨hmessage, a, p, u, hfirst, ha, hp, hu, hfunction, hword⟩
  · rintro ⟨hmessage, a, p, u, hfirst, ha, hp, hu, hfunction, hword⟩
    exact ⟨a, _, hfirst, ((reported_eq_panic hfirst.malformed).mpr
      ⟨hmessage, p, u, ha, hp, hu, hfunction, hword, rfl⟩).symm⟩

/-! ### A function with as many parameters as a word can count, and one more -/

def countlessFunction : CodeUnit :=
  ⟨⟨"f", "m.py", 1, [100, 0, 0, 83], [], [], [], 18446744073709551615, 1, .empty⟩, []⟩

def countlessModule : CodeUnit :=
  ⟨⟨"<module>", "m.py", 1, [100, 0, 0, 83], [], [], [], 0, 0, .empty⟩, [.unit countlessFunction]⟩

/-- Each count is a word. -/
theorem countlessModule_fits : countlessModule.Throughout Fits := by
  have hfunction : countlessFunction.Throughout Fits :=
    throughout_iff.mpr ⟨⟨by decide, by decide, by decide, by decide⟩, nofun⟩
  exact throughout_iff.mpr ⟨⟨by decide, by decide, by decide, by decide⟩,
    List.forall_mem_singleton.mpr hfunction⟩

theorem a_sum_of_counts_panics :
    countlessModule.Throughout Fits ∧
      build ⟨3, [89]⟩ countlessModule = .error (.panic "attempt to add with overflow") :=
  ⟨countlessModule_fits, rfl⟩

theorem the_countless_function_is_the_first_malformed :
    countlessModule.Throughout Fits ∧
      ∃ a p u, FirstMalformed ⟨3, [89]⟩ countlessModule a (Parameters.shortage u) ∧ a ≠ [] ∧
        countlessModule.at? a.dropLast = some p ∧ countlessModule.at? a = some u ∧
        Classifier.isClass ⟨3, [89]⟩ p u = .ok false ∧
        Parameters.countBound ≤ Parameters.needed u.info := by
  have hpanic : build ⟨3, [89]⟩ countlessModule =
      .error (.panic "attempt to add with overflow") := rfl
  obtain ⟨-, hfirst⟩ :=
    ((only_the_sum_of_counts_can_panic ⟨3, [89]⟩ countlessModule countlessModule_fits).2 _).mp
      hpanic
  exact ⟨countlessModule_fits, hfirst⟩

end Words

end UnitAtlas
