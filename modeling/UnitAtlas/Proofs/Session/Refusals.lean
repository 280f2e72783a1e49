-- Sessions whose sink refuses a frame. Up to that frame they are the sessions of a sink that works;
-- the frame is still in the output log, and nothing comes behind it: no line is read and no
-- failure is reported.
import UnitAtlas.Proofs.Session.Events

namespace UnitAtlas

namespace Sink

/-- The sink takes the frames before number `k` and refuses that one, when it is written or when
it is flushed. By then so many frames have been delivered. -/
inductive FirstRefuses (sink : Sink) (k : Nat) : Nat → Prop where
  | write (before : ∀ n < k, sink.refusesWrite n = false ∧ sink.refusesFlush n = false)
      (refused : sink.refusesWrite k = true) : FirstRefuses sink k k
  | flush (before : ∀ n < k, sink.refusesWrite n = false ∧ sink.refusesFlush n = false)
      (written : sink.refusesWrite k = false) (refused : sink.refusesFlush k = true) :
      FirstRefuses sink k (k + 1)

theorem FirstRefuses.before {sink : Sink} {k delivered : Nat} (h : sink.FirstRefuses k delivered) :
    ∀ n < k, sink.refusesWrite n = false ∧ sink.refusesFlush n = false := by
  cases h with
  | write before | flush before => exact before

theorem FirstRefuses.le_delivered {sink : Sink} {k delivered : Nat}
    (h : sink.FirstRefuses k delivered) : k ≤ delivered := by
  cases h with
  | write => exact le_rfl
  | flush => exact Nat.le_succ k

theorem FirstRefuses.delivered_le {sink : Sink} {k delivered : Nat}
    (h : sink.FirstRefuses k delivered) : delivered ≤ k + 1 := by
  cases h with
  | write => exact Nat.le_succ k
  | flush => exact le_rfl

end Sink

namespace Event

/-! ## Lines and frames in turn -/

/-- Before its next frame so many lines are read, and one before each frame behind that. -/
def Paced : Nat → List Event → Prop
  | _, [] => True
  | due, read _ :: later => ∃ fewer, due = fewer + 1 ∧ Paced fewer later
  | due, wrote _ :: later => due = 0 ∧ Paced 1 later
  | due, greeted _ :: later | due, reported _ _ :: later => Paced due later

theorem Paced.reads {due : Nat} {later : List Event} (h : Paced due later) (lines : List String) :
    Paced (lines.length + due) (lines.map read ++ later) := by
  induction lines with
  | nil => rwa [List.length_nil, Nat.zero_add]
  | cons line lines ih => exact ⟨lines.length + due, by rw [List.length_cons]; omega, ih⟩

/-- The lines that are read before a frame. -/
theorem Paced.length_lines {due : Nat} {earlier later : List Event} {frame : Bytes}
    (h : Paced due (earlier ++ wrote frame :: later)) :
    (lines earlier).length = (frames earlier).length + due := by
  induction earlier generalizing due with
  | nil =>
    obtain ⟨rfl, -⟩ := h
    rfl
  | cons e earlier ih =>
    cases e with
    | read line =>
      obtain ⟨fewer, rfl, hlater⟩ := h
      have hcount := ih hlater
      show (lines earlier).length + 1 = (frames earlier).length + (fewer + 1)
      omega
    | wrote other =>
      obtain ⟨rfl, hlater⟩ := h
      exact ih hlater
    | greeted env => exact ih h
    | reported request chain => exact ih h

/-- Every frame stands between earlier and later events. -/
theorem exists_split {es : List Event} {k : Nat} (h : k < (frames es).length) :
    ∃ earlier frame later, es = earlier ++ wrote frame :: later ∧ (frames earlier).length = k := by
  induction es generalizing k with
  | nil => cases h
  | cons e es ih =>
    have hskip : k < (frames es).length → e.frame? = none →
        ∃ earlier frame later, e :: es = earlier ++ wrote frame :: later ∧
          (frames earlier).length = k := by
      intro hk hnone
      obtain ⟨earlier, frame, later, rfl, hcount⟩ := ih hk
      refine ⟨e :: earlier, frame, later, rfl, ?_⟩
      rwa [frames, List.filterMap_cons_none hnone]
    cases e with
    | read | greeted | reported => exact hskip h rfl
    | wrote bytes =>
      cases k with
      | zero => exact ⟨[], bytes, es, rfl, rfl⟩
      | succ k =>
        obtain ⟨earlier, frame, later, rfl, hcount⟩ := ih (Nat.lt_of_succ_lt_succ h)
        exact ⟨wrote bytes :: earlier, frame, later, rfl, congrArg Nat.succ hcount⟩

/-- No line is read between a frame and its report. -/
theorem Paced.write {later : List Event} (h : Paced 1 later) (w : Write) :
    Paced 0 (w.events ++ later) := by
  rcases w with ⟨frame, _ | failure⟩ <;> exact ⟨rfl, h⟩

end Event

namespace Service

variable {s : Service} {st : Session} {es : List Event}

theorem paced_serveEvents (s : Service) (lines : List String) (st : Session) :
    Event.Paced 1 (s.serveEvents lines st) := by
  induction lines generalizing st with
  | nil => trivial
  | cons line lines ih =>
    refine ⟨0, rfl, ?_⟩
    split
    · trivial
    · exact (ih _).write _

/-- A session reads one line before each frame, and those of the handshake before its status. -/
theorem paced_events (s : Service) (withHandshake : Bool) (lines : List String) (st : Session) :
    Event.Paced (if withHandshake then (lines.take 4).length else 1)
      (s.events withHandshake lines st) := by
  cases withHandshake with
  | false => exact paced_serveEvents s lines st
  | true =>
    have hstatus : ∀ env (w : Write) after, Event.Paced 0
        (.greeted env :: w.events ++ s.serveEvents (lines.drop 4) after) := fun _ w after =>
      (paced_serveEvents s (lines.drop 4) after).write w
    rw [events, if_pos rfl, if_pos rfl, greetEvents]
    dsimp only
    rw [List.append_assoc]
    exact (hstatus _ _ _).reads (lines.take 4)

/-! ## What is refused -/

/-- A frame that is refused is in the log all the same. -/
theorem step_of_refused {delivered : Nat} (h : s.sink.FirstRefuses st.frames.length delivered)
    (frame : Bytes) : ∃ chain, s.step st (.wrote frame) = (.error chain,
      { s.after st (.wrote frame) with frames := (st.frames ++ [frame]).take delivered }) := by
  unfold step writeFrame
  cases h with
  | write _ refused =>
    rw [List.take_left]
    simp only [refused, if_true]
    exact ⟨_, rfl⟩
  | flush _ written refused =>
    have hall : (st.frames ++ [frame]).take (st.frames.length + 1) = st.frames ++ [frame] :=
      List.take_of_length_le (by rw [List.length_append, List.length_singleton])
    rw [hall]
    simp only [written, refused, Bool.false_eq_true, if_false, if_true]
    exact ⟨_, rfl⟩

theorem serveEvents_withSink (s : Service) (sink : Sink) (lines : List String) (st : Session) :
    serveEvents { s with sink := sink } lines st = s.serveEvents lines st := by
  induction lines generalizing st with
  | nil => rfl
  | cons line lines ih =>
    rw [serveEvents, serveEvents]
    dsimp only
    rw [ih]
    rfl

/-- What a session does but for refusals does not depend on its sink. -/
theorem events_withSink (s : Service) (sink : Sink) (withHandshake : Bool) (lines : List String)
    (st : Session) :
    events { s with sink := sink } withHandshake lines st = s.events withHandshake lines st := by
  cases withHandshake with
  | false => exact serveEvents_withSink s sink lines st
  | true => exact congrArg _ (serveEvents_withSink s sink (lines.drop 4) _)

/-- Going through events comes to an end at the first frame that is refused. -/
theorem play_of_refused {k delivered : Nat} (hrefuses : s.sink.FirstRefuses k delivered)
    (hstart : st.frames = []) {earlier : List Event} (hcount : (Event.frames earlier).length = k)
    (frame : Bytes) (later : List Event) :
    ∃ chain, s.play (earlier ++ .wrote frame :: later) st = (.error chain,
      { s.afterAll st (earlier ++ [.wrote frame]) with
        frames := (Event.frames (earlier ++ .wrote frame :: later)).take delivered }) := by
  have hframes : (s.afterAll st earlier).frames = Event.frames earlier := by
    rw [frames_afterAll, hstart, List.nil_append]
  have htaken : s.play earlier st = (.ok (), s.afterAll st earlier) := by
    refine play_of_taken fun n hn => hrefuses.before n ?_
    rwa [hstart, List.length_nil, Nat.zero_add, hcount] at hn
  have hhere : s.sink.FirstRefuses (s.afterAll st earlier).frames.length delivered := by
    rw [hframes, hcount]
    exact hrefuses
  obtain ⟨chain, hrefused⟩ := step_of_refused hhere frame
  have hdelivered : (Event.frames (earlier ++ .wrote frame :: later)).take delivered =
      (Event.frames earlier ++ [frame]).take delivered := by
    have hsplit : Event.frames (earlier ++ .wrote frame :: later) =
        Event.frames earlier ++ [frame] ++ Event.frames later := by
      rw [List.append_assoc]
      exact List.filterMap_append
    rw [hsplit, List.take_append_of_le_length]
    rw [List.length_append, List.length_singleton, hcount]
    exact hrefuses.delivered_le
  refine ⟨chain, ?_⟩
  rw [play_append, htaken, hdelivered, afterAll_append, andThen, play, hrefused, hframes]
  rfl

/-- What is left to read behind a frame. -/
theorem input_afterAll_events (withHandshake : Bool) {texts : List String}
    (htexts : st.input.map Input.text = texts.map .ok) {earlier later : List Event} {frame : Bytes}
    (hevents : s.events withHandshake texts st = earlier ++ .wrote frame :: later) :
    (s.afterAll st (earlier ++ [.wrote frame])).input =
      st.input.drop ((Event.frames earlier).length + if withHandshake then 4 else 1) := by
  have hpaced := paced_events s withHandshake texts st
  rw [hevents] at hpaced
  have hlength := Input.length_of_texts htexts
  have hlines : Event.lines (earlier ++ [.wrote frame]) = Event.lines earlier :=
    List.filterMap_append.trans (List.append_nil _)
  rw [input_afterAll, hlines, hpaced.length_lines, List.drop_eq_drop_iff]
  cases withHandshake with
  | false => rfl
  | true =>
    -- A handshake at the end of the input takes fewer lines, but then nothing is left.
    rw [if_pos rfl, if_pos rfl, List.length_take, hlength]
    omega

/-! ## The law -/

/-- Of a frame that is not refused nothing is lost, and the first that is refused ends the session:
what was delivered is the start of what a sink that works is given, the result is an error exactly
when there was a frame to refuse, and the session is left as it is behind that frame, which is in
the output log without a report. No line is read but the one for this frame and those before it. -/
theorem a_refused_frame_ends_the_session (s : Service) (hsink : s.sink.Works) (sink : Sink)
    {k delivered : Nat} (hrefuses : sink.FirstRefuses k delivered) (withHandshake : Bool)
    (files : FileSystem) (text : String) :
    let start := Session.ofInput files (Utf8.encode text)
    let events := s.events withHandshake (Lines.trimmed text) start
    let whole := s.run withHandshake start
    let cut := run { s with sink := sink } withHandshake start
    let n := whole.2.frames.length
    whole = (.ok (), s.afterAll start events) ∧
      cut.2.frames = whole.2.frames.take (min delivered n) ∧
      ((∃ chain, cut.1 = .error chain) ↔ k < n) ∧
      (n ≤ k → cut = whole) ∧
      (k < n → ∃ earlier frame later, events = earlier ++ .wrote frame :: later ∧
        (Event.frames earlier).length = k ∧
        cut.2.input = start.input.drop (k + if withHandshake then 4 else 1) ∧
        cut.2 = { s.afterAll start (earlier ++ [.wrote frame]) with
          frames := whole.2.frames.take delivered }) := by
  intro start events whole cut n
  have htexts : start.input.map Input.text = (Lines.trimmed text).map .ok :=
    Input.text_raw_encode text
  have hwhole : whole = (.ok (), s.afterAll start events) :=
    run_of_works hsink withHandshake htexts
  have hframes : whole.2.frames = Event.frames events := by
    rw [hwhole]
    exact frames_afterAll s start events
  have hcut : cut = play { s with sink := sink } events start := by
    refine (run_eq_play withHandshake htexts).trans ?_
    rw [events_withSink]
  refine ⟨hwhole, ?_⟩
  rcases Nat.lt_or_ge k n with hk | hk
  · have hmore : k < (Event.frames events).length := by rwa [← hframes]
    obtain ⟨earlier, frame, later, hevents, hcount⟩ := Event.exists_split hmore
    have hstart : start.frames = [] := rfl
    obtain ⟨chain, hended⟩ := play_of_refused (s := { s with sink := sink }) hrefuses hstart hcount
      frame later
    rw [← hevents, ← hcut, ← hframes] at hended
    have hinput := input_afterAll_events withHandshake htexts hevents
    rw [hcount] at hinput
    rw [hended, ← List.take_eq_take_min]
    exact ⟨rfl, ⟨fun _ => hk, fun _ => ⟨chain, rfl⟩⟩, fun hn => absurd hk hn.not_gt,
      fun _ => ⟨earlier, frame, later, hevents, hcount, hinput, rfl⟩⟩
  · -- Every frame is taken.
    have hsame : cut = whole := by
      rw [hcut, hwhole]
      refine play_of_taken fun j hj => hrefuses.before j (Nat.lt_of_lt_of_le hj ?_)
      rw [← hframes]
      exact (Nat.zero_add n).le.trans hk
    have hall : n ≤ min delivered n := le_min (hk.trans hrefuses.le_delivered) le_rfl
    rw [hsame, List.take_of_length_le hall, hwhole]
    exact ⟨rfl, ⟨nofun, fun hn => absurd hn hk.not_gt⟩, fun _ => rfl,
      fun hn => absurd hn hk.not_gt⟩

/-- A directory to ask for and the file of the log. -/
def directoryAndLog : FileSystem := ⟨[], [(["d"], .directory), (["l"], .file [])]⟩

/-- Requests for a missing file, for a directory and for another missing file. -/
def threeRequests : String := "a\nd\nc\n"

/-- A sink that does not flush its second frame. -/
def stuck : Sink := { refusesFlush := (· == 1) }

theorem a_failure_that_is_not_flushed_is_not_reported :
    let start := Session.ofInput directoryAndLog (Utf8.encode threeRequests)
    let whole := logging.run false start
    let cut := run { logging with sink := stuck } false start
    logging.sink.Works ∧ stuck.FirstRefuses 1 2 ∧
      whole.2.frames = [Wire.int32 0, Wire.int32 (-1), Wire.int32 0] ∧
      (∃ chain, cut.1 = .error chain) ∧ cut.2.frames = [Wire.int32 0, Wire.int32 (-1)] ∧
      cut.2.input = [[0x63, 0x0A]] ∧
      cut.2.files.read "l" = .ok (Wire.int32 0 ++ Wire.int32 (-1)) := by
  intro start whole cut
  have hsink : logging.sink.Works := fun _ => ⟨rfl, rfl⟩
  have hrefuses : stuck.FirstRefuses 1 2 :=
    .flush (fun n hn => ⟨rfl, by rw [Nat.lt_one_iff.mp hn]; rfl⟩) rfl rfl
  have hwhole : (logging.run false (Session.ofInput directoryAndLog
      (Utf8.encode threeRequests))).2.frames = [Wire.int32 0, Wire.int32 (-1), Wire.int32 0] := by
    decide +kernel
  have hlog : (run { logging with sink := stuck } false (Session.ofInput directoryAndLog
      (Utf8.encode threeRequests))).2.files.read "l" = .ok (Wire.int32 0 ++ Wire.int32 (-1)) := by
    decide +kernel
  have hrest : ((Lines.raw (Utf8.encode threeRequests)).drop (1 + 1)) = [[0x63, 0x0A]] := by
    decide +kernel
  obtain ⟨-, hframes, herror, -, hcut⟩ := a_refused_frame_ends_the_session logging hsink stuck
    hrefuses false directoryAndLog threeRequests
  rw [hwhole] at hframes herror hcut
  obtain ⟨_, _, _, -, -, hinput, -⟩ := hcut (by decide)
  exact ⟨hsink, hrefuses, hwhole, herror.mpr (by decide), hframes, hinput.trans hrest, hlog⟩

end Service

end UnitAtlas
