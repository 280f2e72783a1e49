-- A session as a list of events: lines that are read, frames that are written, failures that are
-- reported. What a session does is told by its input and the files, whatever the sink takes. The
-- sink only cuts it short: a run goes through the events in turn, up to the first frame that is
-- refused.
import UnitAtlas.Proofs.Session.Unlogged

namespace UnitAtlas

/-- What happens in a session. -/
inductive Event where
  /-- A line is read, without the blanks around it. -/
  | read (line : String)
  /-- A handshake leaves this environment. -/
  | greeted (env : LookupEnv)
  /-- A frame is written. -/
  | wrote (frame : Bytes)
  /-- A failure is reported. -/
  | reported (request : String) (chain : ErrorChain)

namespace Event

def line? : Event → Option String
  | read line => some line
  | _ => none

def frame? : Event → Option Bytes
  | wrote frame => some frame
  | _ => none

/-- The lines that are read, in order. -/
def lines (events : List Event) : List String := events.filterMap line?

/-- The frames that are written, in order. -/
def frames (events : List Event) : List Bytes := events.filterMap frame?

end Event

/-- A frame, and what failed when it was made: which request, and why. -/
structure Write where
  frame : Bytes
  failure : Option (String × ErrorChain)
  deriving DecidableEq

namespace Write

/-- The frame is written before its failure is reported. -/
def events (w : Write) : List Event :=
  .wrote w.frame :: (w.failure.map fun (request, chain) => Event.reported request chain).toList

theorem frames_events (w : Write) : Event.frames w.events = [w.frame] := by
  rcases w with ⟨frame, _ | failure⟩ <;> rfl

theorem lines_events (w : Write) : Event.lines w.events = [] := by
  rcases w with ⟨frame, _ | failure⟩ <;> rfl

end Write

namespace Service

variable {s : Service} {base : FileSystem} {st : Session} {e : Event} {es : List Event}

/-! ## Going through events -/

/-- The session behind one event. Only a frame can be refused. -/
def step (s : Service) (st : Session) : Event → Except ErrorChain Unit × Session
  | .read line =>
    (.ok (), { st with
      input := st.input.tail
      files := LogFile.note s.inputLog st.files (Utf8.encode (line ++ "\n")) })
  | .greeted env => (.ok (), { st with env := env })
  | .wrote frame => s.writeFrame frame st
  | .reported request chain =>
    (.ok (), { st with files := s.report request (some chain) st.files })

/-- The session behind events one after the other, up to the first that fails. -/
def play (s : Service) : List Event → Session → Except ErrorChain Unit × Session
  | [], st => (.ok (), st)
  | e :: later, st => andThen (s.step st e) fun _ after => s.play later after

/-- The session behind one event when nothing is refused. -/
def after (s : Service) (st : Session) (e : Event) : Session := (step { s with sink := {} } st e).2

/-- The session behind events one after the other when nothing is refused. -/
def afterAll (s : Service) (st : Session) (events : List Event) : Session :=
  events.foldl s.after st

theorem andThen_assoc {α β γ : Type} (first : Except ErrorChain α × Session)
    (second : α → Session → Except ErrorChain β × Session)
    (third : β → Session → Except ErrorChain γ × Session) :
    andThen (andThen first second) third =
      andThen first fun a after => andThen (second a after) third := by
  rcases first with ⟨chain | a, after⟩ <;> rfl

theorem andThen_congr {α β : Type} {step : Except ErrorChain α × Session}
    {next next' : α → Session → Except ErrorChain β × Session}
    (h : ∀ a after, step = (.ok a, after) → next a after = next' a after) :
    andThen step next = andThen step next' := by
  rcases step with ⟨chain | a, after⟩
  · rfl
  · exact h a after rfl

theorem play_append (s : Service) (earlier later : List Event) (st : Session) :
    s.play (earlier ++ later) st =
      andThen (s.play earlier st) fun _ after => s.play later after := by
  induction earlier generalizing st with
  | nil => rfl
  | cons e earlier ih =>
    rw [List.cons_append, play, play, andThen_assoc]
    exact andThen_congr fun _ after _ => ih after

/-- A frame leads to the same session behind every sink that takes it. -/
theorem step_ok {after : Session} (h : s.step st e = (.ok (), after)) : s.after st e = after := by
  cases e with
  | read | greeted | reported => exact congrArg Prod.snd h
  | wrote frame =>
    unfold step writeFrame at h
    dsimp only at h
    split at h
    · cases h
    · split at h
      · cases h
      · exact congrArg Prod.snd h

theorem play_ok {last : Session} (h : s.play es st = (.ok (), last)) :
    s.afterAll st es = last := by
  induction es generalizing st with
  | nil => exact congrArg Prod.snd h
  | cons e later ih =>
    rw [play] at h
    rcases hstep : s.step st e with ⟨chain | _, after⟩ <;> rw [hstep] at h
    · cases h
    · rw [afterAll, List.foldl_cons, step_ok hstep]
      exact ih h

/-! ## What events leave -/

theorem afterAll_append (s : Service) (st : Session) (earlier later : List Event) :
    s.afterAll st (earlier ++ later) = s.afterAll (s.afterAll st earlier) later :=
  List.foldl_append

theorem input_afterAll (s : Service) (st : Session) (es : List Event) :
    (s.afterAll st es).input = st.input.drop (Event.lines es).length := by
  induction es generalizing st with
  | nil => rfl
  | cons e later ih =>
    rw [afterAll, List.foldl_cons]
    refine (ih (s.after st e)).trans ?_
    cases e with
    | read line =>
      have htail : (s.after st (.read line)).input = st.input.drop 1 := List.drop_one.symm
      rw [htail, List.drop_drop, Nat.add_comm]
      rfl
    | greeted | wrote | reported => rfl

theorem frames_afterAll (s : Service) (st : Session) (es : List Event) :
    (s.afterAll st es).frames = st.frames ++ Event.frames es := by
  induction es generalizing st with
  | nil => exact (List.append_nil _).symm
  | cons e later ih =>
    rw [afterAll, List.foldl_cons]
    refine (ih (s.after st e)).trans ?_
    cases e with
    | wrote frame => exact List.append_assoc _ _ _
    | read | greeted | reported => rfl

theorem env_afterAll_of_not_greeted (s : Service) (st : Session)
    (h : ∀ e ∈ es, ∀ env, e ≠ .greeted env) : (s.afterAll st es).env = st.env := by
  induction es generalizing st with
  | nil => rfl
  | cons e later ih =>
    rw [List.forall_mem_cons] at h
    obtain ⟨hfirst, hlater⟩ := h
    rw [afterAll, List.foldl_cons]
    refine (ih (s.after st e) hlater).trans ?_
    cases e with
    | greeted env => exact absurd rfl (hfirst env)
    | read | wrote | reported => rfl

theorem onlyLogsDiffer_after (h : s.OnlyLogsDiffer base st.files) (e : Event) :
    s.OnlyLogsDiffer base (s.after st e).files := by
  cases e with
  | read line => exact onlyLogsDiffer_noteInput h _
  | greeted env => exact h
  | wrote frame => exact onlyLogsDiffer_noteOutput h frame
  | reported request chain => exact onlyLogsDiffer_report h request (some chain)

theorem onlyLogsDiffer_afterAll (h : s.OnlyLogsDiffer base st.files) (es : List Event) :
    s.OnlyLogsDiffer base (s.afterAll st es).files := by
  induction es generalizing st with
  | nil => exact h
  | cons e later ih => exact ih (onlyLogsDiffer_after h e)

/-! ## What is taken -/

theorem step_of_taken (h : s.sink.refusesWrite st.frames.length = false ∧
    s.sink.refusesFlush st.frames.length = false) (frame : Bytes) :
    s.step st (.wrote frame) = (.ok (), s.after st (.wrote frame)) := by
  unfold step writeFrame
  simp only [h, Bool.false_eq_true, if_false]
  rfl

/-- Events whose frames are all taken. -/
theorem play_of_taken (h : ∀ n < st.frames.length + (Event.frames es).length,
    s.sink.refusesWrite n = false ∧ s.sink.refusesFlush n = false) :
    s.play es st = (.ok (), s.afterAll st es) := by
  induction es generalizing st with
  | nil => rfl
  | cons e es ih =>
    cases e with
    | read | greeted | reported => exact ih h
    | wrote frame =>
      have hcount : st.frames.length + (Event.frames (.wrote frame :: es)).length =
          (s.after st (.wrote frame)).frames.length + (Event.frames es).length := by
        show _ + ((Event.frames es).length + 1) = (st.frames ++ [frame]).length + _
        rw [List.length_append, List.length_singleton, Nat.add_assoc, Nat.add_comm 1]
      rw [hcount] at h
      have htaken := h st.frames.length (by
        rw [← hcount]
        exact Nat.lt_add_of_pos_right (Nat.succ_pos _))
      rw [play, step_of_taken htaken]
      exact ih h

/-! ## The events of a run -/

/-- The answer to a request. -/
def answerWrite (s : Service) (files : FileSystem) (env : LookupEnv) (request : String) : Write :=
  ⟨(s.frameFor files env request).1,
    (s.frameFor files env request).2.map fun chain => (request, chain)⟩

/-- The status for a handshake. -/
def statusWrite (outcome : Except HandshakeError Unit) : Write :=
  ⟨Wire.status outcome.toBool,
    match outcome with
    | .ok () => none
    | .error e => some (handshakeName, e.chain)⟩

/-- The requests in the lines up to an empty one, each answered from the files at its turn. -/
def serveEvents (s : Service) : List String → Session → List Event
  | [], _ => []
  | line :: later, st =>
    .read line ::
      if line = "" then []
      else
        let heard := s.after st (.read line)
        let answered := (s.answerWrite heard.files heard.env line).events
        answered ++ s.serveEvents later (s.afterAll heard answered)

/-- The lines of a handshake, and the status for it. -/
def greetEvents (lines : List String) (st : Session) : List Event :=
  let (env, outcome) := st.env.apply st.files (handshakeOf lines)
  lines.map .read ++ .greeted env :: (statusWrite outcome).events

/-- The events of a run whose input consists of these lines. -/
def events (s : Service) (withHandshake : Bool) (lines : List String) (st : Session) :
    List Event :=
  if withHandshake then
    let greeting := greetEvents (lines.take 4) st
    greeting ++ s.serveEvents (lines.drop 4) (s.afterAll st greeting)
  else s.serveEvents lines st

/-! ## Reading -/

theorem readLine_of_text {raw : Bytes} {rest : List Bytes} {line : String}
    (hinput : st.input = raw :: rest) (htext : Input.text raw = .ok line) :
    s.readLine st = (.ok (some line), s.after st (.read line)) := by
  unfold readLine after step
  rw [hinput]
  simp only [Input.next, htext, Except.map, List.tail_cons]

theorem play_read (s : Service) (line : String) (later : List Event) (st : Session) :
    s.play (.read line :: later) st = s.play later (s.after st (.read line)) := rfl

/-- Reading the lines of a handshake is nothing but that. -/
theorem readLines_eq_play (count : Nat) {texts : List String}
    (htexts : st.input.map Input.text = texts.map .ok) :
    ∃ pad, s.readLines count st =
      (.ok (texts.take count ++ List.replicate pad ""),
        s.afterAll st ((texts.take count).map .read)) := by
  induction count generalizing st texts with
  | zero => exact ⟨0, rfl⟩
  | succ count ih =>
    rw [readLines_succ]
    rcases hinput : st.input with _ | ⟨raw, rest⟩
    · rw [hinput, List.map_nil] at htexts
      obtain rfl : texts = [] := List.map_eq_nil_iff.mp htexts.symm
      have hnone : st.input.map Input.text = ([] : List String).map .ok := by
        rw [hinput]
        rfl
      obtain ⟨pad, hread⟩ := ih hnone
      rw [readLine_nil s hinput, andThen, hread]
      exact ⟨pad + 1, by rw [List.take_nil, List.take_nil, List.replicate_succ]; rfl⟩
    · rcases texts with _ | ⟨line, texts⟩
      · rw [hinput] at htexts
        cases htexts
      · rw [hinput, List.map_cons, List.map_cons, List.cons.injEq] at htexts
        obtain ⟨hline, hrest⟩ := htexts
        have hinput' : (s.after st (.read line)).input = rest := congrArg List.tail hinput
        rw [← hinput'] at hrest
        obtain ⟨pad, hread⟩ := ih hrest
        rw [readLine_of_text hinput hline, andThen, hread]
        exact ⟨pad, rfl⟩

/-! ## The run -/

theorem serveRequest_eq_play (s : Service) (request : String) (st : Session) :
    s.serveRequest request st = s.play (s.answerWrite st.files st.env request).events st := by
  rw [serveRequest_eq_andThen, Write.events, answerWrite, play]
  refine andThen_congr fun _ after _ => ?_
  rcases (s.frameFor st.files st.env request).2 with _ | chain <;> rfl

/-- Serving lines of text goes through their events. -/
theorem serveLines_eq_play {lines : List Bytes} {texts : List String}
    (hinput : st.input = lines) (htexts : lines.map Input.text = texts.map .ok) :
    s.serveLines lines st = s.play (s.serveEvents texts st) st := by
  induction lines generalizing st texts with
  | nil =>
    obtain rfl : texts = [] := List.map_eq_nil_iff.mp htexts.symm
    rfl
  | cons raw rest ih =>
    rcases texts with _ | ⟨line, texts⟩
    · cases htexts
    · rw [List.map_cons, List.map_cons, List.cons.injEq] at htexts
      obtain ⟨hline, hrest⟩ := htexts
      have hsame : { st with input := raw :: rest } = st := by rw [← hinput]
      rw [serveLines_cons, hsame, readLine_of_text hinput hline, serveEvents, play_read, andThen]
      dsimp only
      split
      · rfl
      · rw [serveRequest_eq_play, play_append]
        refine andThen_congr fun _ last hanswered => ?_
        rw [play_ok hanswered]
        refine ih ?_ hrest
        rw [← play_ok hanswered, input_afterAll, Write.lines_events]
        exact congrArg List.tail hinput

theorem play_reads (s : Service) (lines : List String) (later : List Event) (st : Session) :
    s.play (lines.map .read ++ later) st = s.play later (s.afterAll st (lines.map .read)) := by
  induction lines generalizing st with
  | nil => rfl
  | cons line lines ih => exact ih (s.after st (.read line))

theorem answerHandshake_eq_play (s : Service) (lines : List String) (st : Session) :
    s.answerHandshake lines st =
      s.play (.greeted (st.env.apply st.files (handshakeOf lines)).1 ::
        (statusWrite (st.env.apply st.files (handshakeOf lines)).2).events) st := by
  unfold answerHandshake
  rcases st.env.apply st.files (handshakeOf lines) with ⟨env, outcome⟩
  cases outcome <;> exact andThen_congr fun _ _ _ => rfl

/-- A handshake of lines of text goes through its events. -/
theorem handshake_eq_play {texts : List String}
    (htexts : st.input.map Input.text = texts.map .ok) :
    s.handshake st = s.play (greetEvents (texts.take 4) st) st := by
  obtain ⟨pad, hread⟩ := readLines_eq_play (s := s) 4 htexts
  -- The lines are in the input log by the time they are applied, which is no directory.
  have hfiles : s.OnlyLogsDiffer st.files (s.afterAll st ((texts.take 4).map .read)).files :=
    onlyLogsDiffer_afterAll (.refl _ _) _
  have henv : (s.afterAll st ((texts.take 4).map .read)).env = st.env :=
    env_afterAll_of_not_greeted s st fun e he env hgreeted => by
      obtain ⟨line, -, rfl⟩ := List.mem_map.mp he
      cases hgreeted
  rw [handshake_eq, hread, andThen, answerHandshake_eq_play, handshakeOf_append_replicate, henv,
    hfiles.apply_eq, greetEvents]
  exact (play_reads s _ _ st).symm

theorem lines_reads (lines : List String) : Event.lines (lines.map .read) = lines := by
  rw [Event.lines, List.filterMap_map]
  exact List.filterMap_some

theorem lines_greetEvents (lines : List String) (st : Session) :
    Event.lines (greetEvents lines st) = lines := by
  rw [greetEvents, Event.lines, List.filterMap_append]
  refine (congrArg₂ _ (lines_reads lines) (Write.lines_events _)).trans ?_
  exact List.append_nil lines

/-- A run whose input is text goes through its events, as far as its sink takes the frames. -/
theorem run_eq_play (withHandshake : Bool) {texts : List String}
    (htexts : st.input.map Input.text = texts.map .ok) :
    s.run withHandshake st = s.play (s.events withHandshake texts st) st := by
  cases withHandshake with
  | false => exact serveLines_eq_play rfl htexts
  | true =>
    rw [run_true, handshake_eq_play htexts]
    refine Eq.trans ?_ (play_append s _ _ st).symm
    refine andThen_congr fun _ after hgreeted => ?_
    have hlength := Input.length_of_texts htexts
    have hinput : after.input = st.input.drop 4 := by
      rw [← play_ok hgreeted, input_afterAll, lines_greetEvents, List.length_take, hlength,
        ← List.drop_eq_drop_min]
    rw [serve, play_ok hgreeted]
    refine serveLines_eq_play rfl ?_
    rw [hinput, List.map_drop, htexts, List.map_drop]

/-- A run whose sink works goes through all its events. -/
theorem run_of_works (hsink : s.sink.Works) (withHandshake : Bool) {texts : List String}
    (htexts : st.input.map Input.text = texts.map .ok) :
    s.run withHandshake st = (.ok (), s.afterAll st (s.events withHandshake texts st)) :=
  (run_eq_play withHandshake htexts).trans (play_of_taken fun n _ => hsink n)

end Service

end UnitAtlas
