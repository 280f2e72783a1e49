-- What a session does with its lines when nothing it writes is refused. Each step leaves all
-- files but the logs as they are, and a run answers one request after the other until a line
-- is blank or is not text.
import Mathlib.Data.List.Forall2
import UnitAtlas.Proofs.Session.Answers
import UnitAtlas.Proofs.Session.Input

namespace UnitAtlas

/-- No write and no flush is refused. -/
def Sink.Works (sink : Sink) : Prop :=
  ∀ n, sink.refusesWrite n = false ∧ sink.refusesFlush n = false

namespace Service

variable {s : Service} {base : FileSystem}

/-- The logs that are set up. -/
def logs (s : Service) : List LogFile := s.outputLog.toList ++ s.inputLog.toList

/-- Nothing but the content of the logs is different. -/
def OnlyLogsDiffer (s : Service) (base now : FileSystem) : Prop :=
  base.SameBut (LogFile.spots s.logs base) now

/-! ## One step -/

theorem onlyLogsDiffer_noteOutput {now : FileSystem} (h : s.OnlyLogsDiffer base now)
    (bytes : Bytes) : s.OnlyLogsDiffer base (LogFile.note s.outputLog now bytes) := by
  refine LogFile.sameBut_note h s.outputLog (fun log hlog => ?_) bytes
  exact List.mem_append_left _ (Option.mem_toList.mpr hlog)

theorem onlyLogsDiffer_noteInput {now : FileSystem} (h : s.OnlyLogsDiffer base now)
    (bytes : Bytes) : s.OnlyLogsDiffer base (LogFile.note s.inputLog now bytes) := by
  refine LogFile.sameBut_note h s.inputLog (fun log hlog => ?_) bytes
  exact List.mem_append_right _ (Option.mem_toList.mpr hlog)

theorem onlyLogsDiffer_report {now : FileSystem} (h : s.OnlyLogsDiffer base now)
    (request : String) (failure : Option ErrorChain) :
    s.OnlyLogsDiffer base (s.report request failure now) := by
  cases failure with
  | none => exact h
  | some chain => exact onlyLogsDiffer_noteOutput h _

theorem readLine_nil (s : Service) {st : Session} (hinput : st.input = []) :
    s.readLine st = (.ok none, st) := by
  obtain ⟨files, input, env, frames⟩ := st
  cases hinput
  rfl

/-- A line is taken from the input, and only the input log can show it. -/
theorem readLine_cons (st : Session) {raw : Bytes} {rest : List Bytes}
    (hfiles : s.OnlyLogsDiffer base st.files) (hinput : st.input = raw :: rest) :
    ∃ files, s.OnlyLogsDiffer base files ∧
      s.readLine st = ((Input.text raw).map some, { st with files := files, input := rest }) := by
  unfold readLine
  rw [hinput]
  rcases htext : Input.text raw with chain | line
  · refine ⟨st.files, hfiles, ?_⟩
    simp only [Input.next, htext, Except.map]
  · refine ⟨_, onlyLogsDiffer_noteInput hfiles (Utf8.encode (line ++ "\n")), ?_⟩
    simp only [Input.next, htext, Except.map]

/-- A frame is written once and as a whole. -/
theorem writeFrame_eq (st : Session) (hsink : s.sink.Works)
    (hfiles : s.OnlyLogsDiffer base st.files) (frame : Bytes) :
    ∃ files, s.OnlyLogsDiffer base files ∧
      s.writeFrame frame st =
        (.ok (), { st with files := files, frames := st.frames ++ [frame] }) := by
  obtain ⟨hwrite, hflush⟩ := hsink st.frames.length
  refine ⟨_, onlyLogsDiffer_noteOutput hfiles frame, ?_⟩
  unfold writeFrame
  simp only [hwrite, hflush, Bool.false_eq_true, if_false]

/-- A request is answered by its frame, whatever goes wrong with it. -/
theorem serveRequest_eq (st : Session) (hsink : s.sink.Works)
    (hfiles : s.OnlyLogsDiffer base st.files) (request : String) :
    ∃ files, s.OnlyLogsDiffer base files ∧
      s.serveRequest request st = (.ok (), { st with
        files := files, frames := st.frames ++ [(s.frameFor st.files st.env request).1] }) := by
  obtain ⟨files, hnow, hwritten⟩ :=
    writeFrame_eq st hsink hfiles (s.frameFor st.files st.env request).1
  refine ⟨_, onlyLogsDiffer_report hnow request (s.frameFor st.files st.env request).2, ?_⟩
  unfold serveRequest
  simp only [hwritten]

/-! ## The handshake -/

theorem readLines_eq (count : Nat) (st : Session)
    (hfiles : s.OnlyLogsDiffer base st.files) :
    ∃ files input, s.OnlyLogsDiffer base files ∧
      s.readLines count st =
        (Input.told count st.input, { st with files := files, input := input }) ∧
      ∀ lines, Input.told count st.input = .ok lines → input = st.input.drop count := by
  induction count generalizing st with
  | zero => exact ⟨st.files, st.input, hfiles, rfl, fun _ _ => rfl⟩
  | succ count ih =>
    rcases hinput : st.input with _ | ⟨raw, rest⟩
    · -- Behind the end of the input every further line is empty, and nothing is consumed.
      obtain ⟨files, input, hnow, hread, hrest⟩ := ih st hfiles
      rw [hinput] at hread hrest
      refine ⟨files, input, hnow, ?_⟩
      rw [readLines, readLine_nil s hinput, Input.told]
      dsimp only
      rw [hread]
      rcases htold : Input.told count [] with chain | lines
      · exact ⟨rfl, fun lines h => by cases h⟩
      · exact ⟨rfl, fun _ _ => by rw [hrest lines htold, List.drop_nil, List.drop_nil]⟩
    · obtain ⟨files, hnow, hread⟩ := readLine_cons st hfiles hinput
      rw [readLines, hread, Input.told]
      rcases htext : Input.text raw with chain | line
      · exact ⟨files, rest, hnow, rfl, fun lines h => by cases h⟩
      · obtain ⟨files', input, hnow', hread', hrest⟩ :=
          ih { st with files := files, input := rest } hnow
        refine ⟨files', input, hnow', ?_⟩
        simp only [Except.map, hread']
        rcases htold : Input.told count rest with chain | lines
        · exact ⟨rfl, fun lines h => by cases h⟩
        · exact ⟨rfl, fun _ _ => hrest lines htold⟩

/-- A handshake whose lines are text is applied and gets its status. -/
theorem handshake_of_told (st : Session) {lines : List String} (hsink : s.sink.Works)
    (hfiles : s.OnlyLogsDiffer base st.files) (htold : Input.told 4 st.input = .ok lines) :
    ∃ after, s.handshake st = (.ok (), after) ∧ s.OnlyLogsDiffer base after.files ∧
      after.input = st.input.drop 4 ∧ after.env = (st.env.apply base (handshakeOf lines)).1 ∧
      after.frames =
        st.frames ++ [Wire.status (st.env.apply base (handshakeOf lines)).2.toBool] := by
  obtain ⟨files, input, hnow, hread, hrest⟩ := readLines_eq 4 st hfiles
  unfold handshake
  rw [hread, htold]
  dsimp only
  rw [hnow.apply_eq]
  rcases st.env.apply base (handshakeOf lines) with ⟨env, outcome⟩
  dsimp only
  obtain ⟨files', hnow', hwritten⟩ :=
    writeFrame_eq { st with files := files, input := input, env := env } hsink hnow
      (Wire.status outcome.toBool)
  rw [hwritten]
  rcases outcome with e | _
  · exact ⟨_, rfl, onlyLogsDiffer_report hnow' handshakeName (some e.chain), hrest lines htold,
      rfl, rfl⟩
  · exact ⟨_, rfl, hnow', hrest lines htold, rfl, rfl⟩

/-- A handshake with a line that is not text ends the session before anything is written. -/
theorem handshake_of_not_told (st : Session) {chain : ErrorChain}
    (hfiles : s.OnlyLogsDiffer base st.files) (htold : Input.told 4 st.input = .error chain) :
    ∃ last, s.handshake st = (.error chain, last) ∧ last.frames = st.frames := by
  obtain ⟨files, input, _, hread, _⟩ := readLines_eq 4 st hfiles
  unfold handshake
  rw [hread, htold]
  exact ⟨_, rfl, rfl⟩

/-! ## The run -/

/-- The frames answer the requests one by one. A request may mean the file of a log, so each is
answered from the files as they are at its turn. -/
def AnswersInTurn (s : Service) (base : FileSystem) (env : LookupEnv) :
    List String → List Bytes → Prop :=
  List.Forall₂ fun request frame =>
    ∃ files, s.OnlyLogsDiffer base files ∧ frame = (s.frameFor files env request).1

/-- A run answers the requests that are asked one after the other, each for itself, and ends
as its lines do. -/
theorem serveLines_eq (lines : List Bytes) (st : Session) (hsink : s.sink.Works)
    (hfiles : s.OnlyLogsDiffer base st.files) :
    ∃ last frames, s.serveLines lines st = ((Input.asked lines).2, last) ∧
      last.env = st.env ∧ last.frames = st.frames ++ frames ∧
      s.AnswersInTurn base st.env (Input.asked lines).1 frames := by
  induction lines generalizing st with
  | nil => exact ⟨st, [], rfl, rfl, (List.append_nil _).symm, .nil⟩
  | cons raw rest ih =>
    obtain ⟨files, hnow, hread⟩ := readLine_cons { st with input := raw :: rest } hfiles rfl
    rw [serveLines, hread, Input.asked]
    rcases htext : Input.text raw with chain | request
    · exact ⟨_, [], rfl, rfl, (List.append_nil _).symm, .nil⟩
    · simp only [Except.map]
      by_cases hblank : request = ""
      · rw [if_pos hblank, if_pos hblank]
        exact ⟨_, [], rfl, rfl, (List.append_nil _).symm, .nil⟩
      · rw [if_neg hblank, if_neg hblank]
        obtain ⟨files', hnow', hserved⟩ :=
          serveRequest_eq { st with files := files, input := rest } hsink hnow request
        rw [hserved]
        dsimp only
        -- The request was answered from `files`, the later ones start from `files'`.
        obtain ⟨last, frames, hrun, henv, hframes, hanswers⟩ := ih { st with
          files := files', input := rest
          frames := st.frames ++ [(s.frameFor files st.env request).1] } hnow'
        refine ⟨last, _ :: frames, hrun, henv, ?_, .cons ⟨files, hnow, rfl⟩ hanswers⟩
        rw [hframes, List.append_assoc, List.singleton_append]

/-- A session without a handshake serves all its lines. -/
theorem run_without_handshake (hsink : s.sink.Works) (files : FileSystem) (input : Bytes) :
    ∃ last frames,
      s.run false (Session.ofInput files input) = ((Input.asked (Lines.raw input)).2, last) ∧
      last.env = {} ∧ last.frames = frames ∧
      s.AnswersInTurn files {} (Input.asked (Lines.raw input)).1 frames :=
  serveLines_eq (Lines.raw input) (Session.ofInput files input) hsink (.refl _ files)

/-- A session whose handshake is text writes the status, and serves what is behind it. -/
theorem run_of_told (hsink : s.sink.Works) (files : FileSystem) (input : Bytes)
    {lines : List String} (htold : Input.told 4 (Lines.raw input) = .ok lines) :
    ∃ last frames,
      s.run true (Session.ofInput files input) =
        ((Input.asked ((Lines.raw input).drop 4)).2, last) ∧
      last.env = (LookupEnv.apply files (handshakeOf lines) {}).1 ∧
      last.frames =
        Wire.status (LookupEnv.apply files (handshakeOf lines) {}).2.toBool :: frames ∧
      s.AnswersInTurn files last.env (Input.asked ((Lines.raw input).drop 4)).1 frames := by
  obtain ⟨after, hshaken, hnow, hinput, henv, hframes⟩ :=
    handshake_of_told (Session.ofInput files input) hsink (.refl _ files) htold
  unfold run serve
  rw [if_pos rfl, hshaken]
  dsimp only
  obtain ⟨last, frames, hrun, henv', hframes', hanswers⟩ :=
    serveLines_eq after.input after hsink hnow
  rw [hinput] at hrun hanswers
  refine ⟨last, frames, ?_, henv'.trans henv, ?_, henv' ▸ hanswers⟩
  · rw [hinput, hrun]
    rfl
  · rw [hframes', hframes]
    rfl

/-- A session whose handshake is not text ends before it writes anything. -/
theorem run_of_not_told (s : Service) (files : FileSystem) (input : Bytes)
    {chain : ErrorChain} (htold : Input.told 4 (Lines.raw input) = .error chain) :
    ∃ last, s.run true (Session.ofInput files input) = (.error chain, last) ∧
      last.frames = [] := by
  obtain ⟨last, hshaken, hframes⟩ :=
    handshake_of_not_told (s := s) (Session.ofInput files input) (.refl _ files) htold
  unfold run
  rw [if_pos rfl, hshaken]
  exact ⟨last, rfl, hframes⟩

/-! ## Setting up -/

theorem createLog_eq_ok {fs after : FileSystem} {path : String} {log : Option LogFile}
    (h : createLog fs (some path) = .ok (log, after)) :
    ∃ made, log = some made ∧ LogFile.create fs path = .ok (made, after) := by
  unfold createLog at h
  dsimp only at h
  rcases hcreate : LogFile.create fs path with chain | ⟨made, ready⟩ <;> rw [hcreate] at h <;>
    cases h
  exact ⟨made, rfl, rfl⟩

theorem withLogs_eq_ok {fs after : FileSystem} {outputLog inputLog : Option String}
    {ready : Service} :
    s.withLogs fs outputLog inputLog = .ok (ready, after) ↔
      ∃ output between input, createLog fs outputLog = .ok (output, between) ∧
        createLog between inputLog = .ok (input, after) ∧
        ready = { s with outputLog := output, inputLog := input } := by
  constructor
  · intro h
    obtain ⟨⟨output, between⟩, houtput, h⟩ := Fault.bind_eq_ok.mp h
    obtain ⟨⟨input, last⟩, hinput, h⟩ := Fault.bind_eq_ok.mp h
    cases h
    exact ⟨output, between, input, houtput, hinput, rfl⟩
  · rintro ⟨output, between, input, houtput, hinput, rfl⟩
    exact Fault.bind_eq_ok.mpr ⟨_, houtput, Fault.bind_eq_ok.mpr ⟨_, hinput, rfl⟩⟩

end Service

end UnitAtlas
