-- Logs change nothing in a session but their own files. A service is followed step by step
-- together with the same service without logs: what they read, write and look up stays the same,
-- whatever the sink refuses and whether or not the logs can be added to.
import UnitAtlas.Proofs.Session.Transcript

namespace UnitAtlas

namespace Service

variable {s : Service} {base : FileSystem} {st bare : Session}

/-- The service without its logs. -/
def unlogged (s : Service) : Service := { s with outputLog := none, inputLog := none }

/-! ## Sessions side by side -/

/-- A session of the service, and one without logs. Both began with the files `base`, which only
the first may have changed, and only where its logs are. -/
structure Alongside (s : Service) (base : FileSystem) (logged bare : Session) : Prop where
  files : s.OnlyLogsDiffer base logged.files
  untouched : bare.files = base
  input : bare.input = logged.input
  env : bare.env = logged.env
  frames : bare.frames = logged.frames

theorem Alongside.refl (s : Service) (st : Session) : s.Alongside st.files st st :=
  ⟨.refl _ _, rfl, rfl, rfl, rfl⟩

theorem Alongside.withInput (h : s.Alongside base st bare) (input : List Bytes) :
    s.Alongside base { st with input := input } { bare with input := input } :=
  ⟨h.files, h.untouched, rfl, h.env, h.frames⟩

theorem Alongside.withEnv (h : s.Alongside base st bare) (env : LookupEnv) :
    s.Alongside base { st with env := env } { bare with env := env } :=
  ⟨h.files, h.untouched, h.input, rfl, h.frames⟩

/-- Steps of both services with the same result, after which the sessions are still side by side. -/
structure Agree {α : Type} (s : Service) (base : FileSystem)
    (logged bare : Except ErrorChain α × Session) : Prop where
  result : bare.1 = logged.1
  sessions : s.Alongside base logged.2 bare.2

/-- One step after another, unless the first fails. -/
def andThen {α β : Type} (step : Except ErrorChain α × Session)
    (next : α → Session → Except ErrorChain β × Session) : Except ErrorChain β × Session :=
  match step with
  | (.error chain, after) => (.error chain, after)
  | (.ok a, after) => next a after

theorem Agree.andThen {α β : Type} {step step' : Except ErrorChain α × Session}
    {next next' : α → Session → Except ErrorChain β × Session} (h : s.Agree base step step')
    (hnext : ∀ a after after', step = (.ok a, after) → s.Alongside base after after' →
      s.Agree base (next a after) (next' a after')) :
    s.Agree base (andThen step next) (andThen step' next') := by
  obtain ⟨result, after⟩ := step
  obtain ⟨result', after'⟩ := step'
  obtain ⟨hresult, hafter⟩ := h
  dsimp only at hresult hafter
  subst hresult
  cases result' with
  | error chain => exact ⟨rfl, hafter⟩
  | ok a => exact hnext a after after' rfl hafter

/-! ## One step -/

theorem alongside_report (h : s.Alongside base st bare) (request : String)
    (failure : Option ErrorChain) :
    s.Alongside base { st with files := s.report request failure st.files }
      { bare with files := s.unlogged.report request failure bare.files } := by
  refine ⟨onlyLogsDiffer_report h.files request failure, ?_, h.input, h.env, h.frames⟩
  -- Without an output log a report goes nowhere.
  rw [← h.untouched]
  cases failure <;> rfl

theorem agree_readLine (h : s.Alongside base st bare) :
    s.Agree base (s.readLine st) (s.unlogged.readLine bare) := by
  unfold readLine
  rw [h.input]
  rcases Input.next st.input with ⟨line, rest⟩
  have hrest := h.withInput rest
  dsimp only
  rcases line with chain | _ | text
  · exact ⟨rfl, hrest⟩
  · exact ⟨rfl, hrest⟩
  · exact ⟨rfl, onlyLogsDiffer_noteInput h.files _, h.untouched, rfl, h.env, h.frames⟩

/-- Both sinks have taken as many frames, so they refuse the same. -/
theorem agree_writeFrame (h : s.Alongside base st bare) (frame : Bytes) :
    s.Agree base (s.writeFrame frame st) (s.unlogged.writeFrame frame bare) := by
  have hsink : s.unlogged.sink = s.sink := rfl
  have hfiles := onlyLogsDiffer_noteOutput h.files frame
  unfold writeFrame
  simp only [hsink, h.frames]
  split
  · exact ⟨rfl, hfiles, h.untouched, h.input, h.env, rfl⟩
  · split
    · exact ⟨rfl, hfiles, h.untouched, h.input, h.env, rfl⟩
    · exact ⟨rfl, hfiles, h.untouched, h.input, h.env, rfl⟩

theorem writeFrame_keeps (s : Service) (frame : Bytes) (st : Session) :
    (s.writeFrame frame st).2.env = st.env ∧ (s.writeFrame frame st).2.input = st.input := by
  unfold writeFrame
  split
  · exact ⟨rfl, rfl⟩
  · dsimp only
    split <;> exact ⟨rfl, rfl⟩

/-! ## The handshake -/

theorem readLines_succ (s : Service) (count : Nat) (st : Session) :
    s.readLines (count + 1) st = andThen (s.readLine st) fun line after =>
      andThen (s.readLines count after) fun lines last =>
        (.ok (line.getD "" :: lines), last) := by
  unfold andThen
  rw [readLines]
  rcases s.readLine st with ⟨chain | line, after⟩
  · rfl
  · dsimp only
    rcases s.readLines count after with ⟨chain | lines, last⟩ <;> rfl

theorem agree_readLines (count : Nat) (h : s.Alongside base st bare) :
    s.Agree base (s.readLines count st) (s.unlogged.readLines count bare) := by
  induction count generalizing st bare with
  | zero => exact ⟨rfl, h⟩
  | succ count ih =>
    rw [readLines_succ, readLines_succ]
    refine (agree_readLine h).andThen fun line after after' _ hafter => ?_
    exact (ih hafter).andThen fun lines last last' _ hlast => ⟨rfl, hlast⟩

/-- What a handshake does with its lines. -/
def answerHandshake (s : Service) (lines : List String) (st : Session) :
    Except ErrorChain Unit × Session :=
  let (env, outcome) := st.env.apply st.files (handshakeOf lines)
  andThen (s.writeFrame (Wire.status outcome.toBool) { st with env := env }) fun _ last =>
    match outcome with
    | .ok () => (.ok (), last)
    | .error e => (.ok (), { last with files := s.report handshakeName (some e.chain) last.files })

theorem handshake_eq (s : Service) (st : Session) :
    s.handshake st = andThen (s.readLines 4 st) s.answerHandshake := by
  unfold handshake answerHandshake andThen
  rcases s.readLines 4 st with ⟨chain | lines, after⟩
  · rfl
  · dsimp only
    rcases after.env.apply after.files (handshakeOf lines) with ⟨env, outcome⟩
    dsimp only
    rcases s.writeFrame (Wire.status outcome.toBool) { after with env := env } with
      ⟨chain | _, last⟩ <;> rfl

theorem agree_answerHandshake (lines : List String) (h : s.Alongside base st bare) :
    s.Agree base (s.answerHandshake lines st) (s.unlogged.answerHandshake lines bare) := by
  have happly : bare.env.apply bare.files (handshakeOf lines) =
      st.env.apply st.files (handshakeOf lines) := by
    rw [h.env, h.untouched, h.files.apply_eq]
  unfold answerHandshake
  rw [happly]
  rcases st.env.apply st.files (handshakeOf lines) with ⟨env, outcome⟩
  refine (agree_writeFrame (h.withEnv env) _).andThen fun _ last last' _ hlast => ?_
  rcases outcome with e | _
  · exact ⟨rfl, alongside_report hlast handshakeName (some e.chain)⟩
  · exact ⟨rfl, hlast⟩

theorem agree_handshake (h : s.Alongside base st bare) :
    s.Agree base (s.handshake st) (s.unlogged.handshake bare) := by
  rw [handshake_eq, handshake_eq]
  exact (agree_readLines 4 h).andThen fun lines after after' _ hafter =>
    agree_answerHandshake lines hafter

theorem answerHandshake_keeps (s : Service) (lines : List String) (st : Session) :
    (s.answerHandshake lines st).2.env = (st.env.apply st.files (handshakeOf lines)).1 ∧
      (s.answerHandshake lines st).2.input = st.input := by
  unfold answerHandshake andThen
  rcases st.env.apply st.files (handshakeOf lines) with ⟨env, outcome⟩
  have hkeeps := writeFrame_keeps s (Wire.status outcome.toBool) { st with env := env }
  dsimp only
  split <;> rename_i hwritten <;> rw [hwritten] at hkeeps
  · exact hkeeps
  · cases outcome <;> exact hkeeps

/-- A handshake that succeeds was told four lines, and leaves what they make of the environment. -/
theorem told_of_handshake {after : Session} (hfiles : s.OnlyLogsDiffer base st.files)
    (h : s.handshake st = (.ok (), after)) :
    ∃ lines, Input.told 4 st.input = .ok lines ∧ after.input = st.input.drop 4 ∧
      after.env = (st.env.apply base (handshakeOf lines)).1 := by
  obtain ⟨files, input, hnow, hread, hrest⟩ := readLines_eq 4 st hfiles
  rw [handshake_eq, hread] at h
  rcases htold : Input.told 4 st.input with chain | lines <;> rw [htold] at h
  · cases h
  · have hanswered : s.answerHandshake lines { st with files := files, input := input } =
        (.ok (), after) := h
    obtain ⟨henv, hinput⟩ :=
      answerHandshake_keeps s lines { st with files := files, input := input }
    rw [hanswered] at henv hinput
    rw [hnow.apply_eq] at henv
    exact ⟨lines, rfl, hinput.trans (hrest lines htold), henv⟩

/-! ## The run -/

theorem serveRequest_eq_andThen (s : Service) (request : String) (st : Session) :
    s.serveRequest request st =
      andThen (s.writeFrame (s.frameFor st.files st.env request).1 st) fun _ after =>
        (.ok (), { after with
          files := s.report request (s.frameFor st.files st.env request).2 after.files }) := by
  unfold serveRequest andThen
  rcases s.frameFor st.files st.env request with ⟨frame, failure⟩
  dsimp only
  rcases s.writeFrame frame st with ⟨chain | _, after⟩ <;> rfl

/-- A request that means no log finds the same files with and without logs. -/
theorem agree_serveRequest (h : s.Alongside base st bare) (request : String)
    (hunasked : ∀ path, st.env.resolve base request = some path →
      ∀ log ∈ s.logs, base.locate log.path ≠ base.locate path) :
    s.Agree base (s.serveRequest request st) (s.unlogged.serveRequest request bare) := by
  have hsame : s.unlogged.frameFor bare.files bare.env request =
      s.frameFor st.files st.env request := by
    rw [h.untouched, h.env]
    refine (h.files.frameFor_eq s st.env request ?_).symm
    rintro path hpath spot hspot ⟨log, hlog, hlogspot⟩
    exact hunasked path hpath log hlog (hlogspot.trans hspot.symm)
  rw [serveRequest_eq_andThen, serveRequest_eq_andThen, hsame]
  exact (agree_writeFrame h _).andThen fun _ after after' _ hafter =>
    ⟨rfl, alongside_report hafter request _⟩

theorem env_serveRequest (s : Service) (request : String) (st : Session) :
    (s.serveRequest request st).2.env = st.env := by
  have henv := (writeFrame_keeps s (s.frameFor st.files st.env request).1 st).1
  rw [serveRequest_eq_andThen]
  unfold andThen
  split <;> rename_i hwritten <;> rw [hwritten] at henv <;> exact henv

theorem serveLines_cons (s : Service) (raw : Bytes) (rest : List Bytes) (st : Session) :
    s.serveLines (raw :: rest) st =
      andThen (s.readLine { st with input := raw :: rest }) fun line after =>
        match line with
        | none => (.ok (), after)
        | some request =>
          if request = "" then (.ok (), after)
          else andThen (s.serveRequest request after) fun _ last => s.serveLines rest last := by
  unfold andThen
  rw [serveLines]
  rcases s.readLine { st with input := raw :: rest } with ⟨chain | _ | request, after⟩
  · rfl
  · rfl
  · dsimp only
    split
    · rfl
    · rcases s.serveRequest request after with ⟨chain | _, last⟩ <;> rfl

theorem agree_serveLines (lines : List Bytes) (h : s.Alongside base st bare)
    (hlogs : s.LogsUnasked base st.env (Input.asked lines).1) :
    s.Agree base (s.serveLines lines st) (s.unlogged.serveLines lines bare) := by
  induction lines generalizing st bare with
  | nil => exact ⟨rfl, h⟩
  | cons raw rest ih =>
    rw [serveLines_cons, serveLines_cons]
    refine (agree_readLine (h.withInput (raw :: rest))).andThen ?_
    intro line after after' hread hafter
    obtain ⟨files, -, hnext⟩ := readLine_cons { st with input := raw :: rest } h.files rfl
    rw [hnext] at hread
    rw [Input.asked] at hlogs
    rcases htext : Input.text raw with chain | request <;> rw [htext] at hread hlogs <;> cases hread
    dsimp only at hlogs ⊢
    by_cases hblank : request = ""
    · rw [if_pos hblank, if_pos hblank]
      exact ⟨rfl, hafter⟩
    · rw [if_neg hblank] at hlogs ⊢
      rw [if_neg hblank]
      obtain ⟨hrequest, hlater⟩ := List.forall_mem_cons.mp hlogs
      refine (agree_serveRequest hafter request hrequest).andThen ?_
      intro _ last last' hserved hlast
      have henv := env_serveRequest s request { st with files := files, input := rest }
      rw [hserved] at henv
      refine ih hlast ?_
      rw [henv]
      exact hlater

/-- The environment that a session looks its requests up in, and the requests, told from what it
starts with. -/
def toAnswer (withHandshake : Bool) (st : Session) : LookupEnv × List String :=
  if withHandshake then
    match Input.told 4 st.input with
    | .ok lines =>
      ((st.env.apply st.files (handshakeOf lines)).1, (Input.asked (st.input.drop 4)).1)
    | .error _ => (st.env, [])
  else (st.env, (Input.asked st.input).1)

theorem run_true (s : Service) (st : Session) :
    s.run true st = andThen (s.handshake st) fun _ after => s.serve after := by
  unfold run andThen
  rw [if_pos rfl]
  rcases s.handshake st with ⟨chain | _, after⟩ <;> rfl

/-- Whatever a session is told and asked, whatever its sink refuses and whatever becomes of its
logs: without logs it has the same result and leaves the same frames, environment and input, and
the logs are the only files that are different. Only requests for a log could show it. -/
theorem logs_do_not_change_a_session (s : Service) (withHandshake : Bool) (st : Session)
    (hlogs : s.LogsUnasked st.files (toAnswer withHandshake st).1 (toAnswer withHandshake st).2) :
    let logged := s.run withHandshake st
    let bare := s.unlogged.run withHandshake st
    bare.1 = logged.1 ∧ bare.2.frames = logged.2.frames ∧ bare.2.env = logged.2.env ∧
      bare.2.input = logged.2.input ∧ bare.2.files = st.files ∧
      s.OnlyLogsDiffer st.files logged.2.files := by
  have hstart := Alongside.refl s st
  suffices hagree : s.Agree st.files (s.run withHandshake st) (s.unlogged.run withHandshake st) by
    obtain ⟨hresult, hfiles, huntouched, hinput, henv, hframes⟩ := hagree
    exact ⟨hresult, hframes, henv, hinput, huntouched, hfiles⟩
  cases withHandshake with
  | false => exact agree_serveLines st.input hstart hlogs
  | true =>
    rw [run_true, run_true]
    refine (agree_handshake hstart).andThen fun _ after after' hshaken hafter => ?_
    obtain ⟨lines, htold, hinput, henv⟩ := told_of_handshake hstart.files hshaken
    rw [serve, serve, hafter.input]
    refine agree_serveLines after.input hafter ?_
    rw [toAnswer, if_pos rfl, htold] at hlogs
    rw [henv, hinput]
    exact hlogs

/-- A service whose output log is lost and whose sink refuses to flush its second frame. -/
def hindered : Service :=
  { logging with
    sink := { refusesFlush := (· == 1) }
    outputLog := some ⟨"k"⟩
    inputLog := some ⟨"l"⟩ }

theorem a_lost_log_and_a_refusing_sink :
    let st := Session.ofInput sourceAndLog (Utf8.encode twoRequests)
    let logged := hindered.run true st
    let bare := hindered.unlogged.run true st
    hindered.sink.refusesFlush 1 = true ∧ sourceAndLog.locate "k" = .error .notFound ∧
      hindered.LogsUnasked sourceAndLog {} ["m", "n"] ∧ bare.1 = logged.1 ∧
      bare.2.frames = logged.2.frames ∧ bare.2.env = logged.2.env := by
  intro st logged bare
  have hanswer : toAnswer true st = ({}, ["m", "n"]) := by decide
  have hfound : LookupEnv.resolve sourceAndLog {} "m" = some "m" := by decide +kernel
  have hlost : LookupEnv.resolve sourceAndLog {} "n" = none := by decide +kernel
  have hsource : sourceAndLog.locate "m" = .ok ["m"] := by decide +kernel
  have hlog : sourceAndLog.locate "l" = .ok ["l"] := by decide +kernel
  have hmissing : sourceAndLog.locate "k" = .error .notFound := by decide +kernel
  have hlogs : hindered.LogsUnasked sourceAndLog {} ["m", "n"] := by
    intro request hrequest path hpath log hmem
    have hlogged : log = ⟨"k"⟩ ∨ log = ⟨"l"⟩ := by simpa [logs, hindered] using hmem
    rw [List.mem_cons, List.mem_singleton] at hrequest
    rcases hrequest with rfl | rfl
    · rw [hfound, Option.some.injEq] at hpath
      rw [← hpath, hsource]
      rcases hlogged with rfl | rfl
      · simp [hmissing]
      · simp [hlog]
    · rw [hlost] at hpath
      cases hpath
  obtain ⟨hresult, hframes, henv, -⟩ :=
    logs_do_not_change_a_session hindered true st (by rw [hanswer]; exact hlogs)
  exact ⟨rfl, hmissing, hlogs, hresult, hframes, henv⟩

end Service

end UnitAtlas
