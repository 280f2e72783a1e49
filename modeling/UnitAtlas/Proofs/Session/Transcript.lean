-- What a whole session writes, told from the text of its input alone: a status for the
-- handshake, then for each request its answer as it is given outside of a session.
import Mathlib.Data.List.Forall2
import UnitAtlas.Proofs.Session.Serving

namespace UnitAtlas

namespace Service

variable {s : Service}

/-- Empty lines at the end say as much to a handshake as no lines. -/
theorem handshakeOf_append_replicate (lines : List String) (n : Nat) :
    handshakeOf (lines ++ List.replicate n "") = handshakeOf lines := by
  have hpad : ∀ i : Nat, (lines ++ List.replicate n "")[i]?.getD "" = lines[i]?.getD "" := by
    intro i
    rw [List.getElem?_append]
    split
    · rfl
    · rename_i hi
      rw [List.getElem?_replicate, List.getElem?_eq_none (by omega)]
      split <;> rfl
  unfold handshakeOf
  rw [hpad, hpad, hpad, hpad]

/-! ## What a text asks for -/

/-- The lookup environment that a session is left with by its handshake, if it has one, and
whether the handshake was understood. -/
def opening (withHandshake : Bool) (files : FileSystem) (text : String) :
    LookupEnv × Except HandshakeError Unit :=
  if withHandshake then LookupEnv.apply files (handshakeOf ((Lines.trimmed text).take 4)) {}
  else ({}, .ok ())

/-- The trimmed lines behind the handshake, if there is one, up to the first empty one. -/
def requestsIn (withHandshake : Bool) (text : String) : List String :=
  (if withHandshake then (Lines.trimmed text).drop 4 else Lines.trimmed text).takeWhile (· ≠ "")

/-- The answers to requests, each asked on its own. -/
def answersTo (s : Service) (files : FileSystem) (env : LookupEnv) (requests : List String) :
    List Response :=
  requests.map fun request => (s.answer files env request).1

/-- No request leads to the file of a log. -/
def LogsUnasked (s : Service) (files : FileSystem) (env : LookupEnv) (requests : List String) :
    Prop :=
  ∀ request ∈ requests, ∀ path, env.resolve files request = some path →
    ∀ log ∈ s.logs, files.locate log.path ≠ files.locate path

/-- Requests that leave the logs alone are answered in turn as if each came first. -/
theorem AnswersInTurn.eq_map {base : FileSystem} {env : LookupEnv} {requests : List String}
    {frames : List Bytes} (h : s.AnswersInTurn base env requests frames)
    (hlogs : s.LogsUnasked base env requests) :
    frames = (s.answersTo base env requests).map Response.written := by
  unfold AnswersInTurn at h
  unfold answersTo
  induction h with
  | nil => rfl
  | cons hfirst _ ih =>
    unfold LogsUnasked at hlogs
    rw [List.forall_mem_cons] at hlogs
    obtain ⟨hrequest, hlater⟩ := hlogs
    obtain ⟨files, hfiles, rfl⟩ := hfirst
    rw [List.map_cons, List.map_cons, ih hlater, ← frameFor_eq_written,
      hfiles.frameFor_eq s env _ ?_]
    rintro path hpath spot hspot ⟨log, hlog, hlogspot⟩
    exact hrequest path hpath log hlog (hlogspot.trans hspot.symm)

/-- The frames of some answers are read back as these answers and nothing else. -/
theorem readAs_answersTo_iff (s : Service) (files : FileSystem) (env : LookupEnv)
    (requests : List String) (rs : List Response) :
    Response.ReadAs ((s.answersTo files env requests).map Response.written).flatten rs ↔
      rs = (s.answersTo files env requests).map Response.received := by
  have hread : Response.ReadAs ((s.answersTo files env requests).map Response.written).flatten
      ((s.answersTo files env requests).map Response.received) := by
    refine Response.readAs_flatten ?_
    rw [List.forall₂_map_left_iff, List.forall₂_map_right_iff, List.forall₂_same]
    intro r hr
    obtain ⟨request, _, rfl⟩ := List.mem_map.mp hr
    exact ⟨Response.received_ne _ (answer_ne s files env request), Response.encode_received _⟩
  constructor
  · intro h
    exact h.unique hread
  · rintro rfl
    exact hread

/-! ## The law -/

/-- A session writes the status of its handshake, if it has one, and one frame for each request:
that of the answer to it in the environment that the handshake left. The other side reads from
the frames these answers and no others, and one says that a file is missing exactly when the
request leads to none. -/
theorem a_session_writes_its_status_and_the_answers_in_order (hsink : s.sink.Works)
    (withHandshake : Bool) (files : FileSystem) (text : String)
    (hlogs : s.LogsUnasked files (opening withHandshake files text).1
      (requestsIn withHandshake text)) :
    let env := (opening withHandshake files text).1
    let outcome := (opening withHandshake files text).2
    let requests := requestsIn withHandshake text
    let answers := s.answersTo files env requests
    ∃ last,
      s.run withHandshake (Session.ofInput files (Utf8.encode text)) = (.ok (), last) ∧
      last.env = env ∧
      last.frames = (if withHandshake then [Wire.status outcome.toBool] else [])
        ++ answers.map Response.written ∧
      (Wire.status outcome.toBool).length = 4 ∧
      (∀ rs, Response.ReadAs (answers.map Response.written).flatten rs ↔
        rs = answers.map Response.received) ∧
      ∀ request ∈ requests, (s.answer files env request).1.received = .missing ↔
        env.resolve files request = none := by
  have hread := s.readAs_answersTo_iff files (opening withHandshake files text).1
    (requestsIn withHandshake text)
  have hmissing : ∀ request ∈ requestsIn withHandshake text,
      (s.answer files (opening withHandshake files text).1 request).1.received = .missing ↔
        (opening withHandshake files text).1.resolve files request = none := fun request _ =>
    (Response.received_eq_missing_iff _).trans (answer_eq_missing_iff s files _ request)
  have htexts := Input.text_raw_encode text
  cases withHandshake with
  | false =>
    obtain ⟨last, frames, hrun, henv, hframes, hanswers⟩ :=
      run_without_handshake hsink files (Utf8.encode text)
    rw [Input.asked_of_texts (Input.beforeBlank_of_texts htexts)] at hrun hanswers
    exact ⟨last, hrun, henv, hframes.trans (hanswers.eq_map hlogs), Wire.length_int32 _, hread,
      hmissing⟩
  | true =>
    have hfirst : ((Lines.raw (Utf8.encode text)).take 4).map Input.text
        = ((Lines.trimmed text).take 4).map .ok := by
      rw [List.map_take, htexts, List.map_take]
    have htold := Input.told_of_texts 4 hfirst
    obtain ⟨last, frames, hrun, henv, hframes, hanswers⟩ := run_of_told hsink files _ htold
    rw [handshakeOf_append_replicate] at henv hframes
    rw [henv] at hanswers
    have hlater : ((Lines.raw (Utf8.encode text)).drop 4).map Input.text
        = ((Lines.trimmed text).drop 4).map .ok := by
      rw [List.map_drop, htexts, List.map_drop]
    rw [Input.asked_of_texts (Input.beforeBlank_of_texts hlater)] at hrun hanswers
    refine ⟨last, hrun, henv, ?_, Wire.length_int32 _, hread, hmissing⟩
    rw [hframes, hanswers.eq_map hlogs]
    rfl

/-- A service with a log, whose compiler takes every source for the same. -/
def logging : Service where
  backend := .constant (.ok ⟨⟨"m", "m", 1, [0x64, 0, 0x53], [], [], [], 0, 0, .empty⟩, []⟩)
  classifier := ⟨3, [0x59]⟩
  outputLog := some ⟨"l"⟩

/-- A file to ask for and the file of the log. -/
def sourceAndLog : FileSystem := ⟨[], [(["m"], .file []), (["l"], .file [])]⟩

/-- A handshake with empty paths, and requests for a file that is there and one that is not. -/
def twoRequests : String := ":\n\n\n\n m\r\nn\n\n"

theorem two_requests_are_answered_in_order :
    logging.sink.Works ∧
      logging.LogsUnasked sourceAndLog (opening true sourceAndLog twoRequests).1
        (requestsIn true twoRequests) ∧
      ∃ last, logging.run true (Session.ofInput sourceAndLog (Utf8.encode twoRequests))
          = (.ok (), last) ∧
        last.frames = [Wire.status true]
          ++ (logging.answersTo sourceAndLog {} ["m", "n"]).map Response.written := by
  have hsink : logging.sink.Works := fun _ => ⟨rfl, rfl⟩
  have hopening : opening true sourceAndLog twoRequests = ({}, .ok ()) := by decide +kernel
  have hrequests : requestsIn true twoRequests = ["m", "n"] := by decide
  have hfound : LookupEnv.resolve sourceAndLog {} "m" = some "m" := by decide +kernel
  have hlost : LookupEnv.resolve sourceAndLog {} "n" = none := by decide +kernel
  have hsource : sourceAndLog.locate "m" = .ok ["m"] := by decide +kernel
  have hlog : sourceAndLog.locate "l" = .ok ["l"] := by decide +kernel
  have hlogs : logging.LogsUnasked sourceAndLog (opening true sourceAndLog twoRequests).1
      (requestsIn true twoRequests) := by
    rw [hopening, hrequests]
    intro request hrequest path hpath log hmem
    have hlogged : log = ⟨"l"⟩ := List.mem_singleton.mp hmem
    subst hlogged
    rw [List.mem_cons, List.mem_singleton] at hrequest
    rcases hrequest with rfl | rfl
    · rw [hfound, Option.some.injEq] at hpath
      rw [← hpath, hsource, hlog]
      simp
    · rw [hlost] at hpath
      cases hpath
  obtain ⟨last, hrun, _, hframes, _⟩ := a_session_writes_its_status_and_the_answers_in_order hsink
    true sourceAndLog twoRequests hlogs
  rw [hopening, hrequests] at hframes
  exact ⟨hsink, hlogs, last, hrun, hframes⟩

end Service

end UnitAtlas
