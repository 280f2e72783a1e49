-- Failures that stay with their request, and the one that does not. Whatever the requests of a
-- session lead to, every line is answered; but a line that is not text is no request, and the
-- session ends at it with an error.
import Mathlib.Data.List.Forall2
import UnitAtlas.Proofs.Session.Serving

namespace UnitAtlas

namespace Input

/-! ## Lines that a session has to read -/

/-- The lines behind the handshake, if there is one, up to a blank one. -/
def toAnswer (withHandshake : Bool) (lines : List Bytes) : List Bytes :=
  beforeBlank (if withHandshake then lines.drop 4 else lines)

/-- The lines of the handshake, if there is one, and those to answer. -/
def toRead (withHandshake : Bool) (lines : List Bytes) : List Bytes :=
  (if withHandshake then lines.take 4 else []) ++ toAnswer withHandshake lines

end Input

namespace Service

variable {s : Service}

/-! ## Sessions that answer everything -/

/-- The session ends well, and behind the status of a handshake it writes one whole frame for
each line before the first blank one. -/
def AnswersEverything (s : Service) (withHandshake : Bool) (files : FileSystem) (input : Bytes) :
    Prop :=
  ∃ last ready answers,
    s.run withHandshake (Session.ofInput files input) = (.ok (), last) ∧
    last.frames = (if withHandshake then [Wire.status ready] else []) ++ answers ∧
    answers.length = (Input.toAnswer withHandshake (Lines.raw input)).length ∧
    ∀ frame ∈ answers, Response.IsFrame frame

/-- Answers in turn are whole frames, one for each request. -/
theorem AnswersInTurn.whole {base : FileSystem} {env : LookupEnv} {requests : List String}
    {frames : List Bytes} (h : s.AnswersInTurn base env requests frames) :
    frames.length = requests.length ∧ ∀ frame ∈ frames, Response.IsFrame frame := by
  refine ⟨(List.Forall₂.length_eq h).symm, ?_⟩
  unfold AnswersInTurn at h
  induction h with
  | nil => exact fun frame hframe => by cases hframe
  | cons hfirst _ ih =>
    obtain ⟨files, _, rfl⟩ := hfirst
    rw [List.forall_mem_cons]
    exact ⟨isFrame_frameFor s files env _, ih⟩

/-- Lines that are text are all answered, whatever they ask for. -/
theorem answersEverything_of_isText (hsink : s.sink.Works) (withHandshake : Bool)
    (files : FileSystem) (input : Bytes)
    (h : ∀ raw ∈ Input.toRead withHandshake (Lines.raw input), Input.isText raw = true) :
    s.AnswersEverything withHandshake files input := by
  unfold Input.toRead at h
  rw [List.forall_mem_append] at h
  obtain ⟨htold, hasked⟩ := h
  obtain ⟨requests, hrequests⟩ := Input.exists_texts hasked
  have hlength : requests.length = (Input.toAnswer withHandshake (Lines.raw input)).length := by
    have hmap := congrArg List.length hrequests
    rw [List.length_map, List.length_map] at hmap
    exact hmap.symm
  cases withHandshake with
  | false =>
    have hend : Input.asked (Lines.raw input) = (requests, .ok ()) :=
      Input.asked_of_texts hrequests
    obtain ⟨last, frames, hrun, _, hframes, hanswers⟩ := run_without_handshake hsink files input
    rw [hend] at hrun hanswers
    obtain ⟨hcount, hwhole⟩ := hanswers.whole
    exact ⟨last, true, frames, hrun, hframes, hcount.trans hlength, hwhole⟩
  | true =>
    have hend : Input.asked ((Lines.raw input).drop 4) = (requests, .ok ()) :=
      Input.asked_of_texts hrequests
    obtain ⟨texts, htexts⟩ := Input.exists_texts htold
    obtain ⟨last, frames, hrun, _, hframes, hanswers⟩ :=
      run_of_told hsink files input (Input.told_of_texts 4 htexts)
    rw [hend] at hrun hanswers
    obtain ⟨hcount, hwhole⟩ := hanswers.whole
    exact ⟨last, _, frames, hrun, hframes, hcount.trans hlength, hwhole⟩

/-- A line that is not text ends the session with an error. -/
theorem a_line_that_is_not_text_ends_the_session (hsink : s.sink.Works) (withHandshake : Bool)
    (files : FileSystem) (input : Bytes)
    (h : ∃ raw ∈ Input.toRead withHandshake (Lines.raw input), Input.isText raw = false) :
    ∃ last, s.run withHandshake (Session.ofInput files input) = (.error Input.notText, last) := by
  cases withHandshake with
  | false =>
    obtain ⟨last, frames, hrun, _⟩ := run_without_handshake hsink files input
    have hbroken : ∃ raw ∈ Input.beforeBlank (Lines.raw input), Input.isText raw = false := h
    rw [Input.asked_of_not_isText hbroken] at hrun
    exact ⟨last, hrun⟩
  | true =>
    by_cases htold : ∀ raw ∈ (Lines.raw input).take 4, Input.isText raw = true
    · obtain ⟨texts, htexts⟩ := Input.exists_texts htold
      obtain ⟨last, frames, hrun, _⟩ := run_of_told hsink files input (Input.told_of_texts 4 htexts)
      have hbroken : ∃ raw ∈ Input.beforeBlank ((Lines.raw input).drop 4),
          Input.isText raw = false := by
        obtain ⟨raw, hraw, hnot⟩ := h
        rcases List.mem_append.mp hraw with hearly | hlate
        · rw [htold raw hearly] at hnot
          cases hnot
        · exact ⟨raw, hlate, hnot⟩
      rw [Input.asked_of_not_isText hbroken] at hrun
      exact ⟨last, hrun⟩
    · have hnot := (Input.not_forall_isText_iff _).mp htold
      obtain ⟨last, hrun, _⟩ := run_of_not_told s files input (Input.told_of_not_isText 4 hnot)
      exact ⟨last, hrun⟩

/-! ## The law -/

/-- A session answers everything exactly when the lines it has to read are text. -/
theorem everything_is_answered_iff_every_line_is_text (hsink : s.sink.Works)
    (withHandshake : Bool) (files : FileSystem) (input : Bytes) :
    s.AnswersEverything withHandshake files input ↔
      ∀ raw ∈ Input.toRead withHandshake (Lines.raw input), Input.isText raw = true := by
  constructor
  · rintro ⟨last, _, _, hrun, _⟩
    by_contra hnot
    obtain ⟨last', hrun'⟩ := a_line_that_is_not_text_ends_the_session hsink withHandshake files
      input ((Input.not_forall_isText_iff _).mp hnot)
    rw [hrun] at hrun'
    cases hrun'
  · exact answersEverything_of_isText hsink withHandshake files input

/-- A service without logs whose compiler always panics. -/
def panicking : Service where
  backend := .constant (.error (.panic "out of registers"))
  classifier := ⟨3, [0x59]⟩

theorem panics_are_answered :
    panicking.sink.Works ∧
      panicking.AnswersEverything true ⟨[], [(["a.py"], .file [])]⟩
        (Utf8.encode ":\n\n\n\na.py\nb.py\n\n") := by
  have hsink : panicking.sink.Works := fun _ => ⟨rfl, rfl⟩
  refine ⟨hsink, (everything_is_answered_iff_every_line_is_text hsink true _ _).mpr ?_⟩
  decide

/-- A line of one broken byte, and a request behind it. -/
def brokenLine : Bytes := [0xFF, 0x0A, 0x6E, 0x2E, 0x70, 0x79, 0x0A]

theorem a_broken_line_and_what_follows_are_not_answered :
    ¬ panicking.AnswersEverything false ⟨[], []⟩ brokenLine := by
  rintro ⟨last, _, _, hrun, _⟩
  have hended : (panicking.run false (Session.ofInput ⟨[], []⟩ brokenLine)).1
      = .error Input.notText := by
    decide +kernel
  rw [hrun] at hended
  cases hended

end Service

end UnitAtlas
