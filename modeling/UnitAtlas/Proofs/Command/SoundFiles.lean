-- What a launch of the program does to the files. A session only adds notes to its logs, so what
-- every note keeps is kept by a whole session, also by one that fails. Setting up the logs keeps a
-- sound file system sound, and notes do so too.
import UnitAtlas.Command.Program
import UnitAtlas.Proofs.Files.Sound
import UnitAtlas.Proofs.Session.Unlogged

namespace UnitAtlas

/-! ## What every note keeps -/

namespace Service

theorem andThen_keeps {α β : Type} {P : FileSystem → Prop} {step : Except ErrorChain α × Session}
    {next : α → Session → Except ErrorChain β × Session} (hstep : P step.2.files)
    (hnext : ∀ a after, P after.files → P (next a after).2.files) :
    P (andThen step next).2.files := by
  obtain ⟨chain | a, after⟩ := step
  · exact hstep
  · exact hnext a after hstep

section Notes

variable {s : Service} {st : Session} {P : FileSystem → Prop}
  (hnote : ∀ {fs : FileSystem}, P fs → ∀ (log : Option LogFile) (bytes : Bytes),
    P (LogFile.note log fs bytes))

include hnote

theorem report_keeps {fs : FileSystem} (h : P fs) (request : String)
    (failure : Option ErrorChain) : P (s.report request failure fs) := by
  cases failure with
  | none => exact h
  | some chain => exact hnote h _ _

theorem readLine_keeps (st : Session) (h : P st.files) : P (s.readLine st).2.files := by
  unfold readLine
  rcases Input.next st.input with ⟨chain | _ | text, rest⟩
  · exact h
  · exact h
  · exact hnote h _ _

/-- The note of a frame comes first, whatever the sink refuses. -/
theorem writeFrame_keeps_files (frame : Bytes) (st : Session) (h : P st.files) :
    P (s.writeFrame frame st).2.files := by
  have hlogged := hnote h s.outputLog frame
  unfold writeFrame
  split
  · exact hlogged
  · dsimp only
    split <;> exact hlogged

theorem readLines_keeps (count : Nat) (h : P st.files) : P (s.readLines count st).2.files := by
  induction count generalizing st with
  | zero => exact h
  | succ count ih =>
    rw [readLines_succ]
    refine andThen_keeps (readLine_keeps hnote st h) fun line after hafter => ?_
    exact andThen_keeps (ih hafter) fun lines last hlast => hlast

theorem handshake_keeps (h : P st.files) : P (s.handshake st).2.files := by
  rw [handshake_eq]
  refine andThen_keeps (readLines_keeps hnote 4 h) fun lines after hafter => ?_
  unfold answerHandshake
  rcases after.env.apply after.files (handshakeOf lines) with ⟨env, outcome⟩
  refine andThen_keeps
    (writeFrame_keeps_files hnote _ { after with env := env } hafter) fun _ last hlast => ?_
  cases outcome with
  | ok => exact hlast
  | error e => exact report_keeps hnote hlast handshakeName (some e.chain)

theorem serveRequest_keeps (h : P st.files) (request : String) :
    P (s.serveRequest request st).2.files := by
  rw [serveRequest_eq_andThen]
  refine andThen_keeps (writeFrame_keeps_files hnote _ st h) fun _ after hafter => ?_
  exact report_keeps hnote hafter request _

theorem serveLines_keeps (lines : List Bytes) (h : P st.files) :
    P (s.serveLines lines st).2.files := by
  induction lines generalizing st with
  | nil => exact h
  | cons raw rest ih =>
    rw [serveLines_cons]
    have hread := readLine_keeps (s := s) hnote { st with input := raw :: rest } h
    refine andThen_keeps hread fun line after hafter => ?_
    cases line with
    | none => exact hafter
    | some request =>
      dsimp only
      split
      · exact hafter
      · exact andThen_keeps (serveRequest_keeps hnote hafter request) fun _ last hlast => ih hlast

/-- Notes are all that a session does to the files, so what every note keeps, it keeps. -/
theorem run_keeps (withHandshake : Bool) (h : P st.files) : P (s.run withHandshake st).2.files := by
  cases withHandshake with
  | false => exact serveLines_keeps hnote st.input h
  | true =>
    rw [run_true]
    refine andThen_keeps (handshake_keeps hnote h) fun _ after hafter => ?_
    exact serveLines_keeps hnote after.input hafter

end Notes

/-! ## Setting up -/

theorem isSound_createLog {fs after : FileSystem} (hfs : fs.IsSound) {path : Option String}
    {log : Option LogFile} (h : createLog fs path = .ok (log, after)) : after.IsSound := by
  cases path with
  | none =>
    cases h
    exact hfs
  | some path =>
    obtain ⟨made, -, hcreate⟩ := createLog_eq_ok h
    exact LogFile.isSound_create hfs hcreate

theorem isSound_withLogs {s ready : Service} {fs after : FileSystem} (hfs : fs.IsSound)
    {outputLog inputLog : Option String}
    (h : s.withLogs fs outputLog inputLog = .ok (ready, after)) : after.IsSound := by
  obtain ⟨_, _, _, houtput, hinput, -⟩ := withLogs_eq_ok.mp h
  exact isSound_createLog (isSound_createLog hfs houtput) hinput

end Service

/-! ## The law -/

namespace Program

variable {backend : Backend} {fs ready : FileSystem} {s : Service} {withHandshake : Bool}

/-- A service is what its logs are set up for. -/
theorem withLogs_of_plan {arguments : List String} {env : Environment}
    (h : plan backend arguments env fs = .service s withHandshake ready) :
    ∃ c outputLog inputLog,
      Service.withLogs { backend := backend, classifier := c } fs outputLog inputLog =
        .ok (s, ready) := by
  unfold plan prepare at h
  split at h
  · cases h
  · rename_i line _
    split at h
    · rename_i c _
      unfold command at h
      split at h
      · rename_i outputLog inputLog _ _
        unfold serve at h
        split at h
        · cases h
        · rename_i hlogs
          cases h
          exact ⟨c, outputLog, inputLog, hlogs⟩
      · cases h
    · cases h
    · cases h

/-- Whatever the program is told to do, and whatever becomes of its session, it leaves a sound file
system. -/
theorem the_files_stay_sound (arguments : List String) (env : Environment) (hfs : fs.IsSound)
    (h : plan backend arguments env fs = .service s withHandshake ready) (input : Bytes) :
    ready.IsSound ∧ (s.run withHandshake (Session.ofInput ready input)).2.files.IsSound := by
  obtain ⟨c, outputLog, inputLog, hlogs⟩ := withLogs_of_plan h
  have hready := Service.isSound_withLogs hfs hlogs
  exact ⟨hready, Service.run_keeps LogFile.isSound_note withHandshake hready⟩

end Program

end UnitAtlas
