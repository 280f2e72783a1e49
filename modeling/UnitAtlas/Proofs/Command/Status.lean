-- Whether a host that waits for a status gets one. It gets one when the program cannot learn the
-- look of a class, and when the session comes to its handshake; between these, where the logs are
-- set up and the lines of the handshake are read, the program may end without a word.
import UnitAtlas.Proofs.Compiler.Classes
import UnitAtlas.Proofs.Session.Serving
import UnitAtlas.Command.Program

namespace UnitAtlas

/-! ## The logs -/

namespace Service

/-- Both logs can be set up, one after the other. -/
def LogsFit (fs : FileSystem) (outputLog inputLog : Option String) : Prop :=
  ∃ output after input ready, createLog fs outputLog = .ok (output, after) ∧
    createLog after inputLog = .ok (input, ready)

theorem withLogs_eq (s : Service) (fs : FileSystem) (outputLog inputLog : Option String) :
    (LogsFit fs outputLog inputLog ∧ ∃ output input ready,
      s.withLogs fs outputLog inputLog =
        .ok ({ s with outputLog := output, inputLog := input }, ready)) ∨
    (¬ LogsFit fs outputLog inputLog ∧
      ∃ chain, s.withLogs fs outputLog inputLog = .error chain) := by
  rcases hlogs : s.withLogs fs outputLog inputLog with chain | ⟨service, ready⟩
  · refine Or.inr ⟨?_, chain, rfl⟩
    rintro ⟨output, after, input, ready, houtput, hinput⟩
    rw [withLogs_eq_ok.mpr ⟨output, after, input, houtput, hinput, rfl⟩] at hlogs
    cases hlogs
  · obtain ⟨output, after, input, houtput, hinput, rfl⟩ := withLogs_eq_ok.mp hlogs
    exact Or.inl ⟨⟨output, after, input, ready, houtput, hinput⟩, output, input, ready, rfl⟩

end Service

/-! ## Getting ready -/

namespace Calibration

theorem neverPanics_classifier {backend : Backend} (glue len : Nat)
    (h : Fault.NeverPanics (backend.compile backend.probe probeFilename)) :
    Fault.NeverPanics (classifier backend glue len) := by
  unfold classifier signature
  refine Fault.NeverPanics.bind ?_ fun _ => Fault.neverPanics_ok _
  split
  · exact Fault.neverPanics_error _
  · exact (h.rename _).bind fun probe => Fault.neverPanics_ofError _

end Calibration

namespace Program

theorem neverPanics_classifier {backend : Backend} (env : Environment) (line : CommandLine)
    (h : Fault.NeverPanics (backend.compile backend.probe Calibration.probeFilename)) :
    Fault.NeverPanics (classifier backend env line) :=
  (Fault.neverPanics_ofError _).bind fun _ =>
    (Calibration.neverPanics_classifier _ _ h).rename _

/-! ## What is written -/

/-- Bytes that a host can read a status from, at once. -/
def OpensWithStatus (output : Bytes) : Prop :=
  ∃ understood, output.take 4 = Wire.status understood

variable {backend : Backend} {arguments : List String} {env : Environment} {input : Bytes}
  {fs : FileSystem} {line : CommandLine} {outputLog inputLog : Option String}

/-- When there is no classifier, the status is all that is written. -/
theorem output_of_uncalibrated {chain : ErrorChain}
    (hline : CommandLine.ofArguments (Implicit.withCommand arguments) = .ok line)
    (hserve : line.command = .serve outputLog inputLog false)
    (hclassifier : classifier backend env line = .error (.error chain)) :
    (run backend arguments env input fs).output = Wire.status false := by
  rw [run, plan, hline]
  dsimp only
  rw [prepare, hclassifier, hserve]
  rfl

theorem plan_of_calibrated {c : Classifier}
    (hline : CommandLine.ofArguments (Implicit.withCommand arguments) = .ok line)
    (hserve : line.command = .serve outputLog inputLog false)
    (hclassifier : classifier backend env line = .ok c) :
    plan backend arguments env fs = serve backend c fs outputLog inputLog true := by
  rw [plan, hline]
  dsimp only
  rw [prepare, hclassifier]
  dsimp only
  rw [hserve]
  rfl

theorem opensWithStatus_append (understood : Bool) (rest : Bytes) :
    OpensWithStatus (Wire.status understood ++ rest) := by
  refine ⟨understood, ?_⟩
  have hlength : (Wire.status understood).length = 4 := Wire.length_int32 _
  rw [← hlength, List.take_left]

theorem not_opensWithStatus_nil : ¬ OpensWithStatus [] := by
  rintro ⟨understood, h⟩
  have hlength : (Wire.status understood).length = 4 := Wire.length_int32 _
  rw [← h] at hlength
  cases hlength

/-- A session writes a status before all else, or nothing at all. -/
theorem output_of_session {s : Service} (hsink : s.sink.Works) (files : FileSystem)
    (input : Bytes) :
    let (outcome, last) := s.run true (Session.ofInput files input)
    ((∀ raw ∈ (Lines.raw input).take 4, Input.isText raw = true) ∧
        OpensWithStatus (endingOf outcome last).output) ∨
      (¬ (∀ raw ∈ (Lines.raw input).take 4, Input.isText raw = true) ∧
        (endingOf outcome last).output = []) := by
  have houtput : ∀ (outcome : Except ErrorChain Unit) (last : Session),
      (endingOf outcome last).output = last.frames.flatten := by
    rintro (chain | _) last <;> rfl
  by_cases htexts : ∀ raw ∈ (Lines.raw input).take 4, Input.isText raw = true
  · obtain ⟨texts, hmap⟩ := Input.exists_texts htexts
    obtain ⟨last, frames, hrun, -, hframes, -⟩ :=
      Service.run_of_told hsink files input (Input.told_of_texts 4 hmap)
    rw [hrun]
    refine Or.inl ⟨htexts, ?_⟩
    rw [houtput, hframes, List.flatten_cons]
    exact opensWithStatus_append _ _
  · obtain ⟨last, hrun, hframes⟩ := Service.run_of_not_told s files input
      (Input.told_of_not_isText 4 ((Input.not_forall_isText_iff _).mp htexts))
    rw [hrun]
    refine Or.inr ⟨htexts, ?_⟩
    rw [houtput, hframes]
    rfl

/-- With a classifier, a status is written if both logs can be set up and what the host tells is
text, and nothing at all if not. -/
theorem output_of_calibrated {c : Classifier}
    (hline : CommandLine.ofArguments (Implicit.withCommand arguments) = .ok line)
    (hserve : line.command = .serve outputLog inputLog false)
    (hclassifier : classifier backend env line = .ok c) :
    let output := (run backend arguments env input fs).output
    let ready := Service.LogsFit fs outputLog inputLog ∧
      ∀ raw ∈ (Lines.raw input).take 4, Input.isText raw = true
    (ready ∧ OpensWithStatus output) ∨ (¬ ready ∧ output = []) := by
  rw [run, plan_of_calibrated hline hserve hclassifier, serve]
  rcases Service.withLogs_eq { backend := backend, classifier := c } fs outputLog inputLog with
    ⟨hfit, output, input', ready, hlogs⟩ | ⟨hfit, chain, hlogs⟩
  · rw [hlogs]
    have hsink : Sink.Works {} := fun _ => ⟨rfl, rfl⟩
    rcases output_of_session (s := ⟨backend, c, {}, output, input'⟩) hsink ready input with
      ⟨htexts, houtput⟩ | ⟨htexts, houtput⟩
    · exact Or.inl ⟨⟨hfit, htexts⟩, houtput⟩
    · exact Or.inr ⟨fun h => htexts h.2, houtput⟩
  · rw [hlogs]
    exact Or.inr ⟨fun h => hfit h.1, rfl⟩

/-! ## The law -/

/-- A host that waits for a status gets one, before all else, when nothing is learnt from the probe,
and otherwise exactly when both logs can be set up and the four lines that it tells are text. When
it gets none, it gets nothing. -/
theorem the_host_gets_a_status_iff (parse : Compiler.Parser) (arguments : List String)
    (env : Environment) (input : Bytes) (fs : FileSystem) (line : CommandLine)
    (outputLog inputLog : Option String)
    (hline : CommandLine.ofArguments (Implicit.withCommand arguments) = .ok line)
    (hserve : line.command = .serve outputLog inputLog false) :
    let output := (run (Compiler.backend parse) arguments env input fs).output
    (OpensWithStatus output ↔
      (∀ c, classifier (Compiler.backend parse) env line ≠ .ok c) ∨
        Service.LogsFit fs outputLog inputLog ∧
          ∀ raw ∈ (Lines.raw input).take 4, Input.isText raw = true) ∧
      (¬ OpensWithStatus output → output = []) := by
  have hprobe : Fault.NeverPanics ((Compiler.backend parse).compile
      (Compiler.backend parse).probe Calibration.probeFilename) :=
    Compiler.neverPanics_compile _ _ _
  have hcalm := neverPanics_classifier env line hprobe
  intro output
  rcases hclassifier : classifier (Compiler.backend parse) env line with (chain | message) | c
  · have houtput : output = Wire.status false :=
      output_of_uncalibrated hline hserve hclassifier
    have hopens : OpensWithStatus output := by
      rw [houtput, ← List.append_nil (Wire.status false)]
      exact opensWithStatus_append false []
    exact ⟨⟨fun _ => Or.inl nofun, fun _ => hopens⟩, fun h => absurd hopens h⟩
  · exact absurd hclassifier (hcalm message)
  · have hlearnt : ¬ ∀ c', (.ok c : Except (Fault ErrorChain) Classifier) ≠ .ok c' :=
      fun h => h c rfl
    rcases output_of_calibrated hline hserve hclassifier with
      ⟨hready, hopens⟩ | ⟨hready, houtput⟩
    · exact ⟨⟨fun _ => Or.inr hready, fun _ => hopens⟩, fun h => absurd hopens h⟩
    · have hsilent : ¬ OpensWithStatus output := by
        rw [show output = [] from houtput]
        exact not_opensWithStatus_nil
      exact ⟨⟨fun h => absurd h hsilent, fun h => (h.elim hlearnt hready).elim⟩, fun _ => houtput⟩

/-- A parser for nothing but the probe. -/
def probeParser : Compiler.Parser :=
  .ofListings [(Compiler.classProbe, Compiler.classProbeListing)]

theorem a_status_behind_new_logs :
    let arguments := ["unit-atlas", "out", "in"]
    let line : CommandLine := ⟨.serve (some "out") (some "in") false, none, none⟩
    CommandLine.ofArguments (Implicit.withCommand arguments) = .ok line ∧
      Service.LogsFit ⟨[], []⟩ (some "out") (some "in") ∧
      OpensWithStatus (run (Compiler.backend probeParser) arguments [] [] ⟨[], []⟩).output := by
  intro arguments line
  have hline : CommandLine.ofArguments (Implicit.withCommand arguments) = .ok line := by rfl
  have hfirst : Service.createLog ⟨[], []⟩ (some "out") =
      .ok (some ⟨"out"⟩, ⟨[], [(["out"], .file [])]⟩) := by decide +kernel
  have hsecond : Service.createLog ⟨[], [(["out"], .file [])]⟩ (some "in") =
      .ok (some ⟨"in"⟩, ⟨[], [(["in"], .file []), (["out"], .file [])]⟩) := by decide +kernel
  have hfit : Service.LogsFit ⟨[], []⟩ (some "out") (some "in") :=
    ⟨_, _, _, _, hfirst, hsecond⟩
  obtain ⟨hiff, -⟩ :=
    the_host_gets_a_status_iff probeParser arguments [] [] ⟨[], []⟩ line _ _ hline rfl
  exact ⟨hline, hfit, hiff.mpr (Or.inr ⟨hfit, fun raw hraw => by cases hraw⟩)⟩

/-- A log that is a directory. The host is told nothing, although it waits for a status. -/
theorem a_host_is_left_waiting :
    let arguments := ["unit-atlas", "serve", "d"]
    let fs : FileSystem := ⟨[], [(["d"], .directory)]⟩
    CommandLine.ofArguments (Implicit.withCommand arguments) =
        .ok ⟨.serve (some "d") none false, none, none⟩ ∧
      ¬ OpensWithStatus (run (Compiler.backend probeParser) arguments [] [] fs).output := by
  intro arguments fs
  have hline : CommandLine.ofArguments (Implicit.withCommand arguments) =
      .ok ⟨.serve (some "d") none false, none, none⟩ := by rfl
  have hlearnt : Calibration.classifier (Compiler.backend probeParser) Window.defaultGlue
      Calibration.defaultSignatureLength = .ok Compiler.probeClassifier :=
    Compiler.classifier_of_probe rfl
  have hclassifier : classifier (Compiler.backend probeParser) []
      ⟨.serve (some "d") none false, none, none⟩ = .ok Compiler.probeClassifier := by
    show Fault.rename _ (Calibration.classifier _ Window.defaultGlue
      Calibration.defaultSignatureLength) = _
    rw [hlearnt]
    rfl
  have hlog : Service.createLog fs (some "d") =
      .error ⟨"Failed to truncate log file: d", ["Is a directory (os error 21)"]⟩ := by
    decide +kernel
  refine ⟨hline, ?_⟩
  rcases output_of_calibrated hline rfl hclassifier with
    ⟨⟨⟨output, after, _, _, hfit, -⟩, -⟩, -⟩ | ⟨-, houtput⟩
  · rw [hlog] at hfit
    cases hfit
  · rw [houtput]
    exact not_opensWithStatus_nil

end Program

end UnitAtlas
