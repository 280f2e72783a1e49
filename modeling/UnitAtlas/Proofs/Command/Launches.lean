-- Every launch by a host that knows no commands becomes a session. Such a launch is made of logs
-- and options in any order; the search for the command passes over the options with their values,
-- finds none, and behind the command that is put in each piece sets what it names.
import Mathlib.Data.List.Induction
import UnitAtlas.Proofs.Command.Implicit

namespace UnitAtlas

/-! ## Arguments by their first characters -/

namespace Argument

theorem splitName_append {name : List Char} (hname : '=' ∉ name) (value : List Char) :
    splitName (name ++ '=' :: value) = (String.ofList name, some (String.ofList value)) := by
  have hbefore : (name ++ '=' :: value).takeWhile (· != '=') = name := by
    rw [List.takeWhile_append_of_pos (fun c hc => bne_iff_ne.mpr (ne_of_mem_of_not_mem hc hname))]
    simp
  unfold splitName
  dsimp only
  rw [hbefore, List.drop_left]

theorem ofText_of_value {t : String} (h : t.toList.head? ≠ some '-') : ofText t = .value t := by
  unfold ofText
  split
  · rename_i ht
    exact absurd (congrArg List.head? ht) h
  · rename_i ht
    exact absurd (congrArg List.head? ht) h
  · rename_i ht
    exact absurd (congrArg List.head? ht) h
  · rfl

theorem ofText_attached (o : ValueOption) (value : String) :
    ofText ("--" ++ o.name ++ "=" ++ value) = .long o.name (some value) := by
  have hname : '=' ∉ o.name.toList := by cases o <;> decide
  have htext : ("--" ++ o.name ++ "=" ++ value).toList =
      '-' :: '-' :: (o.name.toList ++ '=' :: value.toList) := by simp
  have hsplit := splitName_append hname value.toList
  obtain ⟨c, cs, hcs⟩ := List.exists_cons_of_ne_nil (l := o.name.toList ++ '=' :: value.toList)
    (by simp)
  rw [hcs] at htext hsplit
  unfold ofText
  rw [htext]
  show long (splitName (c :: cs)).1 (splitName (c :: cs)).2 = _
  rw [hsplit, String.ofList_toList, String.ofList_toList]

theorem ofText_apart (o : ValueOption) : ofText ("--" ++ o.name) = .long o.name none := by
  cases o <;> rfl

end Argument

/-- A number has no sign that an option could be taken for. -/
theorem Numeral.head_of_word {t : String} {n : Nat} (h : word t = .ok n) :
    t.toList.head? ≠ some '-' := by
  intro hdash
  obtain ⟨rest, hrest⟩ := List.head?_eq_some_iff.mp hdash
  rw [word, hrest] at h
  cases h

namespace Gathering

/-! ## One piece of a level -/

variable {g : Gathering} {level : Level} {x y : Given} {text : String}

/-- Where no value is due, an argument is looked at after the value before it. -/
theorem step_of_settled (h : g.settle = .ok { given := x }) (text : String) :
    step level g text = argument { given := x } level (Argument.ofText text) := by
  have hdue : g.awaiting = none := (CommandLine.settle_eq_ok h).1.symm
  unfold step
  rw [hdue, h]
  rfl

theorem step_value (h : g.settle = .ok { given := x }) (hsign : text.toList.head? ≠ some '-')
    (hadd : x.add level text = .ok y) : step level g text = .ok { given := y } := by
  rw [step_of_settled h, Argument.ofText_of_value hsign, argument, hadd]
  rfl

theorem step_noHandshake (h : g.settle = .ok { given := x }) (hunset : x.noHandshake = false) :
    step .serve g "--no-handshake" = .ok { given := { x with noHandshake := true } } := by
  rw [step_of_settled h]
  show (do return { given := ← x.skipHandshake } : Except Refusal Gathering) = _
  rw [Given.skipHandshake, hunset]
  rfl

theorem long_name {o : ValueOption} (ho : o ∈ ValueOption.atLevel .serve) (g : Gathering)
    (attached : Option String) : g.long .serve o.name attached = g.option o attached := by
  have hfound : ∀ o ∈ ValueOption.atLevel .serve, ValueOption.ofName? .serve o.name = some o := by
    decide
  unfold long
  rw [hfound o ho]

theorem step_attached {o : ValueOption} (h : g.settle = .ok { given := x })
    (ho : o ∈ ValueOption.atLevel .serve) (hset : x.set o text = .ok y) :
    step .serve g ("--" ++ o.name ++ "=" ++ text) = .ok { given := y } := by
  rw [step_of_settled h, Argument.ofText_attached, argument, long_name ho, option]
  dsimp only
  rw [hset]
  rfl

/-- The value behind an option is looked at with the next argument, or at the end. -/
theorem step_apart {o : ValueOption} (h : g.settle = .ok { given := x })
    (ho : o ∈ ValueOption.atLevel .serve) (hsign : text.toList.head? ≠ some '-')
    (hset : x.set o text = .ok y) :
    ∃ after, ["--" ++ o.name, text].foldlM (step .serve) g = .ok after ∧
      after.settle = .ok { given := y } := by
  have hoption : step .serve g ("--" ++ o.name) = .ok { given := x, awaiting := some o } := by
    rw [step_of_settled h, Argument.ofText_apart, argument, long_name ho]
    rfl
  have hvalue : step .serve { given := x, awaiting := some o } text =
      .ok { given := x, unchecked := some (o, text) } := by
    unfold step
    rw [Argument.ofText_of_value hsign]
  refine ⟨{ given := x, unchecked := some (o, text) }, ?_, ?_⟩
  · rw [List.foldlM_cons, hoption]
    show step .serve { given := x, awaiting := some o } text >>= pure = _
    rw [hvalue]
    rfl
  · unfold settle
    dsimp only
    rw [hset]
    rfl

end Gathering

namespace Implicit

open CommandLine (commandWords)

/-! ## Launches -/

/-- A piece of a command line without a command. -/
inductive Piece where
  | log (path : String)
  | noHandshake
  /-- A length, its value attached to the option or behind it. -/
  | length (o : ValueOption) (attached : Bool) (value : String)
  deriving Repr, DecidableEq

namespace Piece

def words : Piece → List String
  | log path => [path]
  | noHandshake => ["--no-handshake"]
  | length o true value => ["--" ++ o.name ++ "=" ++ value]
  | length o false value => ["--" ++ o.name, value]

def log? : Piece → Option String
  | log path => some path
  | _ => none

/-- The value for one of the lengths. -/
def value? (o : ValueOption) : Piece → Option String
  | length o' _ value => if o' = o then some value else none
  | _ => none

end Piece

def logs (pieces : List Piece) : List String := pieces.filterMap Piece.log?

def values (o : ValueOption) (pieces : List Piece) : List String :=
  pieces.filterMap (Piece.value? o)

/-- The number that a length is set to, if it is. -/
def lengthIn (o : ValueOption) (pieces : List Piece) : Option Nat :=
  (values o pieces).head?.bind fun value => (Numeral.word value).toOption

/-- Pieces as hosts without commands give them: up to two logs, of which the first is no command,
and each option at most once. -/
structure IsLaunch (pieces : List Piece) : Prop where
  fewLogs : (logs pieces).length ≤ 2
  paths : ∀ path ∈ logs pieces, path ≠ "" ∧ path.toList.head? ≠ some '-'
  noCommand : ∀ path, (logs pieces).head? = some path → path ∉ commandWords
  handshakeOnce : pieces.count .noHandshake ≤ 1
  lengthsOnce : ∀ o, (values o pieces).length ≤ 1
  lengths : ∀ o attached value, .length o attached value ∈ pieces →
    o ∈ ValueOption.atLevel .top ∧ ∃ n, Numeral.word value = .ok n

variable {pieces : List Piece} {piece : Piece}

theorem logs_append (before behind : List Piece) :
    logs (before ++ behind) = logs before ++ logs behind := List.filterMap_append

theorem values_append (o : ValueOption) (before behind : List Piece) :
    values o (before ++ behind) = values o before ++ values o behind := List.filterMap_append

/-- A launch may end earlier. -/
theorem IsLaunch.of_append {behind : List Piece} (h : IsLaunch (pieces ++ behind)) :
    IsLaunch pieces where
  fewLogs := by
    have hall := h.fewLogs
    rw [logs_append, List.length_append] at hall
    exact Nat.le_of_add_right_le hall
  paths path hpath := h.paths path (by rw [logs_append]; exact List.mem_append_left _ hpath)
  noCommand path hpath := h.noCommand path (by rw [logs_append, List.head?_append, hpath]; rfl)
  handshakeOnce := by
    have hall := h.handshakeOnce
    rw [List.count_append] at hall
    exact Nat.le_of_add_right_le hall
  lengthsOnce o := by
    have hall := h.lengthsOnce o
    rw [values_append, List.length_append] at hall
    exact Nat.le_of_add_right_le hall
  lengths o attached value hmem := h.lengths o attached value (List.mem_append_left _ hmem)

/-! ## The search for the command -/

theorem sight_path {path : String} (h : path.toList.head? ≠ some '-') : sight path = .word := by
  have hplain : ∀ known : List String, (∀ word ∈ known, word.toList.head? = some '-') →
      path ∉ known := fun known hknown hmem => h (hknown path hmem)
  unfold sight
  rw [if_neg, if_neg (hplain _ (by decide)), if_neg (hplain _ (by decide)), if_neg h]
  intro heq
  exact hplain ["--"] (by decide) (List.mem_singleton.mpr heq)

/-- No launch has a command of its own. -/
theorem isExplicit_words (hpaths : ∀ path ∈ logs pieces, path.toList.head? ≠ some '-')
    (hfirst : ∀ path, (logs pieces).head? = some path → path ∉ commandWords)
    (hlengths : ∀ o attached value, .length o attached value ∈ pieces →
      o ∈ ValueOption.atLevel .top) :
    isExplicit (pieces.flatMap Piece.words) = false := by
  induction pieces with
  | nil => rfl
  | cons piece pieces ih =>
    have hlater := fun o attached value hmem =>
      hlengths o attached value (List.mem_cons_of_mem piece hmem)
    rw [List.flatMap_cons]
    rcases piece with path | _ | ⟨o, attached, value⟩
    · show isExplicit (path :: pieces.flatMap Piece.words) = false
      unfold isExplicit
      rw [sight_path (hpaths path List.mem_cons_self)]
      exact Bool.not_eq_true _ ▸ fun h => hfirst path rfl (List.contains_iff_mem.mp h)
    · exact ih hpaths hfirst hlater
    · have ho := hlengths o attached value List.mem_cons_self
      rcases attached with _ | _
      · show isExplicit (("--" ++ o.name) :: value :: pieces.flatMap Piece.words) = false
        unfold isExplicit
        rw [sight_apart ho]
        exact ih hpaths hfirst hlater
      · show isExplicit (("--" ++ o.name ++ "=" ++ value) :: pieces.flatMap Piece.words) = false
        unfold isExplicit
        rw [sight_attached]
        exact ih hpaths hfirst hlater

/-! ## Behind the command -/

/-- What pieces give. -/
def givenBy (pieces : List Piece) : Given where
  values := logs pieces
  glue := lengthIn .glue pieces
  signatureLength := lengthIn .signatureLength pieces
  noHandshake := pieces.contains .noHandshake

theorem lengthIn_of_ne {o o' : ValueOption} (hne : o' ≠ o) (attached : Bool) (value : String) :
    lengthIn o (pieces ++ [.length o' attached value]) = lengthIn o pieces := by
  have hvalues : values o [.length o' attached value] = [] := by simp [values, Piece.value?, hne]
  rw [lengthIn, values_append, hvalues, List.append_nil, lengthIn]

/-- A length that is given once counts. -/
theorem lengthIn_of_mem {o : ValueOption} {attached : Bool} {value : String} {n : Nat}
    (hmem : .length o attached value ∈ pieces) (honce : (values o pieces).length ≤ 1)
    (hn : Numeral.word value = .ok n) : lengthIn o pieces = some n := by
  have hvalue : value ∈ values o pieces := List.mem_filterMap.mpr ⟨_, hmem, if_pos rfl⟩
  unfold lengthIn
  rcases hvalues : values o pieces with _ | ⟨first, _ | ⟨second, rest⟩⟩
  · rw [hvalues] at hvalue
    cases hvalue
  · rw [hvalues] at hvalue
    rw [← List.mem_singleton.mp hvalue]
    exact congrArg Except.toOption hn
  · rw [hvalues] at honce
    exact absurd honce (by simp)

/-- Before it is given it is not set. -/
theorem lengthIn_before {o : ValueOption} {attached : Bool} {value : String}
    (honce : (values o (pieces ++ [.length o attached value])).length ≤ 1) :
    lengthIn o pieces = none := by
  have hvalues : values o [.length o attached value] = [value] := by simp [values, Piece.value?]
  rw [values_append, hvalues, List.length_append, List.length_singleton] at honce
  rw [lengthIn, List.eq_nil_of_length_eq_zero (l := values o pieces) (by omega)]
  rfl

theorem set_givenBy {o : ValueOption} {attached : Bool} {value : String}
    (h : IsLaunch (pieces ++ [.length o attached value])) :
    (givenBy pieces).set o value = .ok (givenBy (pieces ++ [.length o attached value])) := by
  have hmem : Piece.length o attached value ∈ pieces ++ [.length o attached value] :=
    List.mem_append_right _ List.mem_cons_self
  obtain ⟨ho, n, hn⟩ := h.lengths o attached value hmem
  have hunset := lengthIn_before (h.lengthsOnce o)
  have hset := lengthIn_of_mem hmem (h.lengthsOnce o) hn
  have hlogs : logs (pieces ++ [.length o attached value]) = logs pieces := by
    rw [logs_append]
    exact List.append_nil _
  have hhandshake : (pieces ++ [Piece.length o attached value]).contains .noHandshake =
      pieces.contains .noHandshake := by simp
  rcases o with _ | _ | _
  · have hother : lengthIn .signatureLength (pieces ++ [.length .glue attached value]) =
        lengthIn .signatureLength pieces := lengthIn_of_ne (by decide) attached value
    simp only [Given.set, givenBy, hunset, hn, hset, hlogs, hhandshake, hother]
    rfl
  · have hother : lengthIn .glue (pieces ++ [.length .signatureLength attached value]) =
        lengthIn .glue pieces := lengthIn_of_ne (by decide) attached value
    simp only [Given.set, givenBy, hunset, hn, hset, hlogs, hhandshake, hother]
    rfl
  · exact absurd ho (by decide)

/-- Each piece sets what it names. -/
theorem gather_piece {g : Gathering} (h : IsLaunch (pieces ++ [piece]))
    (hg : g.settle = .ok { given := givenBy pieces }) :
    ∃ after, piece.words.foldlM (Gathering.step .serve) g = .ok after ∧
      after.settle = .ok { given := givenBy (pieces ++ [piece]) } := by
  have hone : ∀ word after, Gathering.step .serve g word = .ok after →
      [word].foldlM (Gathering.step .serve) g = .ok after := by
    intro word after hstep
    rw [List.foldlM_cons, hstep]
    rfl
  rcases piece with path | _ | ⟨o, attached, value⟩
  · have hlogs : logs (pieces ++ [.log path]) = logs pieces ++ [path] :=
      logs_append pieces [.log path]
    obtain ⟨hne, hsign⟩ := h.paths path (by rw [hlogs]; simp)
    have hplace : (logs pieces).length < 2 := by
      have hfew := h.fewLogs
      rw [hlogs, List.length_append] at hfew
      exact hfew
    have hadd : (givenBy pieces).add .serve path = .ok (givenBy (pieces ++ [.log path])) := by
      rw [Given.add, if_pos ⟨hne, decide_eq_true hplace⟩]
      simp [givenBy, hlogs, lengthIn, values, Piece.value?]
    exact ⟨_, hone path _ (Gathering.step_value hg hsign hadd), rfl⟩
  · have honce := h.handshakeOnce
    rw [List.count_append, List.count_singleton_self] at honce
    have hunset : pieces.contains .noHandshake = false := by
      rw [List.contains_eq_mem, decide_eq_false_iff_not, ← List.count_eq_zero]
      omega
    refine ⟨_, hone _ _ (Gathering.step_noHandshake hg hunset), ?_⟩
    simp [Gathering.settle, givenBy, logs, lengthIn, values, Piece.value?, Piece.log?]
  · obtain ⟨ho, n, hn⟩ := h.lengths o attached value (List.mem_append_right _ List.mem_cons_self)
    have hset := set_givenBy h
    rcases attached with _ | _
    · exact Gathering.step_apart hg ho (Numeral.head_of_word hn) hset
    · exact ⟨_, hone _ _ (Gathering.step_attached hg ho hset), rfl⟩

/-- All pieces of a launch are taken. -/
theorem gather_pieces (h : IsLaunch pieces) :
    ∃ after, (pieces.flatMap Piece.words).foldlM (Gathering.step .serve) {} = .ok after ∧
      after.settle = .ok { given := givenBy pieces } := by
  induction pieces using List.reverseRecOn with
  | nil => exact ⟨{}, rfl, rfl⟩
  | append_singleton pieces piece ih =>
    obtain ⟨before, hbefore, hsettled⟩ := ih h.of_append
    obtain ⟨after, hafter, hlast⟩ := gather_piece h hsettled
    refine ⟨after, ?_, hlast⟩
    rw [List.flatMap_append, List.flatMap_singleton, List.foldlM_append, hbefore]
    exact hafter

/-! ## The law -/

theorem ofArguments_words (h : IsLaunch pieces) :
    Given.ofArguments .serve (pieces.flatMap Piece.words) = .ok (givenBy pieces) := by
  obtain ⟨after, hafter, hsettled⟩ := gather_pieces h
  have hdue : after.awaiting = none := (CommandLine.settle_eq_ok hsettled).1.symm
  unfold Given.ofArguments
  rw [hafter]
  show after.finish = _
  unfold Gathering.finish
  rw [hdue, hsettled]
  rfl

/-- A launch, in whatever order its pieces stand and whichever way its values are given, is a
command to serve with its first path as the log of what is written, its second as the log of what
is read, and each option as it is given. -/
theorem every_launch_without_a_command_serves (program : String) {pieces : List Piece}
    (h : IsLaunch pieces) :
    CommandLine.ofArguments (withCommand (program :: pieces.flatMap Piece.words)) =
        .ok ⟨.serve (logs pieces)[0]? (logs pieces)[1]? (pieces.contains .noHandshake),
          lengthIn .glue pieces, lengthIn .signatureLength pieces⟩ ∧
      ∀ o attached value, .length o attached value ∈ pieces →
        ∃ n, Numeral.word value = .ok n ∧ lengthIn o pieces = some n := by
  refine ⟨?_, fun o attached value hmem => ?_⟩
  · have hsearch : isExplicit (pieces.flatMap Piece.words) = false :=
      isExplicit_words (fun path hpath => (h.paths path hpath).2) h.noCommand
        (fun o attached value hmem => (h.lengths o attached value hmem).1)
    have hput : withCommand (program :: pieces.flatMap Piece.words) =
        program :: "serve" :: pieces.flatMap Piece.words :=
      if_neg (Bool.not_eq_true _ ▸ hsearch)
    have hstarts : CommandLine.startsCommand {} "serve" = true := by decide
    rw [hput, CommandLine.ofArguments, List.drop_one, List.tail_cons, CommandLine.ofRest,
      if_pos hstarts, CommandLine.commandOf, if_pos rfl, CommandLine.serveCommand,
      ofArguments_words h]
    show Except.ok (CommandLine.mk _ (lengthIn .glue pieces <|> none)
      (lengthIn .signatureLength pieces <|> none)) = _
    have hnone : ∀ o : Option Nat, (o <|> none) = o := by
      intro o
      cases o <;> rfl
    rw [hnone, hnone]
    rfl
  · obtain ⟨-, n, hn⟩ := h.lengths o attached value hmem
    exact ⟨n, hn, lengthIn_of_mem hmem (h.lengthsOnce o) hn⟩

/-- Options on both sides of the first log, one value behind its option and one attached, and a
second log that is named like a command. -/
def mixedPieces : List Piece :=
  [.noHandshake, .length .glue false "+5", .log "out", .length .signatureLength true "007",
    .log "serve"]

theorem isLaunch_mixedPieces : IsLaunch mixedPieces where
  fewLogs := by decide
  paths := by decide
  noCommand := by
    intro path hpath
    cases hpath
    decide
  handshakeOnce := by decide
  lengthsOnce o := by cases o <;> decide
  lengths := by
    intro o attached value hmem
    simp only [mixedPieces, List.mem_cons, Piece.length.injEq, List.not_mem_nil, or_false,
      reduceCtorEq, false_or] at hmem
    rcases hmem with ⟨rfl, rfl, rfl⟩ | ⟨rfl, rfl, rfl⟩
    · exact ⟨by decide, 5, rfl⟩
    · exact ⟨by decide, 7, rfl⟩

theorem a_launch_with_a_log_named_like_a_command_serves :
    IsLaunch mixedPieces ∧
      CommandLine.ofArguments (withCommand ["unitmap", "--no-handshake", "--glue-len", "+5", "out",
        "--signature-len=007", "serve"]) =
        .ok ⟨.serve (some "out") (some "serve") true, some 5, some 7⟩ :=
  ⟨isLaunch_mixedPieces,
    (every_launch_without_a_command_serves "unitmap" isLaunch_mixedPieces).1⟩

end Implicit

end UnitAtlas
