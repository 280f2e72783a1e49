-- Command lines without a command are given one, and the others are left alone. A line that the
-- grammar takes has options in front of its command, each with its value behind it or attached to
-- it; the search for the command goes over them in the same steps.
import UnitAtlas.Command.Implicit

namespace UnitAtlas

namespace Argument

/-! ## Arguments as they are written -/

def text : Argument → String
  | value text => text
  | endOfOptions => "--"
  | long name none => "--" ++ name
  | long name (some attached) => "--" ++ name ++ "=" ++ attached
  | short letter rest => "-" ++ String.singleton letter ++ rest

theorem text_long_splitName (cs : List Char) :
    (long (splitName cs).1 (splitName cs).2).text.toList = '-' :: '-' :: cs := by
  have hcs : cs.takeWhile (· != '=') ++ cs.dropWhile (· != '=') = cs :=
    List.takeWhile_append_dropWhile
  have hdrop : cs.drop (cs.takeWhile (· != '=')).length = cs.dropWhile (· != '=') :=
    (congrArg (List.drop _) hcs.symm).trans List.drop_left
  unfold splitName
  dsimp only
  rw [hdrop]
  rcases hrest : cs.dropWhile (· != '=') with _ | ⟨c, rest⟩
  · rw [hrest, List.append_nil] at hcs
    simp [text, hcs]
  · have hc : c = '=' := by
      have hhead := List.head?_dropWhile_not (· != '=') cs
      rw [hrest] at hhead
      simpa using hhead
    rw [hrest, hc] at hcs
    simp [text, hcs]

/-- An argument is read for what is written. -/
theorem text_ofText (t : String) : (ofText t).text = t := by
  refine String.toList_inj.mp ?_
  unfold ofText
  split
  · rename_i ht
    rw [ht]
    rfl
  · rename_i cs hne ht
    rw [ht]
    exact text_long_splitName cs
  · rename_i letter cs _ _ ht
    rw [ht]
    simp [text]
  · rfl

end Argument

namespace CommandLine

open Gathering (step)

variable {g after : Gathering} {text : String} {arguments : List String} {line : CommandLine}

/-! ## What stands in front of a command -/

/-- Options of the top level with their values, and a command behind them. -/
inductive HasCommand : List String → Prop where
  | word {word : String} (h : word ∈ commandWords) (arguments : List String) :
      HasCommand (word :: arguments)
  | apart {o : ValueOption} (h : o ∈ ValueOption.atLevel .top) (value : String)
      {rest : List String} (hrest : HasCommand rest) : HasCommand (("--" ++ o.name) :: value :: rest)
  | attached {o : ValueOption} (h : o ∈ ValueOption.atLevel .top) (value : String)
      {rest : List String} (hrest : HasCommand rest) :
      HasCommand (("--" ++ o.name ++ "=" ++ value) :: rest)

/-- What the top level takes when a value is due. -/
theorem step_of_awaiting {o : ValueOption} (hdue : g.awaiting = some o)
    (h : step .top g text = .ok after) : after.awaiting = none := by
  unfold step at h
  rw [hdue] at h
  dsimp only at h
  split at h <;> cases h
  rfl

/-- No value has a place in front of a command. -/
theorem add_top (given : Given) (text : String) : given.add .top text = .error .badUsage := by
  rw [Given.add, if_neg]
  rintro ⟨-, hplace⟩
  cases hplace

theorem settle_eq_ok (h : g.settle = .ok after) :
    after.awaiting = g.awaiting ∧ after.onlyValues = g.onlyValues := by
  unfold Gathering.settle at h
  split at h
  · cases h
    exact ⟨rfl, rfl⟩
  · rename_i o value _
    rcases hset : g.given.set o value with r | given <;> rw [hset] at h <;> cases h
    exact ⟨rfl, rfl⟩

/-- What the top level makes of an argument when no value is due. -/
theorem argument_of_step (hdue : g.awaiting = none) (h : step .top g text = .ok after) :
    g.onlyValues = false ∧ ∃ settled : Gathering, settled.awaiting = none ∧
      settled.onlyValues = false ∧ settled.argument .top (Argument.ofText text) = .ok after := by
  unfold step at h
  rw [hdue] at h
  rcases hsettled : g.settle with r | settled <;> rw [hsettled] at h
  · cases h
  obtain ⟨hnone, hvalues⟩ := settle_eq_ok hsettled
  rcases honly : settled.onlyValues with _ | _
  · simp only [bind, Except.bind, honly, Bool.false_eq_true, if_false] at h
    exact ⟨hvalues.symm.trans honly, settled, hnone.trans hdue, honly, h⟩
  · simp only [bind, Except.bind, honly, if_true, add_top] at h
    cases h

/-- The long options of the top level all have values. -/
theorem long_top {name : String} {attached : Option String}
    (h : g.long .top name attached = .ok after) :
    ∃ o ∈ ValueOption.atLevel .top, name = o.name ∧
      ((attached = none ∧ after = { g with awaiting := some o }) ∨
        ∃ value, attached = some value ∧ ∃ given, after = { g with given := given }) := by
  unfold Gathering.long ValueOption.ofName? at h
  rcases ho : (ValueOption.atLevel .top).find? (·.name == name) with _ | o <;> rw [ho] at h <;>
    dsimp only at h
  · split at h
    · cases h
    · split at h
      · cases h
      · rw [if_neg nofun] at h
        cases h
  · have hsome := List.find?_some ho
    have hname : o.name = name := beq_iff_eq.mp hsome
    refine ⟨o, List.mem_of_find?_eq_some ho, hname.symm, ?_⟩
    unfold Gathering.option at h
    rcases attached with _ | value <;> dsimp only at h
    · cases h
      exact Or.inl ⟨rfl, rfl⟩
    · rcases hset : g.given.set o value with r | given <;> rw [hset] at h <;> cases h
      exact Or.inr ⟨value, rfl, given, rfl⟩

/-- No letter is an option of the top level. -/
theorem short_top (g : Gathering) (letter : Char) (more : String) :
    g.short .top letter more ≠ .ok after := by
  have hnone : ValueOption.ofLetter? .top letter = none := if_neg nofun
  unfold Gathering.short
  rw [hnone]
  split <;> exact nofun

/-- What the top level takes when no value is due. -/
theorem step_of_free (hdue : g.awaiting = none) (h : step .top g text = .ok after) :
    g.onlyValues = false ∧
    ((after.awaiting = none ∧ after.onlyValues = true) ∨
    (∃ o ∈ ValueOption.atLevel .top, text = "--" ++ o.name ∧ after.awaiting = some o) ∨
    ∃ o ∈ ValueOption.atLevel .top, ∃ value, text = "--" ++ o.name ++ "=" ++ value ∧
      after.awaiting = none) := by
  obtain ⟨hvalues, settled, hnone, honly, hstep⟩ := argument_of_step hdue h
  refine ⟨hvalues, ?_⟩
  have htext := Argument.text_ofText text
  rcases hargument : Argument.ofText text with value | _ | ⟨name, attached⟩ | ⟨letter, more⟩ <;>
    rw [hargument] at hstep htext
  · simp only [Gathering.argument, add_top] at hstep
    cases hstep
  · cases hstep
    exact Or.inl ⟨hnone, rfl⟩
  · obtain ⟨o, ho, rfl, hafter⟩ := long_top hstep
    rcases hafter with ⟨rfl, rfl⟩ | ⟨value, rfl, given, rfl⟩
    · exact Or.inr (Or.inl ⟨o, ho, htext.symm, rfl⟩)
    · exact Or.inr (Or.inr ⟨o, ho, value, htext.symm, hnone⟩)
  · exact absurd hstep (short_top settled letter more)

theorem ofRest_of_onlyValues (hdue : g.awaiting = none) (hvalues : g.onlyValues = true) :
    ofRest g arguments ≠ .ok line := by
  intro h
  rcases arguments with _ | ⟨text, rest⟩
  · cases h
  · unfold ofRest startsCommand at h
    rw [hvalues, Bool.not_true, Bool.and_false, Bool.false_and, if_neg Bool.false_ne_true] at h
    rcases hstep : step .top g text with r | after <;> rw [hstep] at h
    · cases h
    · rw [(argument_of_step hdue hstep).1] at hvalues
      cases hvalues

/-- The grammar takes no line without a command, behind a value that is due. -/
theorem hasCommand_of_ofRest (h : ofRest g arguments = .ok line) :
    (g.awaiting = none → HasCommand arguments) ∧
      ∀ o, g.awaiting = some o → ∃ value rest, arguments = value :: rest ∧ HasCommand rest := by
  -- A word starts the command only where no value is due; where one is due it is the value.
  induction arguments generalizing g with
  | nil => cases h
  | cons text rest ih =>
    unfold ofRest at h
    split at h
    · rename_i hstarts
      unfold startsCommand at hstarts
      rw [Bool.and_eq_true, Bool.and_eq_true, Option.isNone_iff_eq_none,
        List.contains_iff_mem] at hstarts
      obtain ⟨⟨hdue, -⟩, hword⟩ := hstarts
      exact ⟨fun _ => .word hword rest, fun o ho => by rw [hdue] at ho; cases ho⟩
    · rcases hstep : step .top g text with r | after <;> rw [hstep] at h
      · cases h
      obtain ⟨hfree, hbound⟩ := ih h
      refine ⟨fun hdue => ?_, fun o ho => ?_⟩
      · obtain ⟨-, hends | ⟨o, ho, rfl, hnext⟩ | ⟨o, ho, value, rfl, hnext⟩⟩ :=
          step_of_free hdue hstep
        · exact absurd h (ofRest_of_onlyValues hends.1 hends.2)
        · obtain ⟨value, later, rfl, hcommand⟩ := hbound o hnext
          exact .apart ho value hcommand
        · exact .attached ho value (hfree hnext)
      · exact ⟨text, rest, rfl, hfree (step_of_awaiting ho hstep)⟩

end CommandLine

namespace Implicit

open CommandLine (HasCommand commandWords)

/-! ## The search for the command -/

theorem sight_word {word : String} (h : word ∈ commandWords) : sight word = .word := by
  have hall : ∀ word ∈ commandWords, sight word = .word := by decide
  exact hall word h

theorem sight_apart {o : ValueOption} (h : o ∈ ValueOption.atLevel .top) :
    sight ("--" ++ o.name) = .pair := by
  have hall : ∀ o ∈ ValueOption.atLevel .top, sight ("--" ++ o.name) = .pair := by decide
  exact hall o h

/-- An equals sign tells an option with its value from all that the search knows by name. -/
theorem sight_attached (name value : String) : sight ("--" ++ name ++ "=" ++ value) = .single := by
  have hsign : '=' ∈ ("--" ++ name ++ "=" ++ value).toList := by simp
  have hplain : ∀ known : List String, (∀ word ∈ known, '=' ∉ word.toList) →
      "--" ++ name ++ "=" ++ value ∉ known := fun known hknown hmem => hknown _ hmem hsign
  have hdash : ("--" ++ name ++ "=" ++ value).toList.head? = some '-' := by simp
  unfold sight
  rw [if_neg, if_neg (hplain _ (by decide)), if_neg (hplain _ (by decide)), if_pos hdash]
  intro heq
  exact hplain ["--"] (by decide) (List.mem_singleton.mpr heq)

theorem isExplicit_of_hasCommand {arguments : List String} (h : HasCommand arguments) :
    isExplicit arguments = true := by
  induction h with
  | word h arguments =>
    unfold isExplicit
    rw [sight_word h]
    exact List.contains_iff_mem.mpr h
  | apart h value hrest ih =>
    unfold isExplicit
    rw [sight_apart h]
    exact ih
  | attached h value hrest ih =>
    unfold isExplicit
    rw [sight_attached]
    exact ih

/-! ## The law -/

/-- A command line is left alone, or the command to serve is put in behind the program's name. Once
it has a command it is left alone, and so is every line that the grammar takes as it is. -/
theorem a_command_is_put_in_only_where_there_is_none (program : String) (rest : List String) :
    (withCommand (program :: rest) = program :: rest ∨
        withCommand (program :: rest) = program :: "serve" :: rest) ∧
      withCommand (withCommand (program :: rest)) = withCommand (program :: rest) ∧
      ∀ line, CommandLine.ofArguments (program :: rest) = .ok line →
        withCommand (program :: rest) = program :: rest := by
  have hkept : ∀ more, isExplicit more = true → withCommand (program :: more) = program :: more :=
    fun more h => if_pos h
  have hserve : isExplicit ("serve" :: rest) = true :=
    isExplicit_of_hasCommand (.word List.mem_cons_self rest)
  have hput : isExplicit rest = true ∨
      withCommand (program :: rest) = program :: "serve" :: rest := by
    by_cases h : isExplicit rest = true
    · exact Or.inl h
    · exact Or.inr (if_neg h)
  refine ⟨hput.imp_left (hkept rest), ?_, fun line hline => hkept rest ?_⟩
  · rcases hput with h | h
    · rw [hkept rest h, hkept rest h]
    · rw [h, hkept _ hserve]
  · exact isExplicit_of_hasCommand ((CommandLine.hasCommand_of_ofRest hline).1 rfl)

/-- A line with an option of either kind in front of its command, and a command as a value. -/
def bothLengths : List String :=
  ["unitmap", "--glue-len", "3", "--signature-len=2", "dump", "serve"]

theorem a_line_with_options_in_front_is_left_alone :
    CommandLine.ofArguments bothLengths = .ok ⟨.dump ["serve"] .text, some 3, some 2⟩ ∧
      withCommand bothLengths = bothLengths := by
  have hline : CommandLine.ofArguments bothLengths =
      .ok ⟨.dump ["serve"] .text, some 3, some 2⟩ := by rfl
  obtain ⟨-, -, hkept⟩ := a_command_is_put_in_only_where_there_is_none "unitmap"
    ["--glue-len", "3", "--signature-len=2", "dump", "serve"]
  exact ⟨hline, hkept _ hline⟩

end Implicit

end UnitAtlas
