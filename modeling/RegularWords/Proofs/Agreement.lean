import RegularWords.CommandLine
import RegularWords.Proofs.TypedLines

/-!
The command line and the dialogue agree.

The same three texts bring about the same words or the same error, whether they are read from the
arguments of `generate` or typed as the lines of a round.  `parse` shares the errors of expressions.
-/

namespace RegularWords.CommandLine

/-! ### The commands for a round -/

open Dialogue (Round Warns)

variable (round : Round)

def generateCommand : Command :=
  .generate round.alphabet round.expression round.count false true

def parseCommand : Command :=
  .parse round.alphabet round.expression

/-- Arguments are read as a command, with its texts as they are. -/
def Surroundings.Delivers (surroundings : Surroundings) (arguments : List String)
    (command : Command) : Prop :=
  surroundings.read arguments = .ok command

/-! ### What is told -/

inductive Notes (alphabet : Alphabet) : String → Prop where
  | silent (none : alphabet.Reserves []) : Notes alphabet ""
  | notice {listed : List Char} (reserves : alphabet.Reserves listed) (some : listed ≠ []) :
      Notes alphabet ("warning: alphabet contains operator symbols " ++
        Text.quotedText (String.ofList listed) ++ "\n")

/-- A command and a round tell the same: words, or one message of an error. -/
inductive TellsAlike (notice : String) : Outcome → String → Prop where
  | words (shown : String) :
      TellsAlike notice { code := 0, output := shown, errors := notice } shown
  | failure (message : String) :
      TellsAlike notice
        { code := 1, output := "", errors := notice ++ "Error: " ++ message ++ "\n" }
        ("error: " ++ message ++ "\n")

theorem notes_warningLine (alphabet : Alphabet) : Notes alphabet (warningLine alphabet) := by
  unfold warningLine
  rcases alphabet.operatorNotice?_cases with ⟨none, silent⟩ | ⟨listed, reserves, some, notice⟩
  · rw [silent]
    exact .silent none
  · rw [notice]
    exact .notice reserves some

variable {round} {alphabet : Alphabet} {surroundings : Surroundings}

theorem withAlphabet_of_usable {text : String} (usable : Alphabet.ofText text = .ok alphabet)
    (next : Alphabet → String → Outcome) :
    surroundings.withAlphabet text next = next alphabet (warningLine alphabet) := by
  rw [Surroundings.withAlphabet, usable]

theorem run_generate_of_counted (usable : Alphabet.ofText round.alphabet = .ok alphabet)
    {number : Count} (counted : Count.ofText round.count = .ok number) (input : List UInt8) :
    (generateCommand round).run surroundings input =
      surroundings.ofRequest (.plain alphabet round.expression number) (warningLine alphabet) := by
  rw [generateCommand, Command.run, withAlphabet_of_usable usable]
  simp only [counted]
  rfl

section LaidOut

variable (layOutAlone : ∀ message, surroundings.layOut message none = message)

include layOutAlone

theorem tellsAlike_failure (notice message : String) :
    TellsAlike notice (surroundings.failure notice message none)
      ("error: " ++ message ++ "\n") := by
  rw [Surroundings.failure, layOutAlone]
  exact .failure message

/-- The same error or the same words: the count is judged before the expression. -/
theorem tellsAlike_conclusion (usable : Alphabet.ofText round.alphabet = .ok alphabet)
    (input : List UInt8) :
    TellsAlike (warningLine alphabet) ((generateCommand round).run surroundings input)
      (Dialogue.conclusion alphabet round.expression round.count) := by
  cases counted : Count.ofText round.count with
  | error error =>
      rw [generateCommand, Command.run, withAlphabet_of_usable usable, Dialogue.conclusion, counted]
      exact tellsAlike_failure layOutAlone _ error.message
  | ok number =>
      rw [run_generate_of_counted usable counted, Surroundings.ofRequest, Dialogue.conclusion,
        counted]
      dsimp only
      cases (Request.plain alphabet round.expression number).answer with
      | error failure =>
          exact tellsAlike_failure layOutAlone _ (failure.report round.expression)
      | ok words => exact .words (renderLines words)

end LaidOut

/-! ### Errors of expressions -/

/-- What `parse` says of a text that is no expression is the report of a failed request. -/
theorem report_notAnExpression (error : Grammar.SyntaxError) (expression : String) :
    "syntax error: " ++ error.message ++ "\n" ++ error.caret expression =
      (Failure.notAnExpression error).report expression := by
  rw [Failure.report, Failure.message]

theorem run_parse_of_error (usable : Alphabet.ofText round.alphabet = .ok alphabet)
    {error : Grammar.SyntaxError}
    (unreadable : Grammar.parse alphabet round.expression = .error error) (input : List UInt8) :
    (parseCommand round).run surroundings input =
      surroundings.failure (warningLine alphabet)
        ((Failure.notAnExpression error).report round.expression) none := by
  rw [parseCommand, Command.run, withAlphabet_of_usable usable, ← report_notAnExpression]
  simp only [unreadable]

theorem code_run_parse (usable : Alphabet.ofText round.alphabet = .ok alphabet)
    (input : List UInt8) :
    ((parseCommand round).run surroundings input).code ≠ 0 ↔
      ∃ error, Grammar.parse alphabet round.expression = .error error := by
  cases parsed : Grammar.parse alphabet round.expression with
  | error error =>
      rw [run_parse_of_error usable parsed]
      exact iff_of_true Nat.one_ne_zero ⟨error, rfl⟩
  | ok expr =>
      rw [parseCommand, Command.run, withAlphabet_of_usable usable]
      simp only [parsed]
      exact iff_of_false (fun failed => failed rfl) (fun ⟨_, unreadable⟩ => nomatch unreadable)

/-- With a usable count `generate` fails as `parse` does, and not otherwise. -/
theorem run_generate_of_run_parse (usable : Alphabet.ofText round.alphabet = .ok alphabet)
    {number : Count} (counted : Count.ofText round.count = .ok number) (input : List UInt8) :
    (((parseCommand round).run surroundings input).code = 0 →
        ((generateCommand round).run surroundings input).code = 0) ∧
      (((parseCommand round).run surroundings input).code ≠ 0 →
        (parseCommand round).run surroundings input =
          (generateCommand round).run surroundings input) := by
  rw [run_generate_of_counted usable counted, Surroundings.ofRequest]
  constructor
  · intro succeeds
    cases parsed : Grammar.parse alphabet round.expression with
    | error error =>
        exact absurd succeeds ((code_run_parse usable input).mpr ⟨error, parsed⟩)
    | ok expr =>
        have answered := Request.answer_eq_arrange
          (show Grammar.parse (Request.plain alphabet round.expression number).alphabet _ = _
            from parsed)
        simp only [answered]
        rfl
  · intro fails
    obtain ⟨error, unreadable⟩ := (code_run_parse usable input).mp fails
    rw [run_parse_of_error usable unreadable, Request.answer]
    simp only [Request.plain, unreadable]

/-! ### Commands and rounds -/

theorem Surroundings.Delivers.run_eq {arguments : List String} {command : Command}
    (delivers : surroundings.Delivers arguments command) (input : List UInt8) :
    surroundings.run arguments input = command.run surroundings input := by
  rw [Surroundings.run, show surroundings.read arguments = .ok command from delivers]

/-- The texts of a round tell the same as arguments of `generate` and as lines of a dialogue,
whatever is said later in it: words, or one error.  `parse` fails exactly if the expression is
none, and with a usable count `generate` fails just so.  The surroundings may be any that show an
error without a cause as its message. -/
theorem generate_agrees_with_dialogue {surroundings : Surroundings}
    (layOutAlone : ∀ message, surroundings.layOut message none = message) {round : Round}
    (stays : round.alphabet ∉ ["", "quit", "exit"])
    (fits : ∀ text ∈ round.texts, Text.FitsLine text) :
    ∃ alphabet notice warning told, Alphabet.ofText round.alphabet = .ok alphabet ∧
      Notes alphabet notice ∧ Warns alphabet warning ∧
      (∀ rest : List UInt8,
        Dialogue.run (round.texts.flatMap Text.typed ++ rest) =
          (Dialogue.run rest).behind ("alphabet> " ++ warning ++ "expression> count> " ++ told) ∧
        ∃ later, (Dialogue.run rest).output = "alphabet> " ++ later) ∧
      ∀ input : List UInt8,
        (∀ arguments, surroundings.Delivers arguments (generateCommand round) →
          TellsAlike notice (surroundings.run arguments input) told) ∧
        ∀ others, surroundings.Delivers others (parseCommand round) →
          ((surroundings.run others input).code ≠ 0 ↔
            ∃ error, Grammar.parse alphabet round.expression = .error error) ∧
          ∀ arguments, surroundings.Delivers arguments (generateCommand round) →
            ∀ number, Count.ofText round.count = .ok number →
              ((surroundings.run others input).code = 0 →
                (surroundings.run arguments input).code = 0) ∧
              ((surroundings.run others input).code ≠ 0 →
                surroundings.run others input = surroundings.run arguments input) := by
  have noFarewell : Dialogue.isFarewell round.alphabet = false := by
    simpa [Dialogue.isFarewell, and_assoc] using stays
  obtain ⟨alphabet, usable⟩ := Dialogue.exists_alphabet noFarewell
  refine ⟨alphabet, _, _, Dialogue.conclusion alphabet round.expression round.count, usable,
    notes_warningLine alphabet, Dialogue.warns_operatorWarning alphabet, ?_, ?_⟩
  · intro rest
    exact ⟨Dialogue.run_typed noFarewell fits usable rest, Dialogue.exists_output_run rest⟩
  · intro input
    constructor
    · intro arguments delivers
      rw [delivers.run_eq]
      exact tellsAlike_conclusion layOutAlone usable input
    · intro others othersDeliver
      rw [othersDeliver.run_eq]
      refine ⟨code_run_parse usable input, ?_⟩
      intro arguments delivers number counted
      rw [delivers.run_eq]
      exact run_generate_of_run_parse usable counted input

/-- Over `a+` the text `(a` is no expression, and that is told alike three times. -/
theorem generate_agrees_with_dialogue_unmatched_paren :
    let round : Round := ⟨"a+", "(a", "2"⟩
    let arguments := ["generate", "-a", "a+", "--expr=(a", "-n2"]
    let others := ["parse", "-e(a", "--alphabet", "a+"]
    (usual.run others []).code ≠ 0 ∧ usual.run others [] = usual.run arguments [] ∧
      ∃ notice warning told, TellsAlike notice (usual.run arguments []) told ∧
        Dialogue.run (round.texts.flatMap Text.typed ++ [10]) =
          (Dialogue.run [10]).behind
            ("alphabet> " ++ warning ++ "expression> count> " ++ told) := by
  intro round arguments others
  have fits : ∀ text ∈ round.texts, Text.FitsLine text := by
    simp only [round, Round.texts, List.forall_mem_cons]
    exact ⟨⟨by decide, by decide⟩, ⟨by decide, by decide⟩, ⟨by decide, by decide⟩,
      List.forall_mem_nil _⟩
  have layOutAlone : ∀ message, usual.layOut message none = message := fun _ => rfl
  have delivers : usual.Delivers arguments (generateCommand round) := by
    unfold Surroundings.Delivers
    decide +kernel
  have othersDeliver : usual.Delivers others (parseCommand round) := by
    unfold Surroundings.Delivers
    decide +kernel
  obtain ⟨alphabet, notice, warning, told, usable, _, _, shows, agrees⟩ :=
    generate_agrees_with_dialogue layOutAlone
      (show round.alphabet ∉ ["", "quit", "exit"] by decide) fits
  obtain ⟨tells, parses⟩ := agrees []
  obtain ⟨failing, failsAlike⟩ := parses others othersDeliver
  have isAlphabet : alphabet = ⟨['a', '+'], by decide, by decide⟩ := by
    have symbols : alphabet.symbols = ['a', '+'] := by
      rw [Alphabet.symbols_of_ofList usable, Distinct.firsts_eq_eraseDups]
      decide +kernel
    cases alphabet
    cases symbols
    rfl
  have unreadable : Grammar.parse alphabet round.expression =
      .error (.unmatchedParen ⟨0⟩ ⟨2⟩ none) := by
    rw [isAlphabet]
    decide +kernel
  have fails : (usual.run others []).code ≠ 0 := failing.mpr ⟨_, unreadable⟩
  obtain ⟨_, same⟩ :=
    failsAlike arguments delivers { number := 2, positive := by decide } (by decide +kernel)
  exact ⟨fails, same fails, notice, warning, told, tells arguments delivers, (shows [10]).1⟩

end RegularWords.CommandLine
