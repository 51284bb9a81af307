import RegularWords.Dialogue
import RegularWords.Proofs.Termination

/-!
The rounds of a dialogue.

A round reads three lines, whatever they are worth, and what it shows depends on nothing else.  So
the output for some rounds is what they show one after the other, and behind them the dialogue goes
on as if it had just begun.
-/

namespace RegularWords

/-! ### Lines at the beginning of an input -/

namespace Text

/-- The first lines of an input and the input behind them.  A newline ends every line, but at the
end of the input there need not be one. -/
inductive Leads : List ByteLine → List UInt8 → List UInt8 → Prop where
  | none {rest : List UInt8} : Leads [] rest rest
  | line (content : List UInt8) {input rest : List UInt8} {lines : List ByteLine}
      (noNewline : 10 ∉ content) (later : Leads lines rest input) :
      Leads ((content ++ [10]) :: lines) rest (content ++ 10 :: input)
  | last (content : List UInt8) (noNewline : 10 ∉ content) (someByte : content ≠ []) :
      Leads [content] [] content

theorem byteLines_append_newline {content : List UInt8} (noNewline : 10 ∉ content)
    (input : List UInt8) :
    byteLines (content ++ 10 :: input) = (content ++ [10]) :: byteLines input := by
  induction content with
  | nil => rfl
  | cons byte content inductionHypothesis =>
      have other : byte ≠ 10 := (List.ne_of_not_mem_cons noNewline).symm
      rw [List.cons_append, byteLines, if_neg other,
        inductionHypothesis (List.not_mem_of_not_mem_cons noNewline)]
      rfl

theorem byteLines_of_no_newline {content : List UInt8} (noNewline : 10 ∉ content)
    (someByte : content ≠ []) : byteLines content = [content] := by
  induction content with
  | nil => exact absurd rfl someByte
  | cons byte content inductionHypothesis =>
      have other : byte ≠ 10 := (List.ne_of_not_mem_cons noNewline).symm
      rw [byteLines, if_neg other]
      cases content with
      | nil => rfl
      | cons next content =>
          rw [inductionHypothesis (List.not_mem_of_not_mem_cons noNewline) (List.cons_ne_nil _ _)]
          rfl

theorem Leads.byteLines_eq {lines : List ByteLine} {rest input : List UInt8}
    (leads : Leads lines rest input) : byteLines input = lines ++ byteLines rest := by
  induction leads with
  | none => rfl
  | line content noNewline _ inductionHypothesis =>
      rw [byteLines_append_newline noNewline, inductionHypothesis, List.cons_append]
  | last content noNewline someByte => exact byteLines_of_no_newline noNewline someByte

end Text

namespace Dialogue

open Text (ByteLine)

/-! ### What a round shows -/

structure Round where
  alphabet : String
  expression : String
  count : String

def Round.texts (round : Round) : List String :=
  [round.alphabet, round.expression, round.count]

inductive Warns (alphabet : Alphabet) : String → Prop where
  | silent (none : alphabet.Reserves []) : Warns alphabet ""
  | warning {listed : List Char} (reserves : alphabet.Reserves listed) (some : listed ≠ []) :
      Warns alphabet ("warning: alphabet contains operator symbols " ++
        Text.quotedText (String.ofList listed) ++
          "; they act as operators outside factor positions\n")

/-- What comes of an expression and a count: an error of the count, or else of the expression, or
else the words, a line for each. -/
inductive Concludes (alphabet : Alphabet) (expression count : String) : String → Prop where
  | noCount {error : InputError} (refused : Count.ofText count = .error error) :
      Concludes alphabet expression count ("error: " ++ error.message ++ "\n")
  | noExpression {number : Count} {failure : Failure} (counted : Count.ofText count = .ok number)
      (answers : (Request.plain alphabet expression number).Answers (.error failure)) :
      Concludes alphabet expression count ("error: " ++ failure.report expression ++ "\n")
  | words {number : Count} {words : List Word} (counted : Count.ofText count = .ok number)
      (answers : (Request.plain alphabet expression number).Answers (.ok words)) :
      Concludes alphabet expression count (String.join (words.map fun word => word.render ++ "\n"))

inductive Round.Shows (round : Round) : String → Prop where
  | block {alphabet : Alphabet} {warning result : String}
      (usable : Alphabet.ofText round.alphabet = .ok alphabet) (warns : Warns alphabet warning)
      (concludes : Concludes alphabet round.expression round.count result) :
      Shows round ("alphabet> " ++ warning ++ "expression> count> " ++ result)

theorem warns_operatorWarning (alphabet : Alphabet) :
    Warns alphabet (operatorWarning alphabet) := by
  unfold operatorWarning
  rcases alphabet.operatorNotice?_cases with ⟨none, silent⟩ | ⟨listed, reserves, some, notice⟩
  · rw [silent]
    exact .silent none
  · rw [notice]
    exact .warning reserves some

theorem Warns.unique {alphabet : Alphabet} {first second : String} (firstWarns : Warns alphabet first)
    (secondWarns : Warns alphabet second) : first = second := by
  cases firstWarns with
  | silent none =>
      cases secondWarns with
      | silent _ => rfl
      | warning reserves some => exact absurd (reserves.unique none) some
  | warning reserves some =>
      cases secondWarns with
      | silent none => exact absurd (reserves.unique none) some
      | warning reservesAgain _ => rw [reserves.unique reservesAgain]

theorem concludes_conclusion (alphabet : Alphabet) (expression count : String) :
    Concludes alphabet expression count (conclusion alphabet expression count) := by
  unfold conclusion
  cases counted : Count.ofText count with
  | error error => exact .noCount counted
  | ok number =>
      have answers := (Request.plain alphabet expression number).answers_answer
      cases answered : (Request.plain alphabet expression number).answer with
      | error failure =>
          rw [answered] at answers
          simp only [answered]
          exact .noExpression counted answers
      | ok words =>
          rw [answered] at answers
          simp only [answered]
          exact .words counted answers

theorem answer_eq_of_answers {request : Request} {result : Except Failure (List Word)}
    (answers : request.Answers result) : request.answer = result := by
  cases answers with
  | refused unreadable => rw [Request.answer, unreadable]
  | given readable takes => rw [Request.answer_eq_arrange readable, takes.take_eq]

theorem Concludes.eq_conclusion {alphabet : Alphabet} {expression count result : String}
    (concludes : Concludes alphabet expression count result) :
    result = conclusion alphabet expression count := by
  unfold conclusion
  cases concludes with
  | noCount refused => rw [refused]; rfl
  | noExpression counted answers => rw [counted]; simp only [answer_eq_of_answers answers]; rfl
  | words counted answers => rw [counted]; simp only [answer_eq_of_answers answers]; rfl

theorem Round.Shows.unique {round : Round} {first second : String} (firstShows : round.Shows first)
    (secondShows : round.Shows second) : first = second := by
  obtain ⟨usable, firstWarns, firstConcludes⟩ := firstShows
  obtain ⟨usableAgain, secondWarns, secondConcludes⟩ := secondShows
  cases usable.symm.trans usableAgain
  rw [firstWarns.unique secondWarns, firstConcludes.eq_conclusion, secondConcludes.eq_conclusion]

/-! ### From line to line -/

/-- A line that does not end the dialogue is an alphabet. -/
theorem exists_alphabet {line : String} (stays : isFarewell line = false) :
    ∃ alphabet, Alphabet.ofText line = .ok alphabet := by
  apply Alphabet.exists_ofList
  intro nothing
  rw [String.toList_eq_nil_iff] at nothing
  rw [nothing] at stays
  exact absurd stays (by decide)

theorem Transcript.behind_behind (transcript : Transcript) (first second : String) :
    (transcript.behind second).behind first = transcript.behind (first ++ second) := by
  unfold behind
  rw [String.append_assoc]

theorem converse_cons {dialogue : Dialogue} (isOpen : dialogue ≠ .closed) {line : ByteLine}
    {text : String} (decoded : line.text? = some text) (lines : List ByteLine) :
    converse dialogue (line :: lines) =
      (converse (dialogue.hear text).2 lines).behind
        (dialogue.prompt ++ (dialogue.hear text).1) := by
  cases dialogue with
  | closed => exact absurd rfl isOpen
  | opening => simp only [converse, decoded]
  | withAlphabet alphabet => simp only [converse, decoded]
  | withExpression alphabet expression => simp only [converse, decoded]

theorem converse_nil (dialogue : Dialogue) :
    converse dialogue [] = { output := dialogue.prompt, ending := .finished } := by
  cases dialogue <;> rfl

theorem converse_of_undecodable {dialogue : Dialogue} (isOpen : dialogue ≠ .closed)
    {line : ByteLine} (noText : line.text? = none) (lines : List ByteLine) :
    converse dialogue (line :: lines) =
      { output := dialogue.prompt, ending := .undecodable } := by
  cases dialogue with
  | closed => exact absurd rfl isOpen
  | opening => simp only [converse, noText]
  | withAlphabet alphabet => simp only [converse, noText]
  | withExpression alphabet expression => simp only [converse, noText]

theorem hear_opening {line : String} {alphabet : Alphabet} (stays : isFarewell line = false)
    (usable : Alphabet.ofText line = .ok alphabet) :
    hear .opening line = (operatorWarning alphabet, .withAlphabet alphabet) := by
  rw [hear, stays, usable]
  rfl

/-! ### From round to round -/

/-- The lines in which rounds are written.  None of the rounds begins with a farewell. -/
inductive Written : List Round → List ByteLine → Prop where
  | none : Written [] []
  | round {round : Round} {rounds : List Round} {first second third : ByteLine}
      {lines : List ByteLine} (alphabet : first.text? = some round.alphabet)
      (stays : isFarewell round.alphabet = false)
      (expression : second.text? = some round.expression) (count : third.text? = some round.count)
      (later : Written rounds lines) :
      Written (round :: rounds) (first :: second :: third :: lines)

/-- A round takes three lines, shows its block and leaves the dialogue as it was. -/
theorem exists_shows {round : Round} (stays : isFarewell round.alphabet = false)
    {first second third : ByteLine} (firstText : first.text? = some round.alphabet)
    (secondText : second.text? = some round.expression) (thirdText : third.text? = some round.count)
    (lines : List ByteLine) :
    ∃ block, round.Shows block ∧
      converse .opening (first :: second :: third :: lines) =
        (converse .opening lines).behind block := by
  obtain ⟨alphabet, usable⟩ := exists_alphabet stays
  refine ⟨_, .block usable (warns_operatorWarning alphabet)
    (concludes_conclusion alphabet round.expression round.count), ?_⟩
  rw [converse_cons Dialogue.noConfusion firstText, hear_opening stays usable,
    converse_cons Dialogue.noConfusion secondText, hear,
    converse_cons Dialogue.noConfusion thirdText, hear,
    Transcript.behind_behind, Transcript.behind_behind]
  congr 1
  simp only [prompt, String.append_assoc, String.empty_append]
  rfl

theorem converse_rounds {rounds : List Round} {lines : List ByteLine}
    (written : Written rounds lines) (later : List ByteLine) :
    ∃ blocks, List.Forall₂ Round.Shows rounds blocks ∧
      converse .opening (lines ++ later) =
        (converse .opening later).behind (String.join blocks) := by
  induction written with
  | none => exact ⟨[], .nil, by rw [String.join_nil, Transcript.behind, String.empty_append]; rfl⟩
  | @round round rounds first second third lines alphabet stays expression count _
      inductionHypothesis =>
      obtain ⟨blocks, shown, continued⟩ := inductionHypothesis
      obtain ⟨block, shows, converses⟩ :=
        exists_shows stays alphabet expression count (lines ++ later)
      refine ⟨block :: blocks, .cons shows shown, ?_⟩
      rw [List.cons_append, List.cons_append, List.cons_append, converses, continued,
        Transcript.behind_behind, String.join_cons]

/-! ### Dialogues end -/

inductive Hears : Dialogue → String → String → Dialogue → Prop where
  | farewell {line : String} (leaves : isFarewell line = true) : Hears .opening line "" .closed
  | alphabet {line : String} {alphabet : Alphabet} (stays : isFarewell line = false)
      (usable : Alphabet.ofText line = .ok alphabet) :
      Hears .opening line (operatorWarning alphabet) (.withAlphabet alphabet)
  | expression {alphabet : Alphabet} {line : String} :
      Hears (.withAlphabet alphabet) line "" (.withExpression alphabet line)
  | count {alphabet : Alphabet} {expression line result : String}
      (concludes : Concludes alphabet expression line result) :
      Hears (.withExpression alphabet expression) line result .opening

inductive Ends : Dialogue → List ByteLine → Transcript → Prop where
  | closed {lines : List ByteLine} : Ends .closed lines { output := "", ending := .finished }
  | noLine {dialogue : Dialogue} (isOpen : dialogue ≠ .closed) :
      Ends dialogue [] { output := dialogue.prompt, ending := .finished }
  | undecodable {dialogue : Dialogue} {line : ByteLine} {lines : List ByteLine}
      (isOpen : dialogue ≠ .closed) (noText : line.text? = none) :
      Ends dialogue (line :: lines) { output := dialogue.prompt, ending := .undecodable }
  | line {dialogue next : Dialogue} {line : ByteLine} {lines : List ByteLine}
      {text shown : String} {transcript : Transcript} (decoded : line.text? = some text)
      (hears : Hears dialogue text shown next) (later : Ends next lines transcript) :
      Ends dialogue (line :: lines) (transcript.behind (dialogue.prompt ++ shown))

theorem hears_hear {dialogue : Dialogue} (isOpen : dialogue ≠ .closed) (line : String) :
    Hears dialogue line (dialogue.hear line).1 (dialogue.hear line).2 := by
  cases dialogue with
  | closed => exact absurd rfl isOpen
  | opening =>
      cases stays : isFarewell line with
      | true =>
          rw [hear, if_pos stays]
          exact .farewell stays
      | false =>
          obtain ⟨alphabet, usable⟩ := exists_alphabet stays
          rw [hear_opening stays usable]
          exact .alphabet stays usable
  | withAlphabet alphabet => exact .expression
  | withExpression alphabet expression =>
      exact .count (concludes_conclusion alphabet expression line)

theorem ends_converse (dialogue : Dialogue) (lines : List ByteLine) :
    Ends dialogue lines (converse dialogue lines) := by
  induction lines generalizing dialogue with
  | nil =>
      by_cases isClosed : dialogue = .closed
      · rw [isClosed]
        exact .closed
      · rw [converse_nil]
        exact .noLine isClosed
  | cons line lines inductionHypothesis =>
      by_cases isClosed : dialogue = .closed
      · rw [isClosed, converse]
        exact .closed
      · cases decoded : line.text? with
        | none =>
            rw [converse_of_undecodable isClosed decoded]
            exact .undecodable isClosed decoded
        | some text =>
            rw [converse_cons isClosed decoded]
            exact .line decoded (hears_hear isClosed text) (inductionHypothesis _)

/-- The output for rounds at the beginning of an input is one block for each, behind which the
dialogue goes on as it would with the rest alone.  A block is settled by the three lines of its
round, every alphabet line is usable unless it ends the dialogue, and a dialogue ends. -/
theorem run_rounds :
    (∀ {rounds : List Round} {lines : List ByteLine} {input rest : List UInt8},
      Text.Leads lines rest input → Written rounds lines →
        ∃ blocks, List.Forall₂ Round.Shows rounds blocks ∧
          run input = (run rest).behind (String.join blocks)) ∧
      (∀ {round : Round} {first second : String},
        round.Shows first → round.Shows second → first = second) ∧
        (∀ {line : String}, isFarewell line = false →
          ∃ alphabet, Alphabet.ofText line = .ok alphabet) ∧
          ∀ input : List UInt8, Ends .opening (Text.byteLines input) (run input) := by
  refine ⟨?_, Round.Shows.unique, exists_alphabet, fun input => ends_converse _ _⟩
  intro rounds lines input rest leads written
  unfold run
  rw [leads.byteLines_eq]
  exact converse_rounds written _

/-- The rounds `a+`, `(+)a`, `2` with a carriage return and `ab`, `(a`, `3`, and then `quit`. -/
theorem run_rounds_warning_and_error :
    let rounds : List Round := [⟨"a+", "(+)a", "2"⟩, ⟨"ab", "(a", "3"⟩]
    let input : List UInt8 :=
      [97, 43, 13, 10, 40, 43, 41, 97, 10, 50, 10, 97, 98, 10, 40, 97, 10, 51, 10,
        113, 117, 105, 116, 10]
    ∃ blocks, List.Forall₂ Round.Shows rounds blocks ∧
      run input = (run [113, 117, 105, 116, 10]).behind (String.join blocks) := by
  intro rounds input
  have leads : Text.Leads
      [[97, 43, 13, 10], [40, 43, 41, 97, 10], [50, 10], [97, 98, 10], [40, 97, 10], [51, 10]]
      [113, 117, 105, 116, 10] input :=
    .line [97, 43, 13] (by decide) <| .line [40, 43, 41, 97] (by decide) <|
      .line [50] (by decide) <| .line [97, 98] (by decide) <| .line [40, 97] (by decide) <|
        .line [51] (by decide) .none
  have written : Written rounds
      [[97, 43, 13, 10], [40, 43, 41, 97, 10], [50, 10], [97, 98, 10], [40, 97, 10], [51, 10]] :=
    .round (by decide +kernel) (by decide) (by decide +kernel) (by decide +kernel)
      (.round (by decide +kernel) (by decide) (by decide +kernel) (by decide +kernel) .none)
  exact run_rounds.1 leads written

end Dialogue

end RegularWords
