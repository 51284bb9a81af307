import RegularWords.Proofs.Answers
import RegularWords.Proofs.EarliestError

/-!
Texts over a larger alphabet.

The parser asks for the alphabet only where a factor has to start.  Two alphabets lead it apart there
at a character that is a symbol of the larger one alone, and over the smaller one it fails at once.
So a larger alphabet changes what comes of a text exactly if the text failed at a character that is a
symbol now, even where the symbols that are added are operators.
-/

namespace RegularWords.Grammar

variable {alphabet larger : Alphabet} {start : Cursor}

/-! ### Rules in step -/

def Reading.FailsAtSymbol (larger : Alphabet) (reading : Reading start) : Prop :=
  ∃ position character visits, reading = .failed (.unexpectedChar position character) visits ∧
    character ∈ larger.symbols

/-- What may become of a reading over a larger alphabet: nothing else, unless it failed at a
character that is a symbol there. -/
def Reading.Carries (larger : Alphabet) (reading other : Reading start) : Prop :=
  other = reading ∨ reading.FailsAtSymbol larger

def Rule.Carries (larger : Alphabet) (rule other : Rule) : Prop :=
  ∀ start : Cursor, (rule start).Carries larger (other start)

theorem Reading.failed_carries {position : Position} {character : Char}
    (isAdded : character ∈ larger.symbols) (visits : List Visit) (other : Reading start) :
    (Reading.failed (.unexpectedChar position character) visits).Carries larger other :=
  .inr ⟨_, _, _, rfl, isAdded⟩

theorem primary_carries (included : alphabet.symbols ⊆ larger.symbols)
    {group other : Position → Rule}
    (groupsCarry : ∀ opened, (group opened).Carries larger (other opened)) :
    (primary alphabet group).Carries larger (primary larger other) := by
  rintro ⟨_ | ⟨character, rest⟩, position⟩
  · exact .inl rfl
  · unfold primary
    simp only [Cursor.advance]
    by_cases isOpening : character = '('
    · rw [if_pos isOpening, if_pos isOpening]
      rcases groupsCarry position { rest, position := position.next } with
        same | ⟨blamed, symbol, visits, failed, isAdded⟩
      · rw [same]
        exact .inl rfl
      · rw [failed]
        exact Reading.failed_carries isAdded _ _
    · rw [if_neg isOpening, if_neg isOpening]
      by_cases isEmptyWord : character = '@'
      · rw [if_pos isEmptyWord, if_pos isEmptyWord]
        exact .inl rfl
      · rw [if_neg isEmptyWord, if_neg isEmptyWord]
        by_cases isSymbol : alphabet.contains character = true
        · have isSymbolThere : larger.contains character = true :=
            Alphabet.contains_iff.mpr (included (Alphabet.contains_iff.mp isSymbol))
          rw [if_pos isSymbol, if_pos isSymbolThere]
          exact .inl rfl
        · rw [if_neg isSymbol]
          by_cases isAdded : larger.contains character = true
          · exact Reading.failed_carries (Alphabet.contains_iff.mp isAdded) _ _
          · rw [if_neg isAdded]
            exact .inl rfl

theorem repeated_carries {part other : Rule} (partsCarry : part.Carries larger other) :
    (repeated part).Carries larger (repeated other) := by
  intro start
  unfold repeated
  rcases partsCarry start with same | ⟨position, character, visits, failed, isAdded⟩
  · rw [same]
    exact .inl rfl
  · rw [failed]
    exact Reading.failed_carries isAdded _ _

variable {operator : ChainOperator} {operand other : Rule}

theorem operandsFrom_carries (operandsCarry : operand.Carries larger other) {here : Cursor}
    (operands : List Subtree) (visits : List Visit) (closer : here.remaining < start.remaining) :
    (operandsFrom operator operand operands visits here closer).Carries larger
      (operandsFrom operator other operands visits here closer) := by
  rw [operandsFrom, operandsFrom]
  split
  · exact .inl rfl
  · rename_i there notFarther goesOn
    rcases operandsCarry there with same | ⟨position, character, inside, failed, isAdded⟩
    · rw [same]
      split
      · exact .inl rfl
      · rename_i subtree inside next shorter read
        have nextCloser : next.remaining < here.remaining := Nat.lt_of_lt_of_le shorter notFarther
        exact operandsFrom_carries operandsCarry _ _ (Nat.lt_trans nextCloser closer)
    · rw [failed]
      exact Reading.failed_carries isAdded _ _
termination_by here.remaining

theorem chain_carries (operandsCarry : operand.Carries larger other) :
    (chain operator operand).Carries larger (chain operator other) := by
  intro start
  unfold chain
  rcases operandsCarry start with same | ⟨position, character, inside, failed, isAdded⟩
  · rw [same]
    split
    · exact .inl rfl
    · exact operandsFrom_carries operandsCarry _ _ _
  · rw [failed]
    exact Reading.failed_carries isAdded _ _

theorem union_carries (included : alphabet.symbols ⊆ larger.symbols)
    {group other : Position → Rule}
    (groupsCarry : ∀ opened, (group opened).Carries larger (other opened)) :
    (union alphabet group).Carries larger (union larger other) :=
  chain_carries (chain_carries (repeated_carries (primary_carries included groupsCarry)))

theorem group_carries (included : alphabet.symbols ⊆ larger.symbols) (room : Nat)
    (opened : Position) :
    (group alphabet room opened).Carries larger (group larger room opened) := by
  induction room generalizing opened with
  | zero => exact fun start => .inl rfl
  | succ room inductionHypothesis =>
      intro start
      simp only [group]
      rcases union_carries included inductionHypothesis start with
        same | ⟨position, character, visits, failed, isAdded⟩
      · rw [same]
        exact .inl rfl
      · rw [failed]
        exact Reading.failed_carries isAdded _ _

/-! ### Whole texts -/

/-- Over a larger alphabet a text is read with the same visits and the same outcome, unless it
failed at a character that is a symbol there. -/
theorem parsing_eq_or_unexpectedChar (included : alphabet.symbols ⊆ larger.symbols)
    (text : List Char) :
    parsing larger text = parsing alphabet text ∨
      ∃ position character, (parsing alphabet text).outcome =
        .error (.unexpectedChar position character) ∧ character ∈ larger.symbols := by
  unfold parsing
  rcases union_carries included (group_carries included depthLimit) (Cursor.ofList text) with
    same | ⟨position, character, visits, failed, isAdded⟩
  · rw [same]
    exact .inl rfl
  · rw [failed]
    exact .inr ⟨position, character, rfl, isAdded⟩

theorem parse_ne_iff_unexpectedChar (included : alphabet.symbols ⊆ larger.symbols)
    (text : String) :
    parse larger text ≠ parse alphabet text ↔
      ∃ position character, parse alphabet text = .error (.unexpectedChar position character) ∧
        character ∈ larger.symbols := by
  constructor
  · intro apart
    rcases parsing_eq_or_unexpectedChar included text.toList with
      same | ⟨position, character, failed, isAdded⟩
    · refine absurd ?_ apart
      rw [parse, parse, same]
    · exact ⟨position, character, parse_eq_error_iff.mpr failed, isAdded⟩
  · rintro ⟨position, character, failed, isAdded⟩ same
    rw [failed] at same
    exact (of_parse_eq_unexpectedChar same).2 isAdded

theorem parse_eq_of_subset (included : alphabet.symbols ⊆ larger.symbols)
    (noneAdded : larger.symbols ⊆ alphabet.symbols) (text : String) :
    parse larger text = parse alphabet text := by
  by_contra apart
  obtain ⟨position, character, failed, isAdded⟩ :=
    (parse_ne_iff_unexpectedChar included text).mp apart
  exact (of_parse_eq_unexpectedChar failed).2 (noneAdded isAdded)

theorem parse_eq_ok_of_subset (included : alphabet.symbols ⊆ larger.symbols) {text : String}
    {expr : Expr} (readable : parse alphabet text = .ok expr) :
    parse larger text = .ok expr := by
  rw [← readable]
  by_contra apart
  obtain ⟨position, character, failed, _⟩ :=
    (parse_ne_iff_unexpectedChar included text).mp apart
  cases readable.symm.trans failed

end RegularWords.Grammar

namespace RegularWords.Request

variable {larger : Alphabet} (request : Request)

/-! ### Answers -/

/-- Over a larger alphabet a request for the words of an expression is answered by the same words.
Only sorting may put them in another order. -/
theorem exists_answers_of_subset (included : request.alphabet.symbols ⊆ larger.symbols)
    {expr : Expr} (readable : Grammar.parse request.alphabet request.expression = .ok expr) :
    ∃ words others, request.Answers (.ok words) ∧
      { request with alphabet := larger }.Answers (.ok others) ∧ others.Perm words ∧
        (request.sorted = false → others = words) := by
  let changed : Request := { request with alphabet := larger }
  have readableThere : Grammar.parse changed.alphabet changed.expression = .ok expr :=
    Grammar.parse_eq_ok_of_subset included readable
  let taken := (expr.words.take request.count.number).1
  refine ⟨request.arrange taken, changed.arrange taken, request.answers_arrange readable,
    changed.answers_arrange readableThere, ?_, ?_⟩
  · exact (changed.perm_arrange taken).trans (request.perm_arrange taken).symm
  · intro unsorted
    exact ((changed.arranges_arrange taken).asTaken unsorted).trans
      ((request.arranges_arrange taken).asTaken unsorted).symm

end RegularWords.Request

namespace RegularWords.Grammar

/-- A larger alphabet changes what comes of a text exactly if the text failed at a character that is
a symbol now, and the order of the symbols makes no difference.  So the words of an expression are
the same over all alphabets with its symbols, up to their order if they are sorted. -/
theorem parse_over_larger_alphabet {alphabet larger : Alphabet}
    (included : alphabet.symbols ⊆ larger.symbols) :
    (∀ text : String, parse larger text ≠ parse alphabet text ↔
      ∃ position character, parse alphabet text = .error (.unexpectedChar position character) ∧
        character ∈ larger.symbols) ∧
      (larger.symbols ⊆ alphabet.symbols →
        ∀ text : String, parse larger text = parse alphabet text) ∧
        ∀ (request : Request) (expr : Expr), request.alphabet = alphabet →
          parse alphabet request.expression = .ok expr →
            ∃ words others, request.Answers (.ok words) ∧
              { request with alphabet := larger }.Answers (.ok others) ∧ others.Perm words ∧
                (request.sorted = false → others = words) := by
  refine ⟨parse_ne_iff_unexpectedChar included, parse_eq_of_subset included, ?_⟩
  rintro request expr rfl readable
  exact request.exists_answers_of_subset included readable

/-- With the operators as symbols, `(b+a)*` is what it was, and only the third character of `a(+)` is
no longer refused.  The alphabets `ba` and `ab` read the same texts. -/
theorem parse_over_larger_alphabet_operators :
    let alphabet : Alphabet := ⟨['b', 'a'], by decide, by decide⟩
    let turned : Alphabet := ⟨['a', 'b'], by decide, by decide⟩
    let larger : Alphabet := ⟨['a', '+', '*', ')', '(', '@', 'b'], by decide, by decide⟩
    let request : Request := .plain alphabet "(b+a)*" { number := 3, positive := by decide }
    alphabet.symbols ⊆ larger.symbols ∧
      parse alphabet "a(+)" = .error (.unexpectedChar ⟨2⟩ '+') ∧
      parse larger "a(+)" ≠ parse alphabet "a(+)" ∧
      parse turned "a(+)" = parse alphabet "a(+)" ∧
      parse alphabet request.expression = .ok (.star (.union [.literal 'b', .literal 'a'])) ∧
      ∃ words others, request.Answers (.ok words) ∧
        { request with alphabet := larger }.Answers (.ok others) ∧ others.Perm words := by
  intro alphabet turned larger request
  have included : alphabet.symbols ⊆ larger.symbols := by decide
  have turnedIncluded : alphabet.symbols ⊆ turned.symbols := by decide
  have failed : parse alphabet "a(+)" = .error (.unexpectedChar ⟨2⟩ '+') := by decide +kernel
  have readable : parse alphabet request.expression =
      .ok (.star (.union [.literal 'b', .literal 'a'])) := by decide +kernel
  obtain ⟨changes, _, answers⟩ := parse_over_larger_alphabet included
  obtain ⟨words, others, answered, answeredThere, arranged, _⟩ := answers request _ rfl readable
  have turnedSame := (parse_over_larger_alphabet turnedIncluded).2.1 (by decide) "a(+)"
  exact ⟨included, failed, (changes _).mpr ⟨_, _, failed, by decide⟩, turnedSame, readable,
    words, others, answered, answeredThere, arranged⟩

end RegularWords.Grammar
