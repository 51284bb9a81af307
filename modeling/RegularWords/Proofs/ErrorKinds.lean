import RegularWords.Proofs.EarliestError

/-!
What the errors of texts say.

A closing parenthesis closes nothing exactly if an expression ends before it.  The other errors, but
for depth, show where a reader from the left comes to a standstill: at a place where a factor has to
start, or at the end of the text inside a group.  A union never stops before anything but a closing
parenthesis or the end, so two branches of the parser are never taken.
-/

namespace RegularWords.Grammar

variable {alphabet : Alphabet} {error : SyntaxError} {text : String}

def FactorPosition (alphabet : Alphabet) (text : List Char) (position : Position) : Prop :=
  ∃ standing, Standing.start.readAll alphabet (text.take position.offset) = some standing ∧
    standing.AtFactor text[position.offset]?

/-- Of the groups that are open at the end of a text, the innermost was opened at a place. -/
def InnermostOpen (alphabet : Alphabet) (text : List Char) (opened : Position) : Prop :=
  ∃ standing, Standing.start.readAll alphabet text = some standing ∧
    standing.opened.head? = some opened

/-! ### Standstills -/

theorem Fault.cases_stuck {next : Option Char} {read : List Char}
    (fault : Fault alphabet next read error) :
    (∃ reached, Standing.start.readAll alphabet read = some reached ∧
        reached.Stuck alphabet next error) ∨
      (next = some ')' ∧ error = .unmatchedCloseParen { offset := read.length } ∧
        ∃ expr, parse alphabet (String.ofList read) = .ok expr) := by
  cases fault with
  | broken fits => exact .inl (UnionBreak.stuck_from_start fits)
  | @closing derivation fits isClosing =>
      refine .inr ⟨isClosing, rfl, derivation.subtree.expr, parse_eq_ok_iff.mpr ⟨derivation, ?_, rfl⟩⟩
      exact ⟨fits.valid, fits.groups, fits.height, String.toList_ofList.symm⟩

/-- An error shows at the next character, or at the end of the text. -/
theorem exists_fault_of_parse_eq_error (failed : parse alphabet text = .error error)
    (shallow : ¬ error.TooDeep) :
    Fault alphabet text.toList[error.position.offset]? (text.toList.take error.position.offset)
      error ∧ error.position.offset ≤ text.toList.length := by
  obtain ⟨read, rest, split, fault⟩ := (parse_eq_error_iff_fault shallow).mp failed
  rw [split, fault.offset_eq, List.take_left, List.getElem?_append_right (Nat.le_refl _),
    Nat.sub_self, ← List.head?_eq_getElem?, List.length_append]
  exact ⟨fault, Nat.le_add_right _ _⟩

/-- An error that is neither for depth nor at a closing parenthesis shows where a reader is stuck. -/
theorem exists_stuck_of_parse_eq_error (failed : parse alphabet text = .error error)
    (shallow : ¬ error.TooDeep) (notClosing : ∀ position, error ≠ .unmatchedCloseParen position) :
    error.position.offset ≤ text.toList.length ∧ ∃ reached,
      Standing.start.readAll alphabet (text.toList.take error.position.offset) = some reached ∧
        reached.Stuck alphabet text.toList[error.position.offset]? error := by
  obtain ⟨fault, inside⟩ := exists_fault_of_parse_eq_error failed shallow
  rcases fault.cases_stuck with stuck | ⟨_, isClosing, _⟩
  · exact ⟨inside, stuck⟩
  · exact absurd isClosing (notClosing _)

/-! ### Kinds of errors -/

/-- A closing parenthesis closes nothing exactly if an expression ends before it. -/
theorem parse_eq_unmatchedCloseParen_iff {position : Position} :
    parse alphabet text = .error (.unmatchedCloseParen position) ↔
      text.toList[position.offset]? = some ')' ∧
        ∃ expr, parse alphabet (String.ofList (text.toList.take position.offset)) = .ok expr := by
  have shallow : ¬ (SyntaxError.unmatchedCloseParen position).TooDeep := by
    rintro ⟨_, _, ⟨⟩⟩
  constructor
  · intro failed
    obtain ⟨fault, _⟩ := exists_fault_of_parse_eq_error failed shallow
    rcases fault.cases_stuck with ⟨_, _, stuck⟩ | ⟨isClosing, _, parsed⟩
    · exact absurd stuck Standing.Stuck.not_unmatchedCloseParen
    · exact ⟨isClosing, parsed⟩
  · intro closed
    obtain ⟨isClosing, expr, parsed⟩ := closed
    obtain ⟨derivation, derives, _⟩ := parse_eq_ok_iff.mp parsed
    obtain ⟨inside, _⟩ := List.getElem?_eq_some_iff.mp isClosing
    have read : derivation.text = text.toList.take position.offset :=
      derives.text.trans String.toList_ofList
    have blamed : position = { offset := derivation.text.length } := by
      rw [read, List.length_take_of_le (Nat.le_of_lt inside)]
    have next : (text.toList.drop position.offset).head? = some ')' := by
      rw [List.head?_drop, isClosing]
    rw [parse_eq_error_iff_fault shallow]
    refine ⟨derivation.text, text.toList.drop position.offset, ?_, ?_⟩
    · rw [read, List.take_append_drop]
    · rw [next, blamed]
      exact .closing ⟨derives.valid, derives.groups, derives.height⟩ rfl

/-- An unexpected character stands where a factor has to start, and starts none. -/
theorem unexpectedChar_at_factor {position : Position} {character : Char}
    (failed : parse alphabet text = .error (.unexpectedChar position character)) :
    text.toList[position.offset]? = some character ∧
      character ∉ alphabet.symbols ∧ character ≠ '(' ∧ character ≠ '@' ∧
        FactorPosition alphabet text.toList position := by
  obtain ⟨_, reached, reads, stuck⟩ :=
    exists_stuck_of_parse_eq_error failed (by rintro ⟨_, _, ⟨⟩⟩) nofun
  obtain ⟨isNext, atFactor, noSymbol, notOpening, notEmptyWord⟩ := stuck.of_unexpectedChar
  exact ⟨isNext, noSymbol, notOpening, notEmptyWord, reached, reads, atFactor⟩

/-- A text ends unexpectedly where a factor has to start. -/
theorem unexpectedEnd_at_factor {position : Position}
    (failed : parse alphabet text = .error (.unexpectedEnd position)) :
    position.offset = text.toList.length ∧ FactorPosition alphabet text.toList position := by
  obtain ⟨inside, reached, reads, stuck⟩ :=
    exists_stuck_of_parse_eq_error failed (by rintro ⟨_, _, ⟨⟩⟩) nofun
  obtain ⟨atEnd, atFactor⟩ := stuck.of_unexpectedEnd
  exact ⟨Nat.le_antisymm inside (List.getElem?_eq_none_iff.mp atEnd), reached, reads, atFactor⟩

/-- A group without a closing parenthesis is the innermost one that is open at the end. -/
theorem unmatchedParen_innermost {opened position : Position} {found : Option Char}
    (failed : parse alphabet text = .error (.unmatchedParen opened position found)) :
    position.offset = text.toList.length ∧ found = none ∧
      text.toList[opened.offset]? = some '(' ∧ InnermostOpen alphabet text.toList opened := by
  obtain ⟨inside, reached, reads, stuck⟩ :=
    exists_stuck_of_parse_eq_error failed (by rintro ⟨_, _, ⟨⟩⟩) nofun
  obtain ⟨atEnd, noneFound, innermost⟩ := stuck.of_unmatchedParen
  have whole : position.offset = text.toList.length :=
    Nat.le_antisymm inside (List.getElem?_eq_none_iff.mp atEnd)
  change Standing.start.readAll alphabet (text.toList.take position.offset) = some reached at reads
  rw [whole, List.take_length] at reads
  refine ⟨whole, noneFound, ?_, reached, reads, innermost⟩
  rcases Standing.opened_of_readAll reads opened (List.mem_of_mem_head? innermost) with
    impossible | ⟨index, isOpening, offset⟩
  · cases impossible
  · have fromStart : opened.offset = index := offset.trans (Nat.zero_add index)
    rw [fromStart]
    exact isOpening

/-- Behind a union comes a closing parenthesis or the end of the text. -/
theorem peek_of_union_eq_read {room : Nat} {start stop : Cursor} {subtree : Subtree}
    {visits : List Visit} {closer : stop.remaining < start.remaining}
    (read : union alphabet (group alphabet room) start = .read subtree visits stop closer) :
    stop.peek = none ∨ stop.peek = some ')' := by
  have outcome : (union alphabet (group alphabet room) start).outcome = .ok (subtree, stop) := by
    rw [read]
    rfl
  obtain ⟨_, _, _, ends, _⟩ := (union_reads group_reads).mp outcome
  cases next : stop.peek with
  | none => exact .inl rfl
  | some character => exact .inr (congrArg some (ends character next))

/-- What the errors say is so.  A closing parenthesis closes nothing exactly if an expression ends
before it.  An unexpected character is no symbol and starts no factor where one has to start, and an
unexpected end is an end where a factor has to start.  A group is unmatched only at the end, where
it is the innermost open one.  Behind a union comes a closing parenthesis or the end, so no other
character is ever blamed there. -/
theorem parse_error_meanings (alphabet : Alphabet) (text : String) :
    (∀ position, parse alphabet text = .error (.unmatchedCloseParen position) ↔
      text.toList[position.offset]? = some ')' ∧
        ∃ expr, parse alphabet (String.ofList (text.toList.take position.offset)) = .ok expr) ∧
      (∀ position character, parse alphabet text = .error (.unexpectedChar position character) →
        text.toList[position.offset]? = some character ∧
          character ∉ alphabet.symbols ∧ character ≠ '(' ∧ character ≠ '@' ∧
            FactorPosition alphabet text.toList position) ∧
      (∀ position, parse alphabet text = .error (.unexpectedEnd position) →
        position.offset = text.toList.length ∧ FactorPosition alphabet text.toList position) ∧
      (∀ opened position found,
        parse alphabet text = .error (.unmatchedParen opened position found) →
          position.offset = text.toList.length ∧ found = none ∧
            text.toList[opened.offset]? = some '(' ∧
              InnermostOpen alphabet text.toList opened) ∧
      ∀ room start subtree visits stop closer,
        union alphabet (group alphabet room) start = .read subtree visits stop closer →
          stop.peek = none ∨ stop.peek = some ')' :=
  ⟨fun _ => parse_eq_unmatchedCloseParen_iff, fun _ _ => unexpectedChar_at_factor,
    fun _ => unexpectedEnd_at_factor, fun _ _ _ => unmatchedParen_innermost,
    fun _ _ _ _ _ _ => peek_of_union_eq_read⟩

/-- With operators as symbols: `a+)` is an expression before the last character of `a+))`, the plus
sign in `(+b` is a literal, and of the two groups open in `((a)+(+` the one at `(+` is the inner. -/
theorem parse_error_meanings_operators :
    let alphabet : Alphabet := ⟨['a', '+', ')'], by decide, by decide⟩
    parse alphabet "a+))" = .error (.unmatchedCloseParen ⟨3⟩) ∧
      (parse alphabet "(+b" = .error (.unexpectedChar ⟨2⟩ 'b') ∧
        FactorPosition alphabet "(+b".toList ⟨2⟩) ∧
      (parse alphabet "a+" = .error (.unexpectedEnd ⟨2⟩) ∧
        FactorPosition alphabet "a+".toList ⟨2⟩) ∧
      parse alphabet "((a)+(+" = .error (.unmatchedParen ⟨5⟩ ⟨7⟩ none) ∧
        InnermostOpen alphabet "((a)+(+".toList ⟨5⟩ := by
  intro alphabet
  have before : parse alphabet "a+)" = .ok (.union [.literal 'a', .literal ')']) := by
    decide +kernel
  have unexpected : parse alphabet "(+b" = .error (.unexpectedChar ⟨2⟩ 'b') := by decide +kernel
  have ended : parse alphabet "a+" = .error (.unexpectedEnd ⟨2⟩) := by decide +kernel
  have unmatched : parse alphabet "((a)+(+" = .error (.unmatchedParen ⟨5⟩ ⟨7⟩ none) := by
    decide +kernel
  have closing := ((parse_error_meanings alphabet "a+))").1 ⟨3⟩).mpr ⟨by decide, _, before⟩
  have atFactor := (parse_error_meanings alphabet "(+b").2.1 _ _ unexpected
  have atEnd := (parse_error_meanings alphabet "a+").2.2.1 _ ended
  have innermost := (parse_error_meanings alphabet "((a)+(+").2.2.2.1 _ _ _ unmatched
  exact ⟨closing, ⟨unexpected, atFactor.2.2.2.2⟩, ⟨ended, atEnd.2⟩, unmatched, innermost.2.2.2⟩

end RegularWords.Grammar
