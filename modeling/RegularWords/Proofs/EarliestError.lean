import Mathlib.Data.List.Basic
import RegularWords.Proofs.Failing
import RegularWords.Proofs.Standing

/-!
Syntax errors show as early as they can.

An error is settled by the text before its position and the one character there.  What stands before
is the beginning of some expression, and with that character it is the beginning of none.
-/

namespace RegularWords.Grammar

variable {alphabet : Alphabet} {error : SyntaxError}

/-- What has been read of a text when an error shows before the next character, or at the end. -/
inductive Fault (alphabet : Alphabet) (next : Option Char) : List Char → SyntaxError → Prop where
  | broken {brk : UnionBreak} (fits : brk.Fits alphabet depthLimit next) :
      Fault alphabet next brk.text (brk.error next { offset := brk.text.length })
  | closing {derivation : UnionDerivation}
      (fits : (unionForm alphabet).Fits depthLimit derivation) (isClosing : next = some ')') :
      Fault alphabet next derivation.text
        (.unmatchedCloseParen { offset := derivation.text.length })

theorem Cursor.spans_ofList_iff {text read : List Char} {stop : Cursor} :
    (ofList text).Spans read stop ↔
      text = read ++ stop.rest ∧ stop.position = { offset := read.length } := by
  constructor
  · intro spans
    obtain ⟨rest, offset⟩ := spans
    change stop.position.offset = 0 + read.length at offset
    rw [Nat.zero_add] at offset
    exact ⟨rest, congrArg Position.mk offset⟩
  · intro split
    obtain ⟨rest, position⟩ := split
    refine ⟨rest, ?_⟩
    rw [position]
    exact (Nat.zero_add _).symm

/-- A text fails, but not for depth, exactly at its faults. -/
theorem parse_eq_error_iff_fault {text : String} (shallow : ¬ error.TooDeep) :
    parse alphabet text = .error error ↔
      ∃ read rest, text.toList = read ++ rest ∧ Fault alphabet rest.head? read error := by
  rw [parse_eq_error_iff, outcome_parsing_eq_error_iff shallow]
  constructor
  · intro failed
    rcases failed with ⟨brk, stop, ⟨fits, spans⟩, rfl⟩ | ⟨derivation, stop, fits, spans, next, rfl⟩
    · obtain ⟨split, position⟩ := Cursor.spans_ofList_iff.mp spans
      rw [position]
      exact ⟨brk.text, stop.rest, split, .broken fits⟩
    · obtain ⟨split, position⟩ := Cursor.spans_ofList_iff.mp spans
      rw [position]
      exact ⟨derivation.text, stop.rest, split, .closing fits next⟩
  · intro faulty
    obtain ⟨read, rest, split, fault⟩ := faulty
    let stop : Cursor := { rest := rest, position := { offset := read.length } }
    have spans : (Cursor.ofList text.toList).Spans read stop :=
      Cursor.spans_ofList_iff.mpr ⟨split, rfl⟩
    cases fault with
    | broken fits => exact .inl ⟨_, stop, ⟨fits, spans⟩, rfl⟩
    | closing fits isClosing => exact .inr ⟨_, stop, fits, spans, isClosing, rfl⟩

/-! ### Faults -/

mutual

theorem PrimaryBreak.position_error (next : Option Char) (position : Position) :
    ∀ brk : PrimaryBreak, (brk.error next position).position = position
  | .missing => by cases next <;> rfl
  | .group inside => inside.position_error next position

theorem GroupBreak.position_error (next : Option Char) (position : Position) :
    ∀ brk : GroupBreak, (brk.error next position).position = position
  | .inside union => union.position_error next position
  | .unclosed _ => rfl

theorem ConcatBreak.position_error (next : Option Char) (position : Position) :
    ∀ brk : ConcatBreak, (brk.error next position).position = position
  | .here factor => factor.position_error next position
  | .behind _ later => later.position_error next position

theorem UnionBreak.position_error (next : Option Char) (position : Position) :
    ∀ brk : UnionBreak, (brk.error next position).position = position
  | .here alternative => alternative.position_error next position
  | .behind _ later => later.position_error next position

end

variable {read rest : List Char}

theorem Fault.offset_eq {next : Option Char} (fault : Fault alphabet next read error) :
    error.position.offset = read.length := by
  cases fault with
  | broken fits => rw [UnionBreak.position_error]
  | closing fits isClosing => rfl

/-- An unexpected character is the next one, and it would be expected if it were a symbol. -/
theorem Fault.of_unexpectedChar {next : Option Char} {position : Position} {character : Char}
    (fault : Fault alphabet next read (.unexpectedChar position character)) :
    next = some character ∧ character ∉ alphabet.symbols := by
  generalize same : SyntaxError.unexpectedChar position character = error at fault
  cases fault with
  | broken fits =>
      obtain ⟨_, _, stuck⟩ := UnionBreak.stuck_from_start fits
      rw [← same] at stuck
      obtain ⟨isNext, _, noSymbol, _⟩ := stuck.of_unexpectedChar
      exact ⟨isNext, noSymbol⟩
  | closing fits isClosing => cases same

/-- An unexpected character stands where the error shows, and it is no symbol. -/
theorem of_parse_eq_unexpectedChar {text : String} {position : Position} {character : Char}
    (failed : parse alphabet text = .error (.unexpectedChar position character)) :
    text.toList[position.offset]? = some character ∧ character ∉ alphabet.symbols := by
  have shallow : ¬ (SyntaxError.unexpectedChar position character).TooDeep := by
    rintro ⟨_, _, same⟩
    cases same
  obtain ⟨read, rest, split, fault⟩ := (parse_eq_error_iff_fault shallow).mp failed
  obtain ⟨isNext, noSymbol⟩ := fault.of_unexpectedChar
  have offset : position.offset = read.length := fault.offset_eq
  refine ⟨?_, noSymbol⟩
  rw [split, offset, List.getElem?_append_right (Nat.le_refl _), Nat.sub_self,
    ← List.head?_eq_getElem?]
  exact isNext

/-- What is read before a fault is the beginning of an expression. -/
theorem Fault.exists_isPrefix {next : Option Char} (fault : Fault alphabet next read error) :
    ∃ derivation : UnionDerivation, derivation.Valid alphabet ∧ read <+: derivation.text := by
  cases fault with
  | @broken brk fits => exact ⟨brk.repaired, UnionBreak.valid_repaired fits, brk.text_isPrefix⟩
  | @closing derivation fits isClosing => exact ⟨derivation, fits.valid, List.prefix_rfl⟩

/-- No expression goes on from a fault, whatever its depth. -/
theorem Fault.ne_text (fault : Fault alphabet rest.head? read error)
    {derivation : UnionDerivation} (valid : derivation.Valid alphabet) :
    derivation.text ≠ read ++ rest := by
  rw [← List.append_nil derivation.text]
  cases fault with
  | broken fits => exact UnionBreak.ne_text fits valid UnionDerivation.endsBefore_nil
  | closing fits isClosing =>
      intro same
      have closes : UnionDerivation.EndsBefore rest.head? := by
        rw [isClosing]
        exact UnionDerivation.endsBefore_closing []
      obtain ⟨_, rfl⟩ := UnionDerivation.unambiguous valid fits.valid UnionDerivation.endsBefore_nil
        closes same
      cases isClosing

/-! ### Texts that agree up to the error -/

theorem exists_append_of_take_eq {other : List Char} (someRest : rest ≠ [])
    (agree : other.take (read.length + 1) = (read ++ rest).take (read.length + 1)) :
    ∃ otherRest, other = read ++ otherRest ∧ otherRest.head? = rest.head? := by
  cases rest with
  | nil => exact absurd rfl someRest
  | cons character rest =>
      have begins : other.take (read.length + 1) = read ++ [character] := by
        rw [agree, List.take_length_add_append]
        rfl
      refine ⟨character :: other.drop (read.length + 1), ?_, rfl⟩
      calc other = other.take (read.length + 1) ++ other.drop (read.length + 1) :=
            (List.take_append_drop _ _).symm
        _ = read ++ character :: other.drop (read.length + 1) := by
            rw [begins, List.append_assoc, List.singleton_append]

/-- An error other than for depth stands within the text or at its end, and what stands before it is
the beginning of an expression.  All texts that agree up to the character at the error have this
error, and none of them is an expression of any depth. -/
theorem error_shows_earliest {text : String} (failed : parse alphabet text = .error error)
    (shallow : ¬ error.TooDeep) :
    error.position.offset ≤ text.toList.length ∧
      (∃ derivation : UnionDerivation, derivation.Valid alphabet ∧
        text.toList.take error.position.offset <+: derivation.text) ∧
        (error.position.offset < text.toList.length → ∀ other : String,
          other.toList.take (error.position.offset + 1) =
              text.toList.take (error.position.offset + 1) →
            parse alphabet other = .error error ∧
              ∀ derivation : UnionDerivation, derivation.Valid alphabet →
                derivation.text ≠ other.toList) := by
  obtain ⟨read, rest, split, fault⟩ := (parse_eq_error_iff_fault shallow).mp failed
  rw [split, fault.offset_eq]
  refine ⟨?_, ?_, ?_⟩
  · rw [List.length_append]
    exact Nat.le_add_right _ _
  · rw [List.take_left]
    exact fault.exists_isPrefix
  · intro within other agree
    have someRest : rest ≠ [] := by
      rintro rfl
      rw [List.append_nil] at within
      exact Nat.lt_irrefl _ within
    obtain ⟨otherRest, otherSplit, sameNext⟩ := exists_append_of_take_eq someRest agree
    rw [← sameNext] at fault
    refine ⟨(parse_eq_error_iff_fault shallow).mpr ⟨read, otherRest, otherSplit, fault⟩, ?_⟩
    intro derivation valid
    rw [otherSplit]
    exact fault.ne_text valid

/-- In `(a+)*)c` the first closing parenthesis is a literal and the second one closes the group, so
`c` is no symbol wherever the text goes on from there. -/
theorem error_shows_earliest_reserved_literal :
    let alphabet : Alphabet := ⟨['a', ')', '*'], by decide, by decide⟩
    let error : SyntaxError := .unexpectedChar ⟨6⟩ 'c'
    parse alphabet "(a+)*)c" = .error error ∧ ¬ error.TooDeep ∧
      6 < "(a+)*)c".toList.length ∧ "(a+)*)ca".toList.take 7 = "(a+)*)c".toList.take 7 ∧
        parse alphabet "(a+)*)ca" = .error error := by
  intro alphabet error
  have failed : parse alphabet "(a+)*)c" = .error error := by decide +kernel
  have shallow : ¬ (SyntaxError.unexpectedChar ⟨6⟩ 'c').TooDeep := by
    rintro ⟨position, limit, same⟩
    cases same
  have within : 6 < "(a+)*)c".toList.length := by decide
  have agree : "(a+)*)ca".toList.take 7 = "(a+)*)c".toList.take 7 := by decide
  exact ⟨failed, shallow, within, agree,
    ((error_shows_earliest failed shallow).2.2 within _ agree).1⟩

end RegularWords.Grammar
