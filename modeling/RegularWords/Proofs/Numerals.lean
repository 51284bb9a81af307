import Mathlib.Algebra.Group.Int.Defs
import Mathlib.Data.List.DropRight
import RegularWords.Count

/-!
Counts by their values.

A number is written with an optional sign and one or more decimal digits, and it is judged by its
value, however many digits there are.  In any other text the digits up to the first other character
are judged by their value as well, and the text is no number only if they are in the range of signed
64-bit integers.
-/

namespace RegularWords

/-! ### White space at the ends -/

namespace Text

/-- A text and what is left of it without the white space at its ends. -/
structure Trims (text trimmed : List Char) : Prop where
  split : ∃ before behind, text = before ++ trimmed ++ behind ∧
    ∀ character ∈ before ++ behind, whiteSpace.contains character = true
  starts : ∀ character ∈ trimmed.head?, whiteSpace.contains character = false
  ends : ∀ character ∈ trimmed.getLast?, whiteSpace.contains character = false

theorem not_drops_of_head?_dropWhile {drop : Char → Bool} {text : List Char} {character : Char}
    (first : (text.dropWhile drop).head? = some character) : drop character = false := by
  have kept := List.head?_dropWhile_not drop text
  rwa [first] at kept

theorem dropEnd_append_rtakeWhile (drop : Char → Bool) (text : List Char) :
    dropEnd drop text ++ text.rtakeWhile drop = text :=
  List.rdropWhile_append_rtakeWhile

theorem trims_trimmed (text : List Char) : Trims text (trimmed text) := by
  have splitEnd := dropEnd_append_rtakeWhile whiteSpace.contains
    (text.dropWhile whiteSpace.contains)
  refine ⟨⟨text.takeWhile whiteSpace.contains,
    (text.dropWhile whiteSpace.contains).rtakeWhile whiteSpace.contains, ?_, ?_⟩, ?_, ?_⟩
  · rw [List.append_assoc, trimmed, splitEnd, List.takeWhile_append_dropWhile]
  · intro character isDropped
    rcases List.mem_append.mp isDropped with before | behind
    · exact List.mem_takeWhile_imp before
    · exact List.mem_rtakeWhile_imp behind
  · intro character first
    have firstBefore : (text.dropWhile whiteSpace.contains).head? = some character := by
      rw [← splitEnd, List.head?_append, ← trimmed, Option.mem_def.mp first]
      rfl
    exact not_drops_of_head?_dropWhile firstBefore
  · intro character last
    rw [trimmed, dropEnd, List.getLast?_reverse] at last
    exact not_drops_of_head?_dropWhile last

end Text

namespace Count

/-! ### Signs and digits -/

inductive Sign where
  | none
  | plus
  | minus
  deriving DecidableEq

def Sign.text : Sign → List Char
  | .none => []
  | .plus => ['+']
  | .minus => ['-']

def Sign.apply : Sign → Nat → Int
  | .minus, magnitude => -magnitude
  | _, magnitude => magnitude

theorem Sign.apply_of_ne_minus {sign : Sign} (notMinus : sign ≠ .minus) (magnitude : Nat) :
    sign.apply magnitude = magnitude := by
  cases sign with
  | none => rfl
  | plus => rfl
  | minus => exact absurd rfl notMinus

def decimal (digits : List Char) : Nat :=
  Nat.ofDigitChars 10 digits 0

def AreDigits (characters : List Char) : Prop :=
  characters ≠ [] ∧ ∀ character ∈ characters, character.isDigit = true

/-- A text behind its sign.  A text that starts with a sign is not unsigned. -/
structure Signed (text : List Char) (sign : Sign) (rest : List Char) : Prop where
  split : text = sign.text ++ rest
  unsigned : sign = .none → ∀ first ∈ rest.head?, first ≠ '+' ∧ first ≠ '-'

theorem exists_signed (text : List Char) : ∃ sign rest, Signed text sign rest := by
  rcases text with _ | ⟨first, rest⟩
  · exact ⟨.none, [], rfl, fun _ _ impossible => nomatch impossible⟩
  · by_cases isPlus : first = '+'
    · exact ⟨.plus, rest, congrArg (· :: rest) isPlus, nofun⟩
    · by_cases isMinus : first = '-'
      · exact ⟨.minus, rest, congrArg (· :: rest) isMinus, nofun⟩
      · refine ⟨.none, first :: rest, rfl, ?_⟩
        rintro _ initial ⟨⟩
        exact ⟨isPlus, isMinus⟩

/-- No digit is a sign. -/
theorem AreDigits.signed {text digits : List Char} {sign : Sign} (areDigits : AreDigits digits)
    (split : text = sign.text ++ digits) : Signed text sign digits := by
  refine ⟨split, ?_⟩
  intro _ first isFirst
  have isDigit : first.isDigit = true := areDigits.2 first (List.mem_of_mem_head? isFirst)
  constructor
  · rintro rfl
    cases isDigit
  · rintro rfl
    cases isDigit

/-! ### Magnitudes -/

theorem le_ofDigitChars (value : Nat) (digits : List Char) :
    value ≤ Nat.ofDigitChars 10 digits value := by
  induction digits generalizing value with
  | nil => exact Nat.le_refl value
  | cons digit digits inductionHypothesis =>
      rw [Nat.ofDigitChars_cons]
      refine Nat.le_trans ?_ (inductionHypothesis _)
      omega

/-- Digits are read until their value passes the limit or another character follows.  Reading on only
makes the value larger, so it does not matter where the limit is passed. -/
theorem magnitudeFrom_eq {limit value : Nat} (within : value ≤ limit) (characters : List Char) :
    magnitudeFrom limit value characters =
      if limit < Nat.ofDigitChars 10 (characters.takeWhile Char.isDigit) value then .tooLarge
      else if characters.all Char.isDigit then .number (Nat.ofDigitChars 10 characters value)
      else .malformed := by
  induction characters generalizing value with
  | nil => exact (if_neg (Nat.not_lt.mpr within)).symm
  | cons digit characters inductionHypothesis =>
      rw [magnitudeFrom]
      by_cases isDigit : digit.isDigit = true
      · rw [if_pos isDigit, List.takeWhile_cons_of_pos isDigit, Nat.ofDigitChars_cons,
          Nat.ofDigitChars_cons, List.all_cons, isDigit, Bool.true_and]
        by_cases passes : limit < 10 * value + (digit.toNat - '0'.toNat)
        · rw [if_pos passes, if_pos (Nat.lt_of_lt_of_le passes (le_ofDigitChars _ _))]
        · rw [if_neg passes]
          exact inductionHypothesis (Nat.not_lt.mp passes)
      · rw [if_neg isDigit, List.takeWhile_cons_of_neg isDigit, List.all_cons,
          Bool.eq_false_iff.mpr isDigit, Bool.false_and]
        exact (if_neg (Nat.not_lt.mpr within)).symm

theorem magnitude_eq_magnitudeFrom {characters : List Char} (someCharacter : characters ≠ [])
    (limit : Nat) : magnitude limit characters = magnitudeFrom limit 0 characters := by
  cases characters with
  | nil => exact absurd rfl someCharacter
  | cons first rest => rfl

section

variable {limit : Nat} {characters : List Char} {shown : String}

theorem magnitude_of_passing (passes : limit < decimal (characters.takeWhile Char.isDigit)) :
    magnitude limit characters = .tooLarge := by
  have someCharacter : characters ≠ [] := by
    rintro rfl
    exact Nat.not_lt_zero limit passes
  rw [magnitude_eq_magnitudeFrom someCharacter, magnitudeFrom_eq (Nat.zero_le limit)]
  exact if_pos passes

theorem magnitude_of_digits (digits : AreDigits characters) (within : decimal characters ≤ limit) :
    magnitude limit characters = .number (decimal characters) := by
  have inside : ¬ limit < Nat.ofDigitChars 10 (characters.takeWhile Char.isDigit) 0 := by
    rw [List.takeWhile_eq_self_iff.mpr digits.2]
    exact Nat.not_lt.mpr within
  rw [magnitude_eq_magnitudeFrom digits.1, magnitudeFrom_eq (Nat.zero_le limit), if_neg inside,
    if_pos (List.all_eq_true.mpr digits.2), decimal]

theorem magnitude_of_other (other : ¬ AreDigits characters)
    (within : decimal (characters.takeWhile Char.isDigit) ≤ limit) :
    magnitude limit characters = .malformed := by
  by_cases nothing : characters = []
  · rw [nothing, magnitude]
  · have notAll : ¬ characters.all Char.isDigit = true :=
      fun all => other ⟨nothing, List.all_eq_true.mp all⟩
    rw [magnitude_eq_magnitudeFrom nothing, magnitudeFrom_eq (Nat.zero_le limit), if_neg notAll]
    exact if_neg (Nat.not_lt.mpr within)

/-! ### Numbers with and without a minus sign -/

theorem ofDigits_of_passing (passes : largest < decimal (characters.takeWhile Char.isDigit)) :
    ofDigits shown characters = .error (.countTooLarge shown) := by
  rw [ofDigits, magnitude_of_passing passes]

theorem ofDigits_of_other (other : ¬ AreDigits characters)
    (within : decimal (characters.takeWhile Char.isDigit) ≤ largest) :
    ofDigits shown characters = .error (.invalidCount shown) := by
  rw [ofDigits, magnitude_of_other other within]

theorem ofDigits_of_digits (digits : AreDigits characters) (within : decimal characters ≤ largest) :
    ofDigits shown characters =
      if positive : 0 < decimal characters then
        .ok { number := decimal characters, positive := positive }
      else
        .error (.nonPositiveCount shown) := by
  rw [ofDigits, magnitude_of_digits digits within]

theorem refuseNegative_of_passing
    (passes : largestBelowZero < decimal (characters.takeWhile Char.isDigit)) :
    refuseNegative shown characters = .nonPositiveCount shown := by
  rw [refuseNegative, magnitude_of_passing passes]

theorem refuseNegative_of_other (other : ¬ AreDigits characters)
    (within : decimal (characters.takeWhile Char.isDigit) ≤ largestBelowZero) :
    refuseNegative shown characters = .invalidCount shown := by
  rw [refuseNegative, magnitude_of_other other within]

/-- In the range or below it, a negative number is none that can be counted to. -/
theorem refuseNegative_of_digits (digits : AreDigits characters) :
    refuseNegative shown characters = .nonPositiveCount shown := by
  by_cases within : decimal characters ≤ largestBelowZero
  · rw [refuseNegative, magnitude_of_digits digits within]
  · apply refuseNegative_of_passing
    rw [List.takeWhile_eq_self_iff.mpr digits.2]
    exact Nat.not_le.mp within

end

/-! ### Texts -/

def shown (text : String) : String :=
  String.ofList (Text.trimmed text.toList)

section

variable {text : String} {sign : Sign} {rest : List Char}

theorem ofText_of_minus (signed : Signed (Text.trimmed text.toList) .minus rest) :
    ofText text = .error (refuseNegative (shown text) rest) := by
  simp only [ofText, shown, signed.split, Sign.text, List.singleton_append]

theorem ofText_of_ne_minus (signed : Signed (Text.trimmed text.toList) sign rest)
    (notMinus : sign ≠ .minus) :
    ofText text = ofDigits (shown text) rest := by
  cases sign with
  | minus => exact absurd rfl notMinus
  | plus => simp only [ofText, shown, signed.split, Sign.text, List.singleton_append]
  | none =>
      have unsigned := signed.unsigned rfl
      simp only [ofText, shown, signed.split, Sign.text, List.nil_append]
      cases rest with
      | nil => rfl
      | cons first rest =>
          obtain ⟨notPlus, notMinus⟩ := unsigned first rfl
          split
          · exact absurd (List.cons.inj ‹_›).1 notPlus
          · exact absurd (List.cons.inj ‹_›).1 notMinus
          · rfl

theorem cast_largest : (largest : Int) = 2 ^ 63 - 1 := by
  decide

theorem cast_largestBelowZero : (largestBelowZero : Int) = 2 ^ 63 := by
  decide

theorem ofText_of_digits {digits : List Char}
    (split : Text.trimmed text.toList = sign.text ++ digits) (areDigits : AreDigits digits) :
    let value := sign.apply (decimal digits)
    (1 ≤ value ∧ value ≤ 2 ^ 63 - 1 →
      ∃ count : Count, ofText text = .ok count ∧ (count.number : Int) = value) ∧
    (2 ^ 63 - 1 < value → ofText text = .error (.countTooLarge (shown text))) ∧
    (value ≤ 0 → ofText text = .error (.nonPositiveCount (shown text))) := by
  intro value
  have signed := areDigits.signed split
  have allTaken : digits.takeWhile Char.isDigit = digits :=
    List.takeWhile_eq_self_iff.mpr areDigits.2
  by_cases isMinus : sign = .minus
  · subst isMinus
    have notPositive : value ≤ 0 := Int.neg_nonpos_of_nonneg (Int.natCast_nonneg _)
    refine ⟨by omega, by omega, fun _ => ?_⟩
    rw [ofText_of_minus signed, refuseNegative_of_digits areDigits]
  · have valueEq : value = decimal digits := sign.apply_of_ne_minus isMinus _
    have limit := cast_largest
    rw [ofText_of_ne_minus signed isMinus]
    refine ⟨?_, ?_, ?_⟩
    · rintro ⟨atLeastOne, inRange⟩
      have positive : 0 < decimal digits := by omega
      rw [ofDigits_of_digits areDigits (by omega), dif_pos positive]
      exact ⟨_, rfl, valueEq.symm⟩
    · intro tooLarge
      apply ofDigits_of_passing
      rw [allTaken]
      omega
    · intro notPositive
      rw [ofDigits_of_digits areDigits (by omega), dif_neg (by omega)]

theorem ofText_of_other (signed : Signed (Text.trimmed text.toList) sign rest)
    (other : ¬ AreDigits rest) :
    let begun := sign.apply (decimal (rest.takeWhile Char.isDigit))
    (2 ^ 63 - 1 < begun → ofText text = .error (.countTooLarge (shown text))) ∧
    (begun < -2 ^ 63 → ofText text = .error (.nonPositiveCount (shown text))) ∧
    (-2 ^ 63 ≤ begun → begun ≤ 2 ^ 63 - 1 → ofText text = .error (.invalidCount (shown text))) := by
  intro begun
  by_cases isMinus : sign = .minus
  · subst isMinus
    have begunEq : begun = -decimal (rest.takeWhile Char.isDigit) := rfl
    have limit := cast_largestBelowZero
    rw [ofText_of_minus signed]
    refine ⟨by omega, ?_, ?_⟩
    · intro belowRange
      rw [refuseNegative_of_passing (by omega)]
    · intro inRange _
      rw [refuseNegative_of_other other (by omega)]
  · have begunEq : begun = decimal (rest.takeWhile Char.isDigit) :=
      sign.apply_of_ne_minus isMinus _
    have limit := cast_largest
    rw [ofText_of_ne_minus signed isMinus]
    refine ⟨?_, by omega, ?_⟩
    · intro tooLarge
      exact ofDigits_of_passing (by omega)
    · intro _ inRange
      exact ofDigits_of_other other (by omega)

end

/-- What is left of a text without the white space at its ends is judged by its value if it is a
number: an optional sign and one or more digits.  If it is none, the value of the digits before the
first other character tells whether they are out of range already, and if they are not, the text is
no number. -/
theorem ofText_by_value (text : String) :
    Text.Trims text.toList (Text.trimmed text.toList) ∧
    shown text = String.ofList (Text.trimmed text.toList) ∧
    (∀ (sign : Sign) (digits : List Char),
      Text.trimmed text.toList = sign.text ++ digits → AreDigits digits →
      let value := sign.apply (decimal digits)
      (1 ≤ value ∧ value ≤ 2 ^ 63 - 1 →
        ∃ count : Count, ofText text = .ok count ∧ (count.number : Int) = value) ∧
      (2 ^ 63 - 1 < value → ofText text = .error (.countTooLarge (shown text))) ∧
      (value ≤ 0 → ofText text = .error (.nonPositiveCount (shown text)))) ∧
    ((∀ (sign : Sign) (digits : List Char),
      Text.trimmed text.toList = sign.text ++ digits → ¬ AreDigits digits) →
      ∃ sign rest, Signed (Text.trimmed text.toList) sign rest ∧
        let begun := sign.apply (decimal (rest.takeWhile Char.isDigit))
        (2 ^ 63 - 1 < begun → ofText text = .error (.countTooLarge (shown text))) ∧
        (begun < -2 ^ 63 → ofText text = .error (.nonPositiveCount (shown text))) ∧
        (-2 ^ 63 ≤ begun → begun ≤ 2 ^ 63 - 1 →
          ofText text = .error (.invalidCount (shown text)))) := by
  refine ⟨Text.trims_trimmed text.toList, rfl, fun _ _ split => ofText_of_digits split, ?_⟩
  intro noNumber
  obtain ⟨sign, rest, signed⟩ := exists_signed (Text.trimmed text.toList)
  exact ⟨sign, rest, signed, ofText_of_other signed (noNumber sign rest signed.split)⟩

/-- At both ends of the range, and with another character behind digits that are out of it. -/
theorem ofText_by_value_edges :
    (∃ count, ofText " +09223372036854775807\n" = .ok count ∧
      (count.number : Int) = 9223372036854775807) ∧
    ofText "9223372036854775808" = .error (.countTooLarge "9223372036854775808") ∧
    ofText "-9223372036854775809" = .error (.nonPositiveCount "-9223372036854775809") ∧
    ofText "9223372036854775808x" = .error (.countTooLarge "9223372036854775808x") := by
  refine ⟨?_, ?_, ?_, ?_⟩
  · exact ((ofText_by_value " +09223372036854775807\n").2.2.1 .plus "09223372036854775807".toList
      (by decide +kernel) ⟨by decide, List.all_eq_true.mp (by decide)⟩).1 (by decide +kernel)
  · exact ((ofText_by_value "9223372036854775808").2.2.1 .none "9223372036854775808".toList
      (by decide +kernel) ⟨by decide, List.all_eq_true.mp (by decide)⟩).2.1 (by decide +kernel)
  · exact ((ofText_by_value "-9223372036854775809").2.2.1 .minus "9223372036854775809".toList
      (by decide +kernel) ⟨by decide, List.all_eq_true.mp (by decide)⟩).2.2 (by decide +kernel)
  · have written : Text.trimmed "9223372036854775808x".toList = "9223372036854775808x".toList := by
      decide +kernel
    have unsigned {sign : Sign} {rest : List Char}
        (split : Text.trimmed "9223372036854775808x".toList = sign.text ++ rest) :
        sign = .none ∧ rest = "9223372036854775808x".toList := by
      rw [written] at split
      cases sign with
      | none => exact ⟨rfl, split.symm⟩
      | plus => cases split
      | minus => cases split
    have noNumber : ∀ (sign : Sign) (digits : List Char),
        Text.trimmed "9223372036854775808x".toList = sign.text ++ digits →
          ¬ AreDigits digits := by
      intro sign digits split areDigits
      obtain ⟨_, rfl⟩ := unsigned split
      exact absurd (areDigits.2 'x' (by decide)) (by decide)
    obtain ⟨sign, rest, signed, tooLarge, _⟩ :=
      (ofText_by_value "9223372036854775808x").2.2.2 noNumber
    obtain ⟨rfl, rfl⟩ := unsigned signed.split
    exact tooLarge (by decide +kernel)

end Count

end RegularWords
