import RegularWords.Proofs.Rounds

/-!
Lines that are typed.

A text without newlines is a line once a newline follows it.  The text is read back from the line
unless it ends in a carriage return, which is dropped with the newline.  So a round can be typed
whose texts are given.
-/

namespace RegularWords

namespace Text

def typed (text : String) : ByteLine :=
  (text ++ "\n").toUTF8.data.toList

/-- Whether a text is read back from the line on which it is typed. -/
structure FitsLine (text : String) : Prop where
  noNewline : '\n' ∉ text.toList
  noReturn : text.toList.getLast? ≠ some '\r'

variable {text : String}

/-! ### Newlines among bytes -/

theorem newline_not_mem_map {numbers : List Nat}
    (others : ∀ number ∈ numbers, number < 256 ∧ number ≠ 10) :
    10 ∉ numbers.map UInt8.ofNat := by
  intro isByte
  obtain ⟨number, isNumber, same⟩ := List.mem_map.mp isByte
  obtain ⟨small, other⟩ := others number isNumber
  have code := congrArg UInt8.toNat same
  rw [UInt8.toNat_ofNat_of_lt' small] at code
  exact other code

/-- The newline is a byte of no other character: behind ASCII all bytes are above 127. -/
theorem newline_not_mem_utf8EncodeChar {character : Char} (other : character ≠ '\n') :
    10 ∉ String.utf8EncodeChar character := by
  have otherCode : character.val.toNat ≠ 10 := by
    intro code
    exact other (Char.toNat_inj.mp code)
  unfold String.utf8EncodeChar
  dsimp only
  split
  · change 10 ∉ List.map UInt8.ofNat [_]
    apply newline_not_mem_map
    simp only [List.mem_singleton, forall_eq]
    omega
  · split
    · change 10 ∉ List.map UInt8.ofNat [_, _]
      apply newline_not_mem_map
      simp only [List.mem_cons, List.not_mem_nil, or_false, forall_eq_or_imp, forall_eq]
      omega
    · split
      · change 10 ∉ List.map UInt8.ofNat [_, _, _]
        apply newline_not_mem_map
        simp only [List.mem_cons, List.not_mem_nil, or_false, forall_eq_or_imp, forall_eq]
        omega
      · change 10 ∉ List.map UInt8.ofNat [_, _, _, _]
        apply newline_not_mem_map
        simp only [List.mem_cons, List.not_mem_nil, or_false, forall_eq_or_imp, forall_eq]
        omega

theorem bytes_eq_flatMap (text : String) :
    text.toUTF8.data.toList = text.toList.flatMap String.utf8EncodeChar := by
  rw [String.toUTF8_eq_toByteArray, ← String.utf8Encode_toList, List.utf8Encode,
    List.data_toByteArray, List.toList_toArray]

theorem newline_not_mem_bytes (noNewline : '\n' ∉ text.toList) :
    10 ∉ text.toUTF8.data.toList := by
  rw [bytes_eq_flatMap, List.mem_flatMap]
  rintro ⟨character, occurs, isByte⟩
  refine newline_not_mem_utf8EncodeChar ?_ isByte
  rintro rfl
  exact noNewline occurs

theorem typed_eq (text : String) : typed text = text.toUTF8.data.toList ++ [10] := by
  rw [typed, bytes_eq_flatMap, bytes_eq_flatMap, String.toList_append, List.flatMap_append]
  rfl

/-! ### Reading typed lines -/

theorem dropEnd_concat {drop : Char → Bool} {last : Char} (isDropped : drop last = true)
    (characters : List Char) : dropEnd drop (characters ++ [last]) = dropEnd drop characters := by
  rw [dropEnd, List.reverse_concat, List.dropWhile_cons_of_pos isDropped, dropEnd]

theorem dropEnd_eq_self {drop : Char → Bool} {characters : List Char}
    (kept : ∀ last ∈ characters.getLast?, drop last = false) :
    dropEnd drop characters = characters := by
  rw [dropEnd, List.reverse_eq_iff]
  rw [List.getLast?_eq_head?_reverse] at kept
  cases turned : characters.reverse with
  | nil => rfl
  | cons last others =>
      rw [turned] at kept
      have keepsLast : ¬ drop last = true := Bool.eq_false_iff.mp (kept last rfl)
      exact List.dropWhile_cons_of_neg keepsLast

theorem fromUTF8?_typed (text : String) :
    String.fromUTF8? ⟨(typed text).toArray⟩ = some (text ++ "\n") := by
  rw [typed, Array.toArray_toList, String.fromUTF8?, String.toUTF8_eq_toByteArray,
    dif_pos (text ++ "\n").isValidUTF8]
  rfl

/-- A text that fits a line is read back from it. -/
theorem FitsLine.text?_typed (fits : FitsLine text) : (typed text).text? = some text := by
  have kept : ∀ last ∈ text.toList.getLast?, (last == '\r' || last == '\n') = false := by
    intro last isLast
    have noReturn : last ≠ '\r' := by
      rintro rfl
      exact fits.noReturn isLast
    have noNewline : last ≠ '\n' := by
      rintro rfl
      exact fits.noNewline (List.mem_of_getLast? isLast)
    rw [beq_false_of_ne noReturn, beq_false_of_ne noNewline, Bool.or_false]
  have newline : "\n".toList = ['\n'] := rfl
  rw [ByteLine.text?, fromUTF8?_typed, Option.map_some, String.toList_append, newline,
    dropEnd_concat rfl, dropEnd_eq_self kept, String.ofList_toList]

/-- Texts that are typed line by line lead an input. -/
theorem leads_typed {texts : List String} (noNewline : ∀ text ∈ texts, '\n' ∉ text.toList)
    (rest : List UInt8) : Leads (texts.map typed) rest (texts.flatMap typed ++ rest) := by
  induction texts with
  | nil => exact .none
  | cons text texts inductionHypothesis =>
      obtain ⟨firstNoNewline, laterNoNewline⟩ := List.forall_mem_cons.mp noNewline
      have leads := Leads.line _ (newline_not_mem_bytes firstNoNewline)
        (inductionHypothesis laterNoNewline)
      rw [List.map_cons, List.flatMap_cons, typed_eq, List.append_assoc, List.append_assoc]
      exact leads

end Text

/-! ### Typed rounds -/

namespace Dialogue

variable {round : Round} {alphabet : Alphabet}

/-- A round that is typed shows its block, and then the dialogue goes on. -/
theorem run_typed (stays : isFarewell round.alphabet = false)
    (fits : ∀ text ∈ round.texts, Text.FitsLine text)
    (usable : Alphabet.ofText round.alphabet = .ok alphabet) (rest : List UInt8) :
    run (round.texts.flatMap Text.typed ++ rest) =
      (run rest).behind ("alphabet> " ++ operatorWarning alphabet ++
        "expression> count> " ++
          conclusion alphabet round.expression round.count) := by
  have leads := Text.leads_typed (fun text isText => (fits text isText).noNewline) rest
  have readBack : ∀ text ∈ round.texts, (Text.typed text).text? = some text :=
    fun text isText => (fits text isText).text?_typed
  simp only [Round.texts, List.forall_mem_cons] at readBack
  obtain ⟨firstText, secondText, thirdText, _⟩ := readBack
  obtain ⟨block, shows, converses⟩ :=
    exists_shows stays firstText secondText thirdText (Text.byteLines rest)
  have blockEq := shows.unique (.block usable (warns_operatorWarning alphabet)
    (concludes_conclusion alphabet round.expression round.count))
  rw [← blockEq, run, leads.byteLines_eq]
  exact converses

/-- A dialogue begins by asking for an alphabet. -/
theorem exists_output_run (input : List UInt8) :
    ∃ later, (run input).output = "alphabet> " ++ later := by
  unfold run
  cases Text.byteLines input with
  | nil => exact ⟨"", rfl⟩
  | cons line lines =>
      cases decoded : line.text? with
      | none =>
          rw [converse_of_undecodable Dialogue.noConfusion decoded]
          exact ⟨"", rfl⟩
      | some text =>
          rw [converse_cons Dialogue.noConfusion decoded]
          exact ⟨_, String.append_assoc⟩

end Dialogue

end RegularWords
