import RegularWords.Proofs.Rounds

/-!
Inputs that are not valid UTF-8.

A dialogue reads its input line by line, so a line that is no text is met only when it is asked for.
Whichever prompt asks for it, what was shown before stays as it is and nothing is shown behind the
prompt.  The output is the one for the lines before, behind which the dialogue asks in vain.
-/

namespace RegularWords

/-! ### Lines that are texts -/

namespace Text

def ByteLine.decodes (line : ByteLine) : Bool :=
  ByteArray.validateUTF8 ⟨line.toArray⟩

/-- The lines of an input before the first that does not decode. -/
def readable (input : List UInt8) : List ByteLine :=
  (byteLines input).takeWhile ByteLine.decodes

theorem ByteLine.text?_eq_none_iff {line : ByteLine} :
    line.text? = none ↔ line.decodes = false := by
  rw [text?, Option.map_eq_none_iff, String.fromUTF8?, decodes, ← Bool.not_eq_true,
    ByteArray.validateUTF8_eq_true_iff]
  split
  · rename_i valid
    exact iff_of_false (Option.some_ne_none _) (not_not_intro valid)
  · rename_i invalid
    exact iff_of_true rfl invalid

theorem ByteLine.exists_text {line : ByteLine} (decodes : line.decodes = true) :
    ∃ text, line.text? = some text := by
  cases read : line.text? with
  | some text => exact ⟨text, rfl⟩
  | none =>
      rw [ByteLine.text?_eq_none_iff, decodes] at read
      cases read

/-- The bytes of the first lines of an input are cut into lines as they are in the input. -/
theorem byteLines_flatten_of_isPrefix {input : List UInt8} {lines : List ByteLine}
    (leading : lines <+: byteLines input) : byteLines lines.flatten = lines := by
  induction input generalizing lines with
  | nil => rw [List.prefix_nil.mp leading]; rfl
  | cons byte input inductionHypothesis =>
      rw [byteLines] at leading
      cases lines with
      | nil => rfl
      | cons line lines =>
          by_cases newline : byte = 10
          · rw [if_pos newline] at leading
            obtain ⟨rfl, leadingLater⟩ := List.cons_prefix_cons.mp leading
            rw [List.flatten_cons, List.singleton_append, byteLines, if_pos newline,
              inductionHypothesis leadingLater]
          · rw [if_neg newline] at leading
            cases later : byteLines input with
            | nil =>
                rw [later] at leading
                obtain ⟨rfl, none⟩ := List.cons_prefix_cons.mp leading
                rw [List.prefix_nil.mp none, List.flatten_singleton, byteLines, if_neg newline]
                rfl
            | cons first others =>
                rw [later] at leading
                obtain ⟨rfl, leadingOthers⟩ := List.cons_prefix_cons.mp leading
                have leadingLater : first :: lines <+: byteLines input := by
                  rw [later]
                  exact List.cons_prefix_cons.mpr ⟨rfl, leadingOthers⟩
                have cut := inductionHypothesis leadingLater
                rw [List.flatten_cons] at cut
                rw [List.flatten_cons, List.cons_append, byteLines, if_neg newline, cut]
                rfl

/-- The readable lines are the lines of their bytes. -/
theorem byteLines_flatten_readable (input : List UInt8) :
    byteLines (readable input).flatten = readable input :=
  byteLines_flatten_of_isPrefix (List.takeWhile_prefix _)

theorem decodes_of_mem_readable {input : List UInt8} :
    ∀ line ∈ readable input, line.decodes = true :=
  List.all_eq_true.mp List.all_takeWhile

/-- Behind the readable lines there is no line, or one that does not decode. -/
theorem exists_byteLines_eq (input : List UInt8) :
    ∃ rest, byteLines input = readable input ++ rest ∧
      ∀ line ∈ rest.head?, line.decodes = false := by
  refine ⟨(byteLines input).dropWhile ByteLine.decodes, List.takeWhile_append_dropWhile.symm, ?_⟩
  intro line isNext
  have kept := List.head?_dropWhile_not ByteLine.decodes (byteLines input)
  rwa [Option.mem_def.mp isNext] at kept

end Text

namespace Dialogue

open Text (ByteLine readable)

/-! ### What a dialogue says over some texts -/

/-- How a dialogue stands once it has heard some texts.  It asks for a further line unless it is
closed. -/
def standing : Dialogue → List String → Dialogue
  | dialogue, [] => dialogue
  | dialogue, text :: texts => standing (dialogue.hear text).2 texts

/-- What a dialogue shows up to then, from its first prompt on. -/
def said : Dialogue → List String → String
  | _, [] => ""
  | dialogue, text :: texts =>
      dialogue.prompt ++ (dialogue.hear text).1 ++ said (dialogue.hear text).2 texts

theorem standing_closed (texts : List String) : standing .closed texts = .closed := by
  induction texts with
  | nil => rfl
  | cons text texts inductionHypothesis => exact inductionHypothesis

theorem said_closed (texts : List String) : said .closed texts = "" := by
  induction texts with
  | nil => rfl
  | cons text texts inductionHypothesis =>
      rw [said, hear, inductionHypothesis]
      rfl

theorem Transcript.behind_empty (transcript : Transcript) : transcript.behind "" = transcript := by
  rw [behind, String.empty_append]

/-- Over lines that are texts a dialogue goes on as it stands behind them. -/
theorem converse_append (dialogue : Dialogue) {lines : List ByteLine}
    (decodes : ∀ line ∈ lines, line.decodes = true) (rest : List ByteLine) :
    converse dialogue (lines ++ rest) =
      (converse (dialogue.standing (lines.filterMap ByteLine.text?)) rest).behind
        (dialogue.said (lines.filterMap ByteLine.text?)) := by
  induction lines generalizing dialogue with
  | nil => exact (Transcript.behind_empty _).symm
  | cons line lines inductionHypothesis =>
      obtain ⟨first, later⟩ := List.forall_mem_cons.mp decodes
      obtain ⟨text, decoded⟩ := ByteLine.exists_text first
      by_cases isClosed : dialogue = .closed
      · rw [isClosed, standing_closed, said_closed, Transcript.behind_empty, converse, converse]
      · rw [List.cons_append, converse_cons isClosed decoded, inductionHypothesis _ later,
          Transcript.behind_behind, List.filterMap_cons_some decoded, standing, said]

/-- Where no line goes on, be it that there is none or that it is no text, a dialogue shows its prompt
at most. -/
theorem converse_of_stuck (dialogue : Dialogue) {lines : List ByteLine}
    (stuck : ∀ line ∈ lines.head?, line.decodes = false) :
    (converse dialogue lines).output = dialogue.prompt ∧
      ((converse dialogue lines).ending = .undecodable ↔
        dialogue ≠ .closed ∧ ∃ line later, lines = line :: later) := by
  cases lines with
  | nil =>
      rw [converse_nil]
      refine ⟨rfl, iff_of_false Ending.noConfusion ?_⟩
      rintro ⟨_, line, later, isCons⟩
      cases isCons
  | cons line later =>
      by_cases isClosed : dialogue = .closed
      · rw [isClosed, converse]
        exact ⟨rfl, iff_of_false Ending.noConfusion fun asks => asks.1 rfl⟩
      · rw [converse_of_undecodable isClosed (ByteLine.text?_eq_none_iff.mpr (stuck line rfl))]
        exact ⟨rfl, iff_of_true rfl ⟨isClosed, line, later, rfl⟩⟩

theorem ending_eq_finished_iff {ending : Ending} : ending = .finished ↔ ending ≠ .undecodable := by
  cases ending with
  | finished => exact iff_of_true rfl Ending.noConfusion
  | undecodable => exact iff_of_false Ending.noConfusion (absurd rfl)

/-- Whether a dialogue that begins with the readable lines asks for a further one, and there is one. -/
def MeetsUndecodable (input : List UInt8) : Prop :=
  standing .opening ((readable input).filterMap ByteLine.text?) ≠ .closed ∧
    ∃ line later, Text.byteLines input = readable input ++ line :: later

/-- The output is the one for the readable lines, which are the lines of their bytes: what the
dialogue says over their texts, and the prompt with which it asks for the next one unless it is closed.
It ends in failure exactly if it asks for a line and there is one. -/
theorem run_undecodable (input : List UInt8) :
    Text.byteLines (readable input).flatten = readable input ∧
      (run input).output = (run (readable input).flatten).output ∧
      (run input).output = said .opening ((readable input).filterMap ByteLine.text?) ++
        (standing .opening ((readable input).filterMap ByteLine.text?)).prompt ∧
      ((run input).ending = .undecodable ↔ MeetsUndecodable input) ∧
      ((run input).ending = .finished ↔ ¬ MeetsUndecodable input) ∧
      (run (readable input).flatten).ending = .finished := by
  have cut := Text.byteLines_flatten_readable input
  have decodes : ∀ line ∈ readable input, line.decodes = true := Text.decodes_of_mem_readable
  obtain ⟨rest, split, stuck⟩ := Text.exists_byteLines_eq input
  have whole := converse_append .opening decodes rest
  have leading := converse_append .opening decodes []
  rw [← split, ← run] at whole
  rw [List.append_nil, ← cut, ← run, cut, converse_nil] at leading
  obtain ⟨output, ending⟩ := converse_of_stuck
    (standing .opening ((readable input).filterMap ByteLine.text?)) stuck
  have follows : MeetsUndecodable input ↔
      standing .opening ((readable input).filterMap ByteLine.text?) ≠ .closed ∧
        ∃ line later, rest = line :: later := by
    rw [MeetsUndecodable, split]
    simp only [List.append_cancel_left_eq]
  have shown : (run input).output = said .opening ((readable input).filterMap ByteLine.text?) ++
      (standing .opening ((readable input).filterMap ByteLine.text?)).prompt := by
    rw [whole, Transcript.behind, output]
  have failing : (run input).ending = .undecodable ↔ MeetsUndecodable input := by
    rw [whole, follows]
    exact ending
  refine ⟨cut, ?_, shown, failing, ending_eq_finished_iff.trans (not_congr failing), ?_⟩
  · rw [shown, leading]
    rfl
  · rw [leading]
    rfl

/-- The byte 255 in the place of a count ends a dialogue in failure, unless a farewell comes first. -/
theorem run_undecodable_count :
    let input : List UInt8 := [97, 43, 10, 97, 10, 255, 10, 98, 10]
    let farewell : List UInt8 := [113, 117, 105, 116, 10]
    (run input).output = (run [97, 43, 10, 97, 10]).output ∧ (run input).ending = .undecodable ∧
      (run (farewell ++ input)).ending = .finished := by
  intro input farewell
  obtain ⟨_, output, _, failing, _⟩ := run_undecodable input
  obtain ⟨_, _, _, _, finishing, _⟩ := run_undecodable (farewell ++ input)
  have lines : readable input = [[97, 43, 10], [97, 10]] := by decide +kernel
  have texts : (readable input).filterMap ByteLine.text? = ["a+", "a"] := by decide +kernel
  have textsBehind : (readable (farewell ++ input)).filterMap ByteLine.text? =
      ["quit", "a+", "a"] := by decide +kernel
  have asks : standing .opening ["a+", "a"] ≠ .closed := by
    have stays : isFarewell "a+" = false := by decide
    obtain ⟨alphabet, usable⟩ := exists_alphabet stays
    rw [standing, hear_opening stays usable]
    exact Dialogue.noConfusion
  have meets : MeetsUndecodable input := by
    rw [MeetsUndecodable, texts]
    exact ⟨asks, [255, 10], [[98, 10]], by decide +kernel⟩
  have leaves : ¬ MeetsUndecodable (farewell ++ input) := by
    rw [MeetsUndecodable, textsBehind]
    exact fun meets => meets.1 (standing_closed ["a+", "a"])
  rw [lines] at output
  exact ⟨output, failing.mpr meets, finishing.mpr leaves⟩

end Dialogue

end RegularWords
