import RegularWords.Text.Blank

/-!
Lines of a byte stream.

A line ends with its newline byte; what follows the last newline is a line too unless it is empty.
A line is read as a text only if all its bytes, the newline among them, are valid UTF-8.
-/

namespace RegularWords.Text

abbrev ByteLine := List UInt8

def ByteLine.onto (byte : UInt8) : List ByteLine → List ByteLine
  | [] => [[byte]]
  | line :: lines => (byte :: line) :: lines

def byteLines : List UInt8 → List ByteLine
  | [] => []
  | byte :: bytes =>
      if byte = 10 then
        [byte] :: byteLines bytes
      else
        ByteLine.onto byte (byteLines bytes)

/-- The text of a line without the carriage returns and newlines at its end; nothing if the bytes
are not valid UTF-8. -/
def ByteLine.text? (line : ByteLine) : Option String :=
  (String.fromUTF8? ⟨line.toArray⟩).map fun text =>
    String.ofList (dropEnd (fun c => c == '\r' || c == '\n') text.toList)

theorem ByteLine.flatten_onto (byte : UInt8) (lines : List ByteLine) :
    (ByteLine.onto byte lines).flatten = byte :: lines.flatten := by
  cases lines <;> rfl

/-- Cutting into lines loses no byte and keeps their order. -/
theorem flatten_byteLines (bytes : List UInt8) : (byteLines bytes).flatten = bytes := by
  induction bytes with
  | nil => rfl
  | cons byte bytes inductionHypothesis =>
      unfold byteLines
      split
      · simp [inductionHypothesis]
      · rw [ByteLine.flatten_onto, inductionHypothesis]

end RegularWords.Text
