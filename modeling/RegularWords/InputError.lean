import RegularWords.Text.Quoted

/-!
Why an alphabet or a word count is refused.  A refused count is kept as it was typed, without the
white space around it.
-/

namespace RegularWords

inductive InputError where
  | emptyAlphabet
  | invalidCount (text : String)
  | nonPositiveCount (text : String)
  /-- The text is a number, and a larger one than any count. -/
  | countTooLarge (text : String)
  deriving DecidableEq

def InputError.message : InputError → String
  | .emptyAlphabet => "alphabet is empty"
  | .invalidCount text => "word count " ++ Text.quotedText text ++ " is not a number"
  | .nonPositiveCount text => "word count must be positive, got " ++ text
  | .countTooLarge text => "word count " ++ text ++ " is too large"

end RegularWords
