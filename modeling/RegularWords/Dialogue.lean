import RegularWords.Request
import RegularWords.Text.Line

/-!
The interactive dialogue.

A round asks for an alphabet, an expression and a word count, one line each, and shows the words or
one error.  The expression and the count are read whatever the count is worth, so every round takes
three lines.  An empty alphabet line, `quit`, `exit` or the end of the input ends the dialogue.
-/

namespace RegularWords

inductive Dialogue where
  | opening
  | withAlphabet (alphabet : Alphabet)
  | withExpression (alphabet : Alphabet) (expression : String)
  | closed

namespace Dialogue

def prompt : Dialogue → String
  | .opening => "alphabet> "
  | .withAlphabet _ => "expression> "
  | .withExpression _ _ => "count> "
  | .closed => ""

def isFarewell (line : String) : Bool :=
  line == "" || line == "quit" || line == "exit"

def errorLine (message : String) : String :=
  "error: " ++ message ++ "\n"

def operatorWarning (alphabet : Alphabet) : String :=
  match alphabet.operatorNotice? with
  | none => ""
  | some notice => notice ++ "; they act as operators outside factor positions\n"

def conclusion (alphabet : Alphabet) (expression count : String) : String :=
  match Count.ofText count with
  | .error error => errorLine error.message
  | .ok count =>
      match (Request.plain alphabet expression count).answer with
      | .error failure => errorLine (failure.report expression)
      | .ok words => renderLines words

def hear : Dialogue → String → String × Dialogue
  | .opening, line =>
      if isFarewell line then
        ("", .closed)
      else
        match Alphabet.ofText line with
        | .error error => (errorLine error.message, .opening)
        | .ok alphabet => (operatorWarning alphabet, .withAlphabet alphabet)
  | .withAlphabet alphabet, line => ("", .withExpression alphabet line)
  | .withExpression alphabet expression, line => (conclusion alphabet expression line, .opening)
  | .closed, _ => ("", .closed)

inductive Ending where
  | finished
  | undecodable
  deriving DecidableEq

def undecodableMessage : String :=
  "stream did not contain valid UTF-8"

structure Transcript where
  output : String
  ending : Ending
  deriving DecidableEq

def Transcript.behind (output : String) (transcript : Transcript) : Transcript :=
  { transcript with output := output ++ transcript.output }

/-- A dialogue over lines of input.  A prompt is shown before its line is read. -/
def converse : Dialogue → List Text.ByteLine → Transcript
  | .closed, _ => { output := "", ending := .finished }
  | dialogue, [] => { output := dialogue.prompt, ending := .finished }
  | dialogue, line :: lines =>
      match line.text? with
      | none => { output := dialogue.prompt, ending := .undecodable }
      | some text =>
          let (shown, next) := dialogue.hear text
          (converse next lines).behind (dialogue.prompt ++ shown)

def run (input : List UInt8) : Transcript :=
  converse .opening (Text.byteLines input)

end Dialogue

end RegularWords
