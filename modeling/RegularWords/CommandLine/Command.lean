import RegularWords.Dialogue
import RegularWords.Expr.Outline

/-!
The commands of the command line and what they do.

`generate` answers a request, `parse` shows an expression with what its enumeration loses, and
`repl` holds a dialogue.  Words and trees go to the output, warnings and errors beside it.

What a command does depends on its surroundings in one respect only: they lay errors out.  They also
read the arguments, and may answer them on their own.
-/

namespace RegularWords.CommandLine

inductive Command where
  | generate (alphabet expression count : String) (distinct sorted : Bool)
  | parse (alphabet expression : String)
  | repl
  deriving DecidableEq

structure Outcome where
  code : Nat
  output : String
  errors : String
  deriving DecidableEq

structure Surroundings where
  /-- Arguments are a command, or else they are answered without one. -/
  read : List String → Except Outcome Command
  /-- The text of an error that has a message and perhaps a cause. -/
  layOut : String → Option String → String

def warningLine (alphabet : Alphabet) : String :=
  match alphabet.operatorNotice? with
  | none => ""
  | some notice => notice ++ "\n"

def describe (expr : Expr) : String :=
  expr.print ++ "\n" ++ expr.indentedOutline 0 ++ "\n" ++
    String.join (expr.starvations.map fun starvation =>
      "starvation: " ++ starvation.message ++ "\n")

def Outcome.success (warnings output : String) : Outcome :=
  { code := 0, output := output, errors := warnings }

namespace Surroundings

variable (surroundings : Surroundings)

def failure (warnings message : String) (cause : Option String) : Outcome :=
  { code := 1, output := ""
    errors := warnings ++ "Error: " ++ surroundings.layOut message cause ++ "\n" }

def withAlphabet (text : String) (next : Alphabet → String → Outcome) : Outcome :=
  match Alphabet.ofText text with
  | .error error => surroundings.failure "" error.message none
  | .ok alphabet => next alphabet (warningLine alphabet)

def ofRequest (request : Request) (warnings : String) : Outcome :=
  match request.answer with
  | .error failure => surroundings.failure warnings (failure.report request.expression) none
  | .ok words => .success warnings (renderLines words)

def ofTranscript (transcript : Dialogue.Transcript) : Outcome :=
  match transcript.ending with
  | .finished => .success "" transcript.output
  | .undecodable =>
      let failure := surroundings.failure "" "interactive session failed"
        (some Dialogue.undecodableMessage)
      { failure with output := transcript.output }

end Surroundings

/-- What a command does with the bytes of its input, which only a dialogue reads. -/
def Command.run (surroundings : Surroundings) (input : List UInt8) : Command → Outcome
  | .generate alphabet expression count distinct sorted =>
      surroundings.withAlphabet alphabet fun alphabet warnings =>
        match Count.ofText count with
        | .error error => surroundings.failure warnings error.message none
        | .ok count =>
            surroundings.ofRequest
              { alphabet := alphabet, expression := expression, count := count
                distinct := distinct, sorted := sorted }
              warnings
  | .parse alphabet expression =>
      surroundings.withAlphabet alphabet fun alphabet warnings =>
        match Grammar.parse alphabet expression with
        | .error error =>
            surroundings.failure warnings
              ("syntax error: " ++ error.message ++ "\n" ++ error.caret expression) none
        | .ok expr => .success warnings (describe expr)
  | .repl => surroundings.ofTranscript (Dialogue.run input)

def Surroundings.run (surroundings : Surroundings) (arguments : List String)
    (input : List UInt8) : Outcome :=
  match surroundings.read arguments with
  | .error answer => answer
  | .ok command => command.run surroundings input

end RegularWords.CommandLine
