import RegularWords.CommandLine.Command
import RegularWords.CommandLine.Options

/-!
The surroundings in which the program runs.

Options are read in the usual ways, and the cause of an error stands below it.  The commands know
nothing of this: another reader of arguments would do as well.
-/

namespace RegularWords.CommandLine

def alphabetSwitch : Switch := .valued 'a' "alphabet"

def exprSwitch : Switch := .valued 'e' "expr"

def countSwitch : Switch := { Switch.valued 'n' "count" with takesAnyText := true }

def distinctSwitch : Switch := .flag 'd' "distinct"

def unsortedSwitch : Switch := .flag 'u' "unsorted"

def generateOfArguments (arguments : List String) : Except UsageError Command := do
  let known := [alphabetSwitch, exprSwitch, countSwitch, distinctSwitch, unsortedSwitch]
  let settings ← settings known arguments
  let alphabet ← valueOf alphabetSwitch settings
  let expression ← valueOf exprSwitch settings
  let count ← valueOf countSwitch settings
  return .generate alphabet expression count (isSet distinctSwitch settings)
    (!isSet unsortedSwitch settings)

def parseOfArguments (arguments : List String) : Except UsageError Command := do
  let settings ← settings [alphabetSwitch, exprSwitch] arguments
  let alphabet ← valueOf alphabetSwitch settings
  let expression ← valueOf exprSwitch settings
  return .parse alphabet expression

def replOfArguments (arguments : List String) : Except UsageError Command := do
  let _ ← settings [] arguments
  return .repl

def Command.ofArguments : List String → Except UsageError Command
  | [] => .error .noCommand
  | name :: arguments =>
      if name = "generate" then
        generateOfArguments arguments
      else if name = "parse" then
        parseOfArguments arguments
      else if name = "repl" then
        replOfArguments arguments
      else
        .error (.unknownCommand name)

def UsageError.outcome (error : UsageError) : Outcome :=
  { code := 2, output := "", errors := "error: " ++ error.message ++ "\n" }

def usual : Surroundings where
  read arguments :=
    match Command.ofArguments arguments with
    | .error error => .error error.outcome
    | .ok command => .ok command
  layOut message
    | none => message
    | some cause => message ++ "\n\nCaused by:\n    " ++ cause

def run (arguments : List String) (input : List UInt8) : Outcome :=
  usual.run arguments input

end RegularWords.CommandLine
