import RegularWords.CommandLine

/-!
The program: a command is run on its arguments, and a dialogue is held line by line.
-/

namespace RegularWords.Program

open CommandLine

partial def readLine (input : IO.FS.Stream) (line : Text.ByteLine) : IO Text.ByteLine := do
  let read ← input.read 1
  match read.toList with
  | [] => return line.reverse
  | byte :: _ =>
      if byte = 10 then
        return (byte :: line).reverse
      else
        readLine input (byte :: line)

partial def converse (input output : IO.FS.Stream) : Dialogue → IO Dialogue.Ending
  | .closed => return .finished
  | dialogue => do
      output.putStr dialogue.prompt
      output.flush
      let line ← readLine input []
      if line.isEmpty then
        return .finished
      match line.text? with
      | none => return .undecodable
      | some text =>
          let (shown, next) := dialogue.hear text
          output.putStr shown
          converse input output next

def report (outcome : Outcome) : IO UInt32 := do
  (← IO.getStdout).putStr outcome.output
  (← IO.getStderr).putStr outcome.errors
  return outcome.code.toUInt32

end RegularWords.Program

open RegularWords RegularWords.CommandLine in
def main (arguments : List String) : IO UInt32 := do
  match usual.read arguments with
  | .ok .repl =>
      let ending ← Program.converse (← IO.getStdin) (← IO.getStdout) .opening
      Program.report (usual.ofTranscript { output := "", ending := ending })
  | .ok command => Program.report (command.run usual [])
  | .error answer => Program.report answer
