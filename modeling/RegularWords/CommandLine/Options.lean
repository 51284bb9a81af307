/-!
Options among the arguments of a command.

An option is written `-x` or `--name`.  Short options may share a dash, and one that takes a value
ends such a cluster.  A value follows at once, behind an equals sign, or as the next argument, which
must not look like an option itself unless the option takes any text.
-/

namespace RegularWords.CommandLine

structure Switch where
  short : Char
  long : String
  takesValue : Bool
  /-- Whether a separate value may look like an option. -/
  takesAnyText : Bool
  deriving DecidableEq

def Switch.flag (short : Char) (long : String) : Switch :=
  { short := short, long := long, takesValue := false, takesAnyText := false }

def Switch.valued (short : Char) (long : String) : Switch :=
  { short := short, long := long, takesValue := true, takesAnyText := false }

inductive UsageError where
  | noCommand
  | unknownCommand (name : String)
  | unknownOption (text : String)
  | unexpectedArgument (text : String)
  | missingValue (long : String)
  | unexpectedValue (long : String)
  | repeatedOption (long : String)
  | missingOption (long : String)
  deriving DecidableEq

def UsageError.message : UsageError → String
  | .noCommand => "a command is required: generate, parse or repl"
  | .unknownCommand name => "unknown command " ++ name
  | .unknownOption text => "unknown option " ++ text
  | .unexpectedArgument text => "unexpected argument " ++ text
  | .missingValue long => "a value is required for --" ++ long
  | .unexpectedValue long => "no value is expected for --" ++ long
  | .repeatedOption long => "--" ++ long ++ " is given twice"
  | .missingOption long => "--" ++ long ++ " is required"

/-- An option that was given, with the empty text as the value of a flag. -/
structure Setting where
  switch : Switch
  value : String
  deriving DecidableEq

/-- What one argument sets, and the option whose value the next argument is. -/
structure Reading where
  settings : List Setting
  pending : Option Switch

def readCluster (known : List Switch) : List Char → Except UsageError Reading
  | [] => .ok { settings := [], pending := none }
  | short :: rest =>
      match known.find? fun switch => switch.short == short with
      | none => .error (.unknownOption (String.ofList ['-', short]))
      | some switch =>
          if switch.takesValue then
            match rest with
            | [] => .ok { settings := [], pending := some switch }
            | '=' :: value => .ok { settings := [⟨switch, String.ofList value⟩], pending := none }
            | value => .ok { settings := [⟨switch, String.ofList value⟩], pending := none }
          else
            match readCluster known rest with
            | .error error => .error error
            | .ok reading => .ok { reading with settings := ⟨switch, ""⟩ :: reading.settings }

def readLong (known : List Switch) (text : List Char) : Except UsageError Reading :=
  let name := String.ofList (text.takeWhile fun c => c != '=')
  let value := text.dropWhile fun c => c != '='
  match known.find? fun switch => switch.long == name with
  | none => .error (.unknownOption (String.ofList ('-' :: '-' :: text)))
  | some switch =>
      match switch.takesValue, value with
      | true, [] => .ok { settings := [], pending := some switch }
      | true, _ :: value => .ok { settings := [⟨switch, String.ofList value⟩], pending := none }
      | false, [] => .ok { settings := [⟨switch, ""⟩], pending := none }
      | false, _ :: _ => .error (.unexpectedValue switch.long)

/-- A dash and more; a dash alone is an ordinary text. -/
def looksLikeOption (argument : String) : Bool :=
  match argument.toList with
  | '-' :: _ :: _ => true
  | _ => false

def readArgument (known : List Switch) (argument : String) : Except UsageError Reading :=
  match argument.toList with
  | '-' :: '-' :: text => readLong known text
  | '-' :: short :: cluster => readCluster known (short :: cluster)
  | _ => .error (.unexpectedArgument argument)

/-- Reads arguments in order.  Two dashes end the options, and nothing may follow them. -/
def readSettings (known : List Switch) : Option Switch → List String →
    Except UsageError (List Setting)
  | none, [] => .ok []
  | some switch, [] => .error (.missingValue switch.long)
  | some switch, value :: arguments =>
      if looksLikeOption value ∧ switch.takesAnyText = false then
        .error (.missingValue switch.long)
      else
        match readSettings known none arguments with
        | .error error => .error error
        | .ok settings => .ok (⟨switch, value⟩ :: settings)
  | none, argument :: arguments =>
      if argument = "--" then
        match arguments with
        | [] => .ok []
        | extra :: _ => .error (.unexpectedArgument extra)
      else
        match readArgument known argument with
        | .error error => .error error
        | .ok reading =>
            match readSettings known reading.pending arguments with
            | .error error => .error error
            | .ok settings => .ok (reading.settings ++ settings)

def refuseRepeats : List Setting → Except UsageError Unit
  | [] => .ok ()
  | setting :: settings =>
      if settings.any fun other => other.switch == setting.switch then
        .error (.repeatedOption setting.switch.long)
      else
        refuseRepeats settings

def settings (known : List Switch) (arguments : List String) :
    Except UsageError (List Setting) :=
  match readSettings known none arguments with
  | .error error => .error error
  | .ok settings =>
      match refuseRepeats settings with
      | .error error => .error error
      | .ok () => .ok settings

def valueOf (switch : Switch) (settings : List Setting) : Except UsageError String :=
  match settings.find? fun setting => setting.switch == switch with
  | none => .error (.missingOption switch.long)
  | some setting => .ok setting.value

def isSet (switch : Switch) (settings : List Setting) : Bool :=
  settings.any fun setting => setting.switch == switch

end RegularWords.CommandLine
