import RegularWords.Count
import RegularWords.Enumeration.Words
import RegularWords.Expr.Starvation
import RegularWords.Grammar.Parser

/-!
What may be worth knowing about the way to an answer, entry by entry.
-/

namespace RegularWords

/-- How much an entry matters; later ones are more detailed. -/
inductive Severity where
  | warn
  | debug
  | trace
  deriving DecidableEq

inductive JournalEntry where
  | duplicateSymbol (symbol : Char)
  | visited (visit : Grammar.Visit)
  | parsed (text : String) (height : Nat)
  | starved (starvation : Starvation)
  | levelStarted (start : LevelStart)
  | collected (number : Nat) (requested : Count) (expr : Expr)

def Severity.detail : Severity → Nat
  | .warn => 0
  | .debug => 1
  | .trace => 2

def Severity.label : Severity → String
  | .warn => "WARN"
  | .debug => "DEBUG"
  | .trace => "TRACE"

namespace JournalEntry

def severity : JournalEntry → Severity
  | .duplicateSymbol _ => .warn
  | .visited _ => .trace
  | .parsed _ _ => .debug
  | .starved _ => .warn
  | .levelStarted _ => .trace
  | .collected _ _ _ => .debug

def message : JournalEntry → String
  | .duplicateSymbol symbol =>
      "duplicate alphabet symbol " ++ Text.quotedChar symbol ++ " ignored"
  | .visited visit => visit.production.name ++ " at " ++ visit.position.print
  | .parsed text height => "parsed " ++ Text.quotedText text ++ ": height " ++ toString height
  | .starved starvation => starvation.message
  | .levelStarted start =>
      "star " ++ start.inner.print ++ ": level " ++ toString start.number ++ " with " ++
        toString start.size ++ " prefixes"
  | .collected number requested expr =>
      "collected " ++ toString number ++ " of " ++ toString requested.number ++
        " requested words from " ++ expr.print

def print (entry : JournalEntry) : String :=
  entry.severity.label ++ " " ++ entry.message

end JournalEntry

abbrev Journal := List JournalEntry

namespace Journal

def upTo (severity : Severity) (journal : Journal) : Journal :=
  journal.filter fun entry => entry.severity.detail ≤ severity.detail

/-- The symbols of an alphabet that are typed again. -/
def ofAlphabet (typed : List Char) : Journal :=
  (Distinct.repeats typed).map .duplicateSymbol

def ofParsing (alphabet : Alphabet) (text : String) : Journal :=
  let parsing := Grammar.parsing alphabet text.toList
  let visited := parsing.visits.map .visited
  match parsing.outcome with
  | .error _ => visited
  | .ok subtree => visited ++ [.parsed text subtree.height]

def ofTaking (number : Nat) (expr : Expr) : Journal :=
  (expr.words.levelsStarted number).map .levelStarted

end Journal

end RegularWords
