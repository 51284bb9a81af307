import RegularWords.Alphabet.Order
import RegularWords.Journal

/-!
Requests for the first words of an expression, and their answers.

A request is answered by the first words of the enumeration, as many as are asked for or as there
are, optionally without repeats and optionally sorted.  Repeats are dropped after taking, so an
answer always ends.  An answer is given whole or not at all.
-/

namespace RegularWords

inductive Failure where
  | notAnExpression (error : Grammar.SyntaxError)
  | unusableInput (error : InputError)
  deriving DecidableEq

namespace Failure

def message : Failure → String
  | .notAnExpression error => "syntax error: " ++ error.message
  | .unusableInput error => "invalid input: " ++ error.message

def report (failure : Failure) (text : String) : String :=
  match failure with
  | .notAnExpression error => failure.message ++ "\n" ++ error.caret text
  | .unusableInput _ => failure.message

end Failure

structure Request where
  alphabet : Alphabet
  expression : String
  count : Count
  distinct : Bool
  /-- Whether the words are sorted, by the order of the alphabet. -/
  sorted : Bool

namespace Request

/-- What is asked for without further wishes: sorted words, repeats among them. -/
def plain (alphabet : Alphabet) (expression : String) (count : Count) : Request :=
  { alphabet := alphabet, expression := expression, count := count
    distinct := false, sorted := true }

/-- A plain request from typed texts.  The alphabet is judged before the count, and the expression
when the request is answered. -/
def ofTexts (alphabet expression count : String) : Except InputError Request :=
  match Alphabet.ofText alphabet with
  | .error error => .error error
  | .ok alphabet =>
      match Count.ofText count with
      | .error error => .error error
      | .ok count => .ok (plain alphabet expression count)

def select (request : Request) (expr : Expr) : List Word :=
  let taken := (expr.words.take request.count.number).1
  let kept := if request.distinct then Distinct.firsts taken else taken
  if request.sorted then request.alphabet.sort kept else kept

def answer (request : Request) : Except Failure (List Word) :=
  match Grammar.parse request.alphabet request.expression with
  | .error error => .error (.notAnExpression error)
  | .ok expr => .ok (request.select expr)

def journal (request : Request) : Journal :=
  let reading := Journal.ofParsing request.alphabet request.expression
  match Grammar.parse request.alphabet request.expression with
  | .error _ => reading
  | .ok expr =>
      let number := request.count.number
      let taken := (expr.words.take number).1
      reading ++ expr.starvations.map .starved ++ Journal.ofTaking number expr ++
        [.collected taken.length request.count expr]

end Request

/-- How a word is shown: the empty word as an at sign. -/
def Word.render : Word → String
  | [] => "@"
  | symbol :: symbols => String.ofList (symbol :: symbols)

def renderLines (words : List Word) : String :=
  String.join (words.map fun word => word.render ++ "\n")

end RegularWords
