import RegularWords.Grammar.Cursor
import RegularWords.Text.Quoted

/-!
Why a text is no expression, and where that shows.
-/

namespace RegularWords.Grammar

inductive SyntaxError where
  /-- The text ends where a factor is expected. -/
  | unexpectedEnd (position : Position)
  /-- The group opened at `opened` has no closing parenthesis where it ends. -/
  | unmatchedParen (opened position : Position) (found : Option Char)
  /-- A closing parenthesis closes nothing. -/
  | unmatchedCloseParen (position : Position)
  /-- A character stands where it means nothing. -/
  | unexpectedChar (position : Position) (character : Char)
  /-- Groups, or the levels of the tree, exceed the limit. -/
  | nestingTooDeep (position : Position) (limit : Nat)
  deriving DecidableEq

namespace SyntaxError

def position : SyntaxError → Position
  | .unexpectedEnd position => position
  | .unmatchedParen _ position _ => position
  | .unmatchedCloseParen position => position
  | .unexpectedChar position _ => position
  | .nestingTooDeep position _ => position

def describeFound : Option Char → String
  | some character => Text.quotedChar character
  | none => "end of expression"

def message : SyntaxError → String
  | .unexpectedEnd position => "unexpected end of expression at " ++ position.print
  | .unmatchedParen opened position found =>
      "unmatched '(' opened at " ++ opened.print ++ ": expected ')' at " ++ position.print ++
        ", found " ++ describeFound found
  | .unmatchedCloseParen position => "unmatched ')' at " ++ position.print
  | .unexpectedChar position character =>
      "unexpected character " ++ Text.quotedChar character ++ " at " ++ position.print
  | .nestingTooDeep position limit =>
      "expression nests deeper than " ++ toString limit ++ " levels at " ++ position.print

def caret (error : SyntaxError) (text : String) : String :=
  text ++ "\n" ++ String.ofList (List.replicate error.position.offset ' ') ++ "^"

end SyntaxError

end RegularWords.Grammar
