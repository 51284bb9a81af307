import RegularWords.Expr

/-!
Expressions as text, with the fewest parentheses.

Union binds loosest, then concatenation, then repetition.  An operand is put in parentheses exactly
if its own operator binds looser than its place asks for.
-/

namespace RegularWords.Expr

/-- How tightly the outermost operator binds. -/
def precedence : Expr → Nat
  | .union _ => 0
  | .concat _ => 1
  | .star _ => 2
  | .literal _ => 3
  | .empty => 3

def alternativeLevel : Nat := 1

/-- The precedence that a factor, or the inside of a repetition, needs. -/
def factorLevel : Nat := 2

def parenthesize (level : Nat) (operand : Expr) (text : List Char) : List Char :=
  if operand.precedence < level then '(' :: text ++ [')'] else text

mutual

def characters : Expr → List Char
  | .literal symbol => [symbol]
  | .empty => ['@']
  | .concat [] => ['@']
  | .concat (factor :: factors) => factorCharacters (factor :: factors)
  | .union alternatives => alternativeCharacters alternatives
  | .star inner => parenthesize factorLevel inner (characters inner) ++ ['*']

def factorCharacters : List Expr → List Char
  | [] => []
  | factor :: factors =>
      parenthesize factorLevel factor (characters factor) ++ factorCharacters factors

def alternativeCharacters : List Expr → List Char
  | [] => []
  | [alternative] => parenthesize alternativeLevel alternative (characters alternative)
  | alternative :: next :: alternatives =>
      parenthesize alternativeLevel alternative (characters alternative) ++
        '+' :: alternativeCharacters (next :: alternatives)

end

def print (expr : Expr) : String :=
  String.ofList expr.characters

end RegularWords.Expr
