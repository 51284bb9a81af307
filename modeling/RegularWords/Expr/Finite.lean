import RegularWords.Expr

/-!
How many words an enumeration yields.

A repetition never ends, not even that of the empty word, and nothing else is infinite.  The words
of a finite expression are counted with repeats, by multiplying over factors and adding over
alternatives from the left; a count is given up as soon as it passes the limit.
-/

namespace RegularWords.Expr

mutual

def isFinite : Expr → Bool
  | .literal _ => true
  | .empty => true
  | .concat factors => areFinite factors
  | .union alternatives => areFinite alternatives
  | .star _ => false

def areFinite : List Expr → Bool
  | [] => true
  | operand :: operands => isFinite operand && areFinite operands

end

def countLimit : Nat := Nat.pow 2 64 - 1

def withinLimit (number : Nat) : Option Nat :=
  if number ≤ countLimit then some number else none

mutual

/-- The number of words, with repeats; nothing for an infinite expression or beyond the limit. -/
def count? : Expr → Option Nat
  | .literal _ => some 1
  | .empty => some 1
  | .concat factors => productFrom 1 factors
  | .union alternatives => sumFrom 0 alternatives
  | .star _ => none

def productFrom (number : Nat) : List Expr → Option Nat
  | [] => some number
  | factor :: factors =>
      (count? factor).bind fun count =>
        (withinLimit (number * count)).bind fun product => productFrom product factors

def sumFrom (number : Nat) : List Expr → Option Nat
  | [] => some number
  | alternative :: alternatives =>
      (count? alternative).bind fun count =>
        (withinLimit (number + count)).bind fun sum => sumFrom sum alternatives

end

theorem areFinite_eq_all (operands : List Expr) : areFinite operands = operands.all isFinite := by
  induction operands with
  | nil => rfl
  | cons operand operands inductionHypothesis =>
      simp [areFinite, inductionHypothesis]

end RegularWords.Expr
