import RegularWords.Expr.Finite
import RegularWords.Expr.Printer

/-!
Where the order of enumeration hides words for good.

Words are enumerated left before right and fewer repetitions before more, so an infinite operand
keeps whatever comes after it from ever being reached.  Each operator has its own way to lose words.
-/

namespace RegularWords

inductive StarvationKind where
  /-- An alternative follows an infinite one and is never started. -/
  | unionRightUnreachable
  /-- A factor stands before an infinite one and never gets past its first word. -/
  | concatLeftStalled
  /-- The inside of a repetition is infinite and is never repeated twice. -/
  | starLevelUnbounded
  deriving DecidableEq

structure Starvation where
  kind : StarvationKind
  expr : Expr
  deriving DecidableEq

def StarvationKind.explanation : StarvationKind → String
  | .unionRightUnreachable => "left operand is infinite, right operand is never reached"
  | .concatLeftStalled => "right operand is infinite, only the first left word is used"
  | .starLevelUnbounded => "repeated expression is infinite, only one repetition is produced"

def Starvation.message (starvation : Starvation) : String :=
  starvation.expr.print ++ ": " ++ starvation.kind.explanation

namespace Expr

/-- Whether an infinite factor follows one that does not have exactly one word.  Factors of one word
lose nothing, so they are passed over. -/
def stalls (factors : List Expr) : Bool :=
  match factors.dropWhile fun factor => factor.count? == some 1 with
  | [] => false
  | _ :: later => later.any fun factor => !factor.isFinite

def hides (alternatives : List Expr) : Bool :=
  alternatives.dropLast.any fun alternative => !alternative.isFinite

def starvation? : Expr → Option StarvationKind
  | .literal _ => none
  | .empty => none
  | .concat factors => if stalls factors then some .concatLeftStalled else none
  | .union alternatives => if hides alternatives then some .unionRightUnreachable else none
  | .star inner => if inner.isFinite then none else some .starLevelUnbounded

def rootStarvation (expr : Expr) : List Starvation :=
  match expr.starvation? with
  | none => []
  | some kind => [{ kind := kind, expr := expr }]

mutual

/-- The nodes that lose words, every node before those inside it and operands from the left. -/
def starvations : Expr → List Starvation
  | .literal _ => []
  | .empty => []
  | .concat factors => rootStarvation (.concat factors) ++ chainStarvations factors
  | .union alternatives => rootStarvation (.union alternatives) ++ chainStarvations alternatives
  | .star inner => rootStarvation (.star inner) ++ starvations inner

def chainStarvations : List Expr → List Starvation
  | [] => []
  | operand :: operands => starvations operand ++ chainStarvations operands

end

/-- A factor of one word is passed over, and any other must not have an infinite one behind it. -/
theorem stalls_cons (factor : Expr) (factors : List Expr) :
    stalls (factor :: factors) =
      if factor.count? = some 1 then stalls factors else !areFinite factors := by
  by_cases alone : factor.count? = some 1
  · rw [if_pos alone, stalls, stalls, List.dropWhile_cons_of_pos (by rw [alone]; rfl)]
  · rw [if_neg alone, stalls, List.dropWhile_cons_of_neg (by simpa using alone), areFinite_eq_all,
      List.not_all_eq_any_not]

/-- An infinite alternative must not have any behind it. -/
theorem hides_cons (alternative : Expr) (alternatives : List Expr) :
    hides (alternative :: alternatives) =
      if alternative.isFinite then hides alternatives else !alternatives.isEmpty := by
  cases alternatives with
  | nil => split <;> rfl
  | cons next alternatives =>
      rw [hides, List.dropLast_cons_cons, List.any_cons, ← hides]
      cases alternative.isFinite with
      | true => rfl
      | false => rfl

theorem chainStarvations_eq_flatMap (operands : List Expr) :
    chainStarvations operands = operands.flatMap starvations := by
  induction operands with
  | nil => rfl
  | cons operand operands inductionHypothesis =>
      simp [chainStarvations, inductionHypothesis]

end Expr

end RegularWords
