/-!
Sets of characters, written as the code points at which membership changes.

A table `[a, b, c]` holds the characters from `a` up to and without `b`, and all from `c` on.
Ranges of a character property become ascending tables in which starts and ends alternate.
-/

namespace RegularWords.Text

/-- Code points in ascending order; membership changes at each of them. -/
structure CodeSet where
  changes : List Nat

namespace CodeSet

/-- Whether a code point lies behind an odd number of changes. -/
def holds (code : Nat) : List Nat → Bool
  | [] => false
  | [first] => decide (first ≤ code)
  | first :: behind :: later =>
      decide (first ≤ code) && (decide (code < behind) || holds code later)

def contains (set : CodeSet) (character : Char) : Bool :=
  holds character.toNat set.changes

theorem holds_nil (code : Nat) : holds code [] = false := rfl

theorem holds_range (code first behind : Nat) :
    holds code [first, behind] = true ↔ first ≤ code ∧ code < behind := by
  simp [holds]

end CodeSet

end RegularWords.Text
