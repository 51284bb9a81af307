/-!
Regular expressions as trees.

Concatenations and unions are chains: one node holds all operands in order, so only groups and
repetitions make a tree deeper.  A chain may have any number of operands; a concatenation of none
denotes the empty word and a union of none denotes no word.
-/

namespace RegularWords

inductive Expr where
  | literal (symbol : Char)
  | empty
  | concat (factors : List Expr)
  | union (alternatives : List Expr)
  | star (inner : Expr)

namespace Expr

instance : Inhabited Expr := ⟨.empty⟩

/-! ### Equality of trees -/

mutual

def same : Expr → Expr → Bool
  | .literal a, .literal b => a == b
  | .empty, .empty => true
  | .concat xs, .concat ys => sameChain xs ys
  | .union xs, .union ys => sameChain xs ys
  | .star x, .star y => same x y
  | _, _ => false

def sameChain : List Expr → List Expr → Bool
  | [], [] => true
  | x :: xs, y :: ys => same x y && sameChain xs ys
  | _, _ => false

end

mutual

theorem eq_of_same : ∀ {x y : Expr}, same x y = true → x = y
  | .literal a, .literal b, agree => by simpa [same] using agree
  | .empty, .empty, _ => rfl
  | .concat xs, .concat ys, agree => by
      rw [@eq_of_sameChain xs ys (by simpa [same] using agree)]
  | .union xs, .union ys, agree => by
      rw [@eq_of_sameChain xs ys (by simpa [same] using agree)]
  | .star x, .star y, agree => by
      rw [@eq_of_same x y (by simpa [same] using agree)]

theorem eq_of_sameChain : ∀ {xs ys : List Expr}, sameChain xs ys = true → xs = ys
  | [], [], _ => rfl
  | x :: xs, y :: ys, agree => by
      simp only [sameChain, Bool.and_eq_true] at agree
      rw [eq_of_same agree.1, eq_of_sameChain agree.2]

end

mutual

theorem same_self : ∀ x : Expr, same x x = true
  | .literal a => by simp [same]
  | .empty => rfl
  | .concat xs => by simpa [same] using sameChain_self xs
  | .union xs => by simpa [same] using sameChain_self xs
  | .star x => by simpa [same] using same_self x

theorem sameChain_self : ∀ xs : List Expr, sameChain xs xs = true
  | [] => rfl
  | x :: xs => by simp [sameChain, same_self x, sameChain_self xs]

end

theorem same_iff {x y : Expr} : same x y = true ↔ x = y :=
  ⟨eq_of_same, fun equal => equal ▸ same_self x⟩

instance : DecidableEq Expr := fun x y =>
  decidable_of_iff (same x y = true) same_iff

end Expr

end RegularWords
