import RegularWords.Proofs.FiniteListing

/-!
Listings without an end.

What follows an endless listing never comes.  An expression whose unions all have alternatives lists
words without end exactly if it has a repetition.
-/

namespace RegularWords

open Stream' (Seq)

namespace Listing

theorem append_of_endless {endless : Listing} (noEnd : ¬ endless.Terminates) (hidden : Listing) :
    endless.append hidden = endless := by
  refine Seq.eq_of_bisim'
    (fun left right => ¬ right.Terminates ∧ left = right.append hidden) ⟨noEnd, rfl⟩ ?_
  rintro _ right ⟨noEnd, rfl⟩
  cases right with
  | nil => exact absurd Seq.terminates_nil noEnd
  | cons word words =>
      right
      rw [Seq.terminates_cons_iff] at noEnd
      exact ⟨word, _, _, Seq.cons_append _ _ _, rfl, noEnd, rfl⟩

theorem terminatedAt_of_append {first second : Listing} {number : Nat}
    (ended : (first.append second).TerminatedAt number) : second.TerminatedAt number := by
  induction number generalizing first with
  | zero =>
      cases first with
      | nil => rwa [Seq.nil_append] at ended
      | cons word words =>
          rw [Seq.cons_append] at ended
          exact absurd ended Seq.cons_not_terminatedAt_zero
  | succ number inductionHypothesis =>
      cases first with
      | nil => rwa [Seq.nil_append] at ended
      | cons word words =>
          rw [Seq.cons_append, Seq.cons_terminatedAt_succ_iff] at ended
          exact Seq.terminated_stable _ (Nat.le_succ number) (inductionHypothesis ended)

theorem endless_append_left {endless : Listing} (noEnd : ¬ endless.Terminates)
    (hidden : Listing) : ¬ (endless.append hidden).Terminates := by
  rwa [append_of_endless noEnd]

theorem endless_append_right {endless : Listing} (first : Listing) (noEnd : ¬ endless.Terminates) :
    ¬ (first.append endless).Terminates := by
  rintro ⟨number, ended⟩
  exact noEnd ⟨number, terminatedAt_of_append ended⟩

/-! ### Products and closures -/

/-- Behind an endless inner loop, the outer loop stays at its first stem. -/
theorem product_of_endless {endless : Listing} (noEnd : ¬ endless.Terminates) (stem : Word)
    (stems : Listing) : product (.cons stem stems) endless = product (single stem) endless := by
  have mapNoEnd : ¬ (endless.map (stem ++ ·)).Terminates := by
    rwa [Seq.terminates_map_iff]
  rw [cons_product, append_of_endless mapNoEnd, product_single]

theorem endless_product_right {left endless : Listing} (someStem : left ≠ .nil)
    (noEnd : ¬ endless.Terminates) : ¬ (product left endless).Terminates := by
  cases left with
  | nil => exact absurd rfl someStem
  | cons stem stems =>
      rwa [product_of_endless noEnd, product_single, Seq.terminates_map_iff]

theorem endless_product_left {endless right : Listing} (noEnd : ¬ endless.Terminates)
    (someWord : right ≠ .nil) : ¬ (product endless right).Terminates := by
  rintro ⟨number, ended⟩
  apply noEnd
  clear noEnd
  induction number generalizing endless with
  | zero =>
      rcases product_eq_nil_iff.mp (Seq.terminatedAt_zero_iff.mp ended) with rfl | rfl
      · exact Seq.terminates_nil
      · exact absurd rfl someWord
  | succ number inductionHypothesis =>
      cases endless with
      | nil => exact Seq.terminates_nil
      | cons stem stems =>
          cases right with
          | nil => exact absurd rfl someWord
          | cons word words =>
              rw [product_cons_cons, Seq.cons_terminatedAt_succ_iff] at ended
              rw [Seq.terminates_cons_iff]
              exact inductionHypothesis (terminatedAt_of_append ended)

/-- If every level has words, there is always a further level. -/
theorem endless_levelled {inner level : Listing} (someWord : inner ≠ .nil)
    (someStem : level ≠ .nil) : ¬ (levelled inner level).Terminates := by
  rintro ⟨number, ended⟩
  induction number generalizing level with
  | zero => exact someStem (levelled_eq_nil_iff.mp (Seq.terminatedAt_zero_iff.mp ended))
  | succ number inductionHypothesis =>
      cases level with
      | nil => exact someStem rfl
      | cons stem stems =>
          rw [levelled_eq, Seq.cons_append, Seq.cons_terminatedAt_succ_iff] at ended
          refine inductionHypothesis ?_ (terminatedAt_of_append ended)
          rw [ne_eq, product_eq_nil_iff, not_or]
          exact ⟨Seq.cons_ne_nil, someWord⟩

theorem endless_closure {inner : Listing} (someWord : inner ≠ .nil) :
    ¬ (closure inner).Terminates :=
  endless_levelled someWord Seq.cons_ne_nil

/-- A repetition of an endless listing stays at its first level. -/
theorem closure_of_endless {inner : Listing} (noEnd : ¬ inner.Terminates) :
    closure inner = .cons [] inner := by
  rw [closure, levelled_eq, single_product, levelled_eq, append_of_endless noEnd, single,
    Seq.cons_append, Seq.nil_append]

end Listing

/-! ### Expressions -/

namespace Expr

mutual

theorem endless_listing : ∀ {expr : Expr}, expr.unionsNonempty = true → expr.isFinite = false →
    ¬ expr.listing.Terminates
  | .concat factors, nonempty, infinite => by
      rw [unionsNonempty] at nonempty
      rw [isFinite] at infinite
      rw [listing]
      exact endless_factorListing nonempty infinite
  | .union alternatives, nonempty, infinite => by
      rw [unionsNonempty, Bool.and_eq_true] at nonempty
      rw [isFinite] at infinite
      rw [listing]
      exact endless_alternativeListing nonempty.2 infinite
  | .star inner, nonempty, _ => by
      rw [unionsNonempty] at nonempty
      rw [listing]
      exact Listing.endless_closure (listing_ne_nil nonempty)

theorem endless_factorListing : ∀ {factors : List Expr}, allUnionsNonempty factors = true →
    areFinite factors = false → ¬ (factorListing factors).Terminates
  | factor :: factors, nonempty, infinite => by
      rw [allUnionsNonempty, Bool.and_eq_true] at nonempty
      rw [areFinite, Bool.and_eq_false_iff] at infinite
      rw [factorListing]
      rcases infinite with first | later
      · exact Listing.endless_product_left (endless_listing nonempty.1 first)
          (factorListing_ne_nil nonempty.2)
      · exact Listing.endless_product_right (listing_ne_nil nonempty.1)
          (endless_factorListing nonempty.2 later)

theorem endless_alternativeListing : ∀ {alternatives : List Expr},
    allUnionsNonempty alternatives = true → areFinite alternatives = false →
      ¬ (alternativeListing alternatives).Terminates
  | alternative :: alternatives, nonempty, infinite => by
      rw [allUnionsNonempty, Bool.and_eq_true] at nonempty
      rw [areFinite, Bool.and_eq_false_iff] at infinite
      rw [alternativeListing]
      rcases infinite with first | later
      · exact Listing.endless_append_left (endless_listing nonempty.1 first) _
      · exact Listing.endless_append_right _ (endless_alternativeListing nonempty.2 later)

end

theorem terminates_listing_iff {expr : Expr} (nonempty : expr.unionsNonempty = true) :
    expr.listing.Terminates ↔ expr.isFinite = true := by
  constructor
  · intro ended
    by_contra infinite
    exact endless_listing nonempty (Bool.eq_false_iff.mpr infinite) ended
  · intro finite
    rw [listing_eq_ofList finite]
    exact Seq.terminates_ofList _

end Expr

end RegularWords
