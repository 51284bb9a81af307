import RegularWords.Proofs.Chains
import RegularWords.Proofs.Listing

/-!
Expressions whose chains are all built by the chain constructors.

In normal form a chain has two or more operands, and none of them is a chain of the same operator.
Rebuilding the chains of an expression from the bottom up brings it into normal form and keeps the
order of its words.
-/

namespace RegularWords

open Stream' (Seq)

namespace Expr

mutual

def isNormal : Expr → Bool
  | .literal _ => true
  | .empty => true
  | .concat factors =>
      decide (2 ≤ factors.length) && factors.all (fun factor => !factor.isConcat) &&
        areNormal factors
  | .union alternatives =>
      decide (2 ≤ alternatives.length) &&
        alternatives.all (fun alternative => !alternative.isUnion) && areNormal alternatives
  | .star inner => isNormal inner

def areNormal : List Expr → Bool
  | [] => true
  | operand :: operands => isNormal operand && areNormal operands

end

mutual

def normalized : Expr → Expr
  | .literal symbol => .literal symbol
  | .empty => .empty
  | .concat [] => .empty
  | .concat (factor :: factors) => concatAll (normalizedChain (factor :: factors))
  | .union alternatives => unionAll (normalizedChain alternatives)
  | .star inner => .star (normalized inner)

def normalizedChain : List Expr → List Expr
  | [] => []
  | operand :: operands => normalized operand :: normalizedChain operands

end

theorem areNormal_iff {operands : List Expr} :
    areNormal operands = true ↔ ∀ operand ∈ operands, operand.isNormal = true := by
  induction operands with
  | nil => simp [areNormal]
  | cons operand operands inductionHypothesis =>
      rw [areNormal, Bool.and_eq_true, inductionHypothesis, List.forall_mem_cons]

theorem isNormal_concat_iff {factors : List Expr} :
    (Expr.concat factors).isNormal = true ↔
      2 ≤ factors.length ∧
        ∀ factor ∈ factors, factor.isConcat = false ∧ factor.isNormal = true := by
  rw [isNormal]
  exact judged_iff areNormal_iff

theorem isNormal_union_iff {alternatives : List Expr} :
    (Expr.union alternatives).isNormal = true ↔
      2 ≤ alternatives.length ∧
        ∀ alternative ∈ alternatives,
          alternative.isUnion = false ∧ alternative.isNormal = true := by
  rw [isNormal]
  exact judged_iff areNormal_iff

theorem judges_isNormal : JudgesChains isNormal (2 ≤ ·) where
  node := by
    intro kind operands
    cases kind with
    | concat => exact isNormal_concat_iff
    | union => exact isNormal_union_iff
  not_one := Nat.not_succ_le_self 1

/-! ### The chain constructors give normal forms -/

theorem pieces_ne_nil_of_isNormal (kind : ChainKind) {expr : Expr}
    (normal : expr.isNormal = true) : kind.pieces expr ≠ [] := by
  rcases kind.node_or_alone expr with ⟨operands, rfl⟩ | ⟨_, alone⟩
  · have length := ((judges_isNormal.node kind).mp normal).1
    rw [kind.pieces_node]
    exact List.ne_nil_of_length_pos (Nat.lt_of_lt_of_le Nat.zero_lt_two length)
  · rw [alone]
    exact List.cons_ne_nil _ _

theorem isNormal_build (kind : ChainKind) {operands : List Expr} (someOperand : operands ≠ [])
    (normal : ∀ operand ∈ operands, operand.isNormal = true) :
    (kind.build operands).isNormal = true := by
  apply judges_isNormal.good_build kind normal
  intro several
  obtain ⟨operand, isOperand⟩ := List.exists_mem_of_ne_nil operands someOperand
  have somePiece : operands.flatMap kind.pieces ≠ [] := by
    intro none
    exact pieces_ne_nil_of_isNormal kind (normal operand isOperand)
      (List.flatMap_eq_nil_iff.mp none operand isOperand)
  have length := List.length_pos_iff.mpr somePiece
  omega

/-! ### Normalization -/

theorem normalizedChain_cons_ne_nil {operand : Expr} {operands : List Expr} :
    normalizedChain (operand :: operands) ≠ [] := by
  rw [normalizedChain]
  exact List.cons_ne_nil _ _

theorem normalized_node (kind : ChainKind) (operand : Expr) (operands : List Expr) :
    (kind.node (operand :: operands)).normalized =
      kind.build (normalizedChain (operand :: operands)) := by
  cases kind with
  | concat => rfl
  | union => rfl

mutual

theorem isNormal_normalized : ∀ {expr : Expr}, expr.unionsNonempty = true →
    expr.normalized.isNormal = true
  | .literal symbol, _ => by rw [normalized, isNormal]
  | .empty, _ => by rw [normalized, isNormal]
  | .concat [], _ => by rw [normalized, isNormal]
  | .concat (factor :: factors), nonempty => by
      rw [unionsNonempty] at nonempty
      rw [normalized]
      exact isNormal_build .concat normalizedChain_cons_ne_nil (isNormal_normalizedChain nonempty)
  | .union [], nonempty => by simp [unionsNonempty] at nonempty
  | .union (alternative :: alternatives), nonempty => by
      simp only [unionsNonempty, Bool.and_eq_true] at nonempty
      rw [normalized]
      exact isNormal_build .union normalizedChain_cons_ne_nil (isNormal_normalizedChain nonempty.2)
  | .star inner, nonempty => by
      rw [unionsNonempty] at nonempty
      rw [normalized, isNormal]
      exact isNormal_normalized nonempty

theorem isNormal_normalizedChain : ∀ {operands : List Expr}, allUnionsNonempty operands = true →
    ∀ operand ∈ normalizedChain operands, operand.isNormal = true
  | [], _ => by
      rw [normalizedChain]
      exact List.forall_mem_nil _
  | operand :: operands, nonempty => by
      simp only [allUnionsNonempty, Bool.and_eq_true] at nonempty
      rw [normalizedChain, List.forall_mem_cons]
      exact ⟨isNormal_normalized nonempty.1, isNormal_normalizedChain nonempty.2⟩

end

mutual

theorem normalized_of_isNormal : ∀ {expr : Expr}, expr.isNormal = true → expr.normalized = expr
  | .literal symbol, _ => by rw [normalized]
  | .empty, _ => by rw [normalized]
  | .concat [], normal => by simp [isNormal] at normal
  | .concat (factor :: factors), normal => by
      have same := normalizedChain_of_isNormal
        fun operand isOperand => ((isNormal_concat_iff.mp normal).2 operand isOperand).2
      rw [normalized, same]
      exact judges_isNormal.build_operands .concat normal
  | .union alternatives, normal => by
      have same := normalizedChain_of_isNormal
        fun operand isOperand => ((isNormal_union_iff.mp normal).2 operand isOperand).2
      rw [normalized, same]
      exact judges_isNormal.build_operands .union normal
  | .star inner, normal => by
      rw [isNormal] at normal
      rw [normalized, normalized_of_isNormal normal]

theorem normalizedChain_of_isNormal : ∀ {operands : List Expr},
    (∀ operand ∈ operands, operand.isNormal = true) → normalizedChain operands = operands
  | [], _ => by rw [normalizedChain]
  | operand :: operands, normal => by
      obtain ⟨first, others⟩ := List.forall_mem_cons.mp normal
      rw [normalizedChain, normalized_of_isNormal first, normalizedChain_of_isNormal others]

end

mutual

theorem unionsNonempty_of_isNormal : ∀ {expr : Expr}, expr.isNormal = true →
    expr.unionsNonempty = true
  | .literal symbol, _ => by rw [unionsNonempty]
  | .empty, _ => by rw [unionsNonempty]
  | .concat factors, normal => by
      rw [unionsNonempty]
      apply allUnionsNonempty_of_isNormal
      intro factor isFactor
      exact ((isNormal_concat_iff.mp normal).2 factor isFactor).2
  | .union alternatives, normal => by
      obtain ⟨length, operands⟩ := isNormal_union_iff.mp normal
      have someAlternative : alternatives.isEmpty = false := by
        rw [List.isEmpty_eq_false_iff]
        exact List.ne_nil_of_length_pos (Nat.lt_of_lt_of_le Nat.zero_lt_two length)
      rw [unionsNonempty, someAlternative, Bool.not_false, Bool.true_and]
      apply allUnionsNonempty_of_isNormal
      intro alternative isAlternative
      exact (operands alternative isAlternative).2
  | .star inner, normal => by
      rw [isNormal] at normal
      rw [unionsNonempty]
      exact unionsNonempty_of_isNormal normal

theorem allUnionsNonempty_of_isNormal : ∀ {operands : List Expr},
    (∀ operand ∈ operands, operand.isNormal = true) → allUnionsNonempty operands = true
  | [], _ => by rw [allUnionsNonempty]
  | operand :: operands, normal => by
      obtain ⟨first, others⟩ := List.forall_mem_cons.mp normal
      rw [allUnionsNonempty, unionsNonempty_of_isNormal first,
        allUnionsNonempty_of_isNormal others, Bool.and_true]

end

/-! ### Normalization keeps the order of words -/

theorem factorListing_append (first second : List Expr) :
    factorListing (first ++ second) =
      (factorListing first).product (factorListing second) := by
  induction first with
  | nil => rw [List.nil_append, factorListing, Listing.single_product]
  | cons factor first inductionHypothesis =>
      rw [List.cons_append, factorListing, factorListing, inductionHypothesis,
        Listing.product_assoc]

theorem alternativeListing_append (first second : List Expr) :
    alternativeListing (first ++ second) =
      (alternativeListing first).append (alternativeListing second) := by
  induction first with
  | nil => rw [List.nil_append, alternativeListing, Seq.nil_append]
  | cons alternative first inductionHypothesis =>
      rw [List.cons_append, alternativeListing, alternativeListing, inductionHypothesis,
        Seq.append_assoc]

theorem factorListing_singleton (expr : Expr) : factorListing [expr] = expr.listing := by
  rw [factorListing, factorListing, Listing.product_single_nil]

theorem alternativeListing_singleton (expr : Expr) :
    alternativeListing [expr] = expr.listing := by
  rw [alternativeListing, alternativeListing, Seq.append_nil]

theorem factorListing_factors (expr : Expr) : factorListing expr.factors = expr.listing := by
  cases expr with
  | concat factors => rw [listing, Expr.factors]
  | literal symbol => exact factorListing_singleton _
  | empty => exact factorListing_singleton _
  | union alternatives => exact factorListing_singleton _
  | star inner => exact factorListing_singleton _

theorem alternativeListing_alternatives (expr : Expr) :
    alternativeListing expr.alternatives = expr.listing := by
  cases expr with
  | union alternatives => rw [listing, Expr.alternatives]
  | literal symbol => exact alternativeListing_singleton _
  | empty => exact alternativeListing_singleton _
  | concat factors => exact alternativeListing_singleton _
  | star inner => exact alternativeListing_singleton _

theorem factorListing_flatMap (operands : List Expr) :
    factorListing (operands.flatMap factors) = factorListing operands := by
  induction operands with
  | nil => rfl
  | cons operand operands inductionHypothesis =>
      rw [List.flatMap_cons, factorListing_append, factorListing_factors, inductionHypothesis,
        factorListing]

theorem alternativeListing_flatMap (operands : List Expr) :
    alternativeListing (operands.flatMap alternatives) = alternativeListing operands := by
  induction operands with
  | nil => rfl
  | cons operand operands inductionHypothesis =>
      rw [List.flatMap_cons, alternativeListing_append, alternativeListing_alternatives,
        inductionHypothesis, alternativeListing]

theorem listing_concatAll (operands : List Expr) :
    (concatAll operands).listing = factorListing operands := by
  rw [← factorListing_flatMap]
  unfold concatAll
  split
  · rename_i single alone
    rw [alone, factorListing_singleton]
  · rw [listing]

theorem listing_unionAll (operands : List Expr) :
    (unionAll operands).listing = alternativeListing operands := by
  rw [← alternativeListing_flatMap]
  unfold unionAll
  split
  · rename_i single alone
    rw [alone, alternativeListing_singleton]
  · rw [listing]

mutual

/-- Normalization changes no word of the enumeration. -/
theorem listing_normalized : ∀ expr : Expr, expr.normalized.listing = expr.listing
  | .literal symbol => by rw [normalized]
  | .empty => by rw [normalized]
  | .concat [] => by rw [normalized, listing, listing, factorListing]
  | .concat (factor :: factors) => by
      rw [normalized, listing_concatAll, factorListing_normalizedChain, listing]
  | .union alternatives => by
      rw [normalized, listing_unionAll, alternativeListing_normalizedChain, listing]
  | .star inner => by rw [normalized, listing, listing, listing_normalized inner]

theorem factorListing_normalizedChain : ∀ factors : List Expr,
    factorListing (normalizedChain factors) = factorListing factors
  | [] => by rw [normalizedChain]
  | factor :: factors => by
      rw [normalizedChain, factorListing, factorListing, listing_normalized factor,
        factorListing_normalizedChain factors]

theorem alternativeListing_normalizedChain : ∀ alternatives : List Expr,
    alternativeListing (normalizedChain alternatives) = alternativeListing alternatives
  | [] => by rw [normalizedChain]
  | alternative :: alternatives => by
      rw [normalizedChain, alternativeListing, alternativeListing, listing_normalized alternative,
        alternativeListing_normalizedChain alternatives]

end

end Expr

end RegularWords
