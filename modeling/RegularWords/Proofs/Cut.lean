import RegularWords.Expr.Starvation
import RegularWords.Proofs.Endless
import RegularWords.Proofs.Enumeration
import RegularWords.Proofs.Language

/-!
What starvation leaves of an expression.

`Expr.cut` takes away what the enumeration never reaches: the alternatives behind an infinite one,
all words but the first of the factors before the last infinite one, and the second and later levels
of a repetition with an infinite inside.  What is left is enumerated word for word as before, and
loses nothing.
-/

namespace RegularWords

open Stream' (Seq)

namespace Listing

theorem head_product {left right : Listing} {stem word : Word} (leftHead : left.head = some stem)
    (rightHead : right.head = some word) :
    (product left right).head = some (stem ++ word) := by
  rw [Seq.head_eq_some leftHead, Seq.head_eq_some rightHead, product_cons_cons,
    Seq.head_cons]

end Listing

namespace Expr

/-! ### First words -/

mutual

def firstWord : Expr → Word
  | .literal symbol => [symbol]
  | .empty => []
  | .concat factors => firstFactorWord factors
  | .union alternatives => firstAlternativeWord alternatives
  | .star _ => []

def firstFactorWord : List Expr → Word
  | [] => []
  | factor :: factors => firstWord factor ++ firstFactorWord factors

def firstAlternativeWord : List Expr → Word
  | [] => []
  | alternative :: _ => firstWord alternative

end

mutual

theorem head_listing : ∀ {expr : Expr}, expr.unionsNonempty = true →
    expr.listing.head = some expr.firstWord
  | .literal symbol, _ => by rw [listing, firstWord, Listing.single, Seq.head_cons]
  | .empty, _ => by rw [listing, firstWord, Listing.single, Seq.head_cons]
  | .concat factors, nonempty => by
      rw [unionsNonempty] at nonempty
      rw [listing, firstWord]
      exact head_factorListing nonempty
  | .union (alternative :: alternatives), nonempty => by
      simp only [unionsNonempty, allUnionsNonempty, Bool.and_eq_true] at nonempty
      rw [listing, alternativeListing, firstWord, firstAlternativeWord,
        Seq.head_eq_some (head_listing nonempty.2.1), Seq.cons_append, Seq.head_cons]
  | .star inner, _ => by
      rw [listing, firstWord, Levels.closure_eq, Seq.head_cons]

theorem head_factorListing : ∀ {factors : List Expr}, allUnionsNonempty factors = true →
    (factorListing factors).head = some (firstFactorWord factors)
  | [], _ => by rw [factorListing, firstFactorWord, Listing.single, Seq.head_cons]
  | factor :: factors, nonempty => by
      rw [allUnionsNonempty, Bool.and_eq_true] at nonempty
      rw [factorListing, firstFactorWord]
      exact Listing.head_product (head_listing nonempty.1) (head_factorListing nonempty.2)

end

/-- The first word is the one that the first call gives. -/
theorem next_words {expr : Expr} (nonempty : expr.unionsNonempty = true) :
    expr.words.next.1 = some expr.firstWord := by
  rw [(Words.lists_words nonempty).next.2.1, head_listing nonempty]

/-! ### What is left -/

def spelled (word : Word) : Expr :=
  .concat (word.map .literal)

/-- The factors, those before the last infinite one reduced to their first words. -/
def pinned : List Expr → List Expr
  | [] => []
  | factor :: factors =>
      if areFinite factors then factor :: factors
      else spelled factor.firstWord :: pinned factors

/-- The alternatives up to the first infinite one, which is kept. -/
def reached : List Expr → List Expr
  | [] => []
  | alternative :: alternatives =>
      if alternative.isFinite then alternative :: reached alternatives else [alternative]

/-- At most one repetition of the inside if that is infinite. -/
def repeated (inner : Expr) : Expr :=
  if inner.isFinite then .star inner else .union [.empty, inner]

mutual

def cut : Expr → Expr
  | .literal symbol => .literal symbol
  | .empty => .empty
  | .concat factors => .concat (pinned (cutChain factors))
  | .union alternatives => .union (reached (cutChain alternatives))
  | .star inner => repeated (cut inner)

def cutChain : List Expr → List Expr
  | [] => []
  | operand :: operands => cut operand :: cutChain operands

end

/-! ### Spelled words -/

section Spelled

theorem factorListing_literals (word : Word) :
    factorListing (word.map .literal) = .single word := by
  induction word with
  | nil => rw [List.map_nil, factorListing]
  | cons symbol word inductionHypothesis =>
      rw [List.map_cons, factorListing, listing, inductionHypothesis, Listing.product_single,
        Listing.single, Listing.single, Seq.map_cons, Seq.map_nil, List.singleton_append]

theorem listing_spelled (word : Word) : (spelled word).listing = .single word := by
  rw [spelled, listing, factorListing_literals]

theorem count?_spelled (word : Word) : (spelled word).count? = some 1 := by
  rw [spelled, count?]
  induction word with
  | nil => rw [List.map_nil, productFrom]
  | cons symbol word inductionHypothesis =>
      rw [List.map_cons, productFrom, count?, Option.bind_some, Nat.mul_one,
        withinLimit_eq_some_iff.mpr ⟨by decide, rfl⟩, Option.bind_some]
      exact inductionHypothesis

theorem unionsNonempty_spelled (word : Word) : (spelled word).unionsNonempty = true := by
  rw [spelled, unionsNonempty, allUnionsNonempty_iff, List.forall_mem_map]
  intro symbol _
  rw [unionsNonempty]

theorem starvations_spelled (word : Word) : (spelled word).starvations = [] := by
  rw [spelled, starvations_concat_eq_nil_iff]
  constructor
  · apply stalls_eq_false_of_finite
    rw [areFinite_eq_all, List.all_map, List.all_eq_true]
    intro symbol _
    rw [Function.comp_apply, isFinite]
  · rw [chainStarvations_eq_flatMap, List.flatMap_eq_nil_iff, List.forall_mem_map]
    intro symbol _
    rw [starvations]

end Spelled

/-! ### Chains that are cut -/

section Chains

theorem isFinite_spelled (word : Word) : (spelled word).isFinite = true :=
  (length_wordList (count?_spelled word)).1

theorem areFinite_pinned (factors : List Expr) :
    areFinite (pinned factors) = areFinite factors := by
  induction factors with
  | nil => rfl
  | cons factor factors inductionHypothesis =>
      rw [pinned]
      split
      · rfl
      · rename_i infinite
        rw [areFinite, areFinite, isFinite_spelled, inductionHypothesis,
          Bool.eq_false_iff.mpr infinite, Bool.and_false, Bool.and_false]

theorem allUnionsNonempty_pinned {factors : List Expr}
    (nonempty : allUnionsNonempty factors = true) : allUnionsNonempty (pinned factors) = true := by
  induction factors with
  | nil => exact nonempty
  | cons factor factors inductionHypothesis =>
      rw [pinned]
      split
      · exact nonempty
      · rw [allUnionsNonempty, Bool.and_eq_true] at nonempty ⊢
        exact ⟨unionsNonempty_spelled _, inductionHypothesis nonempty.2⟩

theorem factorListing_pinned {factors : List Expr} (nonempty : allUnionsNonempty factors = true) :
    factorListing (pinned factors) = factorListing factors := by
  induction factors with
  | nil => rfl
  | cons factor factors inductionHypothesis =>
      rw [pinned]
      split
      · rfl
      · rename_i infinite
        rw [allUnionsNonempty, Bool.and_eq_true] at nonempty
        have noEnd := endless_factorListing nonempty.2 (Bool.eq_false_iff.mpr infinite)
        rw [factorListing, factorListing, listing_spelled, inductionHypothesis nonempty.2,
          Seq.head_eq_some (head_listing nonempty.1), Listing.product_of_endless noEnd]

theorem stalls_pinned (factors : List Expr) : stalls (pinned factors) = false := by
  induction factors with
  | nil => rfl
  | cons factor factors inductionHypothesis =>
      rw [pinned]
      split
      · rename_i finite
        rw [stalls_cons, stalls_eq_false_of_finite finite, finite]
        split <;> rfl
      · rw [stalls_cons, if_pos (count?_spelled _), inductionHypothesis]

theorem chainStarvations_pinned {factors : List Expr}
    (unstarved : chainStarvations factors = []) : chainStarvations (pinned factors) = [] := by
  induction factors with
  | nil => rfl
  | cons factor factors inductionHypothesis =>
      rw [pinned]
      split
      · exact unstarved
      · rw [chainStarvations, List.append_eq_nil_iff] at unstarved ⊢
        exact ⟨starvations_spelled _, inductionHypothesis unstarved.2⟩

theorem areFinite_reached (alternatives : List Expr) :
    areFinite (reached alternatives) = areFinite alternatives := by
  induction alternatives with
  | nil => rfl
  | cons alternative alternatives inductionHypothesis =>
      rw [reached]
      split
      · rw [areFinite, areFinite, inductionHypothesis]
      · rename_i infinite
        rw [areFinite, areFinite, areFinite, Bool.eq_false_iff.mpr infinite, Bool.false_and,
          Bool.false_and]

theorem allUnionsNonempty_reached {alternatives : List Expr}
    (nonempty : allUnionsNonempty alternatives = true) :
    allUnionsNonempty (reached alternatives) = true := by
  induction alternatives with
  | nil => exact nonempty
  | cons alternative alternatives inductionHypothesis =>
      rw [allUnionsNonempty, Bool.and_eq_true] at nonempty
      rw [reached]
      split
      · rw [allUnionsNonempty, nonempty.1, inductionHypothesis nonempty.2, Bool.and_true]
      · rw [allUnionsNonempty, allUnionsNonempty, nonempty.1, Bool.and_true]

theorem alternativeListing_reached {alternatives : List Expr}
    (nonempty : allUnionsNonempty alternatives = true) :
    alternativeListing (reached alternatives) = alternativeListing alternatives := by
  induction alternatives with
  | nil => rfl
  | cons alternative alternatives inductionHypothesis =>
      rw [allUnionsNonempty, Bool.and_eq_true] at nonempty
      rw [reached]
      split
      · rw [alternativeListing, alternativeListing, inductionHypothesis nonempty.2]
      · rename_i infinite
        have noEnd := endless_listing nonempty.1 (Bool.eq_false_iff.mpr infinite)
        rw [alternativeListing, alternativeListing, alternativeListing, Seq.append_nil,
          Listing.append_of_endless noEnd]

theorem hides_reached (alternatives : List Expr) : hides (reached alternatives) = false := by
  induction alternatives with
  | nil => rfl
  | cons alternative alternatives inductionHypothesis =>
      rw [reached]
      split
      · rename_i finite
        rw [hides_cons, if_pos finite, inductionHypothesis]
      · rename_i infinite
        rw [hides_cons, if_neg infinite]
        rfl

theorem chainStarvations_reached {alternatives : List Expr}
    (unstarved : chainStarvations alternatives = []) :
    chainStarvations (reached alternatives) = [] := by
  induction alternatives with
  | nil => rfl
  | cons alternative alternatives inductionHypothesis =>
      rw [chainStarvations, List.append_eq_nil_iff] at unstarved
      rw [reached]
      split
      · rw [chainStarvations, unstarved.1, inductionHypothesis unstarved.2, List.append_nil]
      · rw [chainStarvations, chainStarvations, unstarved.1, List.append_nil]

theorem reached_cons_ne_nil (alternative : Expr) (alternatives : List Expr) :
    reached (alternative :: alternatives) ≠ [] := by
  rw [reached]
  split <;> exact List.cons_ne_nil _ _

end Chains

/-! ### Nothing is lost -/

/-- What remains of an expression is enumerated as it was, and loses nothing more. -/
structure Remains (expr remains : Expr) : Prop where
  nonempty : remains.unionsNonempty = true
  finite : remains.isFinite = expr.isFinite
  listing : remains.listing = expr.listing
  unstarved : remains.starvations = []

structure RemainChain (operands remains : List Expr) : Prop where
  nonempty : allUnionsNonempty remains = true
  finite : areFinite remains = areFinite operands
  factors : factorListing remains = factorListing operands
  alternatives : alternativeListing remains = alternativeListing operands
  unstarved : chainStarvations remains = []

theorem remains_repeated {inner remains : Expr} (remain : Remains inner remains) :
    Remains (.star inner) (repeated remains) := by
  unfold repeated
  split
  · rename_i finite
    refine ⟨?_, ?_, ?_, ?_⟩
    · rw [unionsNonempty, remain.nonempty]
    · rw [isFinite, isFinite]
    · rw [listing, listing, remain.listing]
    · exact starvations_star_eq_nil_iff.mpr ⟨finite, remain.unstarved⟩
  · rename_i infinite
    have infinite := Bool.eq_false_iff.mpr infinite
    have noEnd := endless_listing remain.nonempty infinite
    refine ⟨?_, ?_, ?_, ?_⟩
    · simp [unionsNonempty, allUnionsNonempty, remain.nonempty]
    · simp [isFinite, areFinite, infinite]
    · rw [listing, alternativeListing, alternativeListing, alternativeListing, Seq.append_nil,
        listing, Listing.single, Seq.cons_append, Seq.nil_append, listing, ← remain.listing,
        Listing.closure_of_endless noEnd]
    · refine starvations_union_eq_nil_iff.mpr ⟨?_, ?_⟩
      · rw [hides_cons, isFinite]
        rfl
      · simp [chainStarvations, starvations, remain.unstarved]

mutual

theorem remains_cut : ∀ {expr : Expr}, expr.unionsNonempty = true → Remains expr expr.cut
  | .literal symbol, nonempty => by
      rw [cut]
      exact ⟨nonempty, rfl, rfl, by rw [starvations]⟩
  | .empty, nonempty => by
      rw [cut]
      exact ⟨nonempty, rfl, rfl, by rw [starvations]⟩
  | .concat factors, nonempty => by
      rw [unionsNonempty] at nonempty
      have remain := remain_cutChain nonempty
      rw [cut]
      refine ⟨?_, ?_, ?_, ?_⟩
      · rw [unionsNonempty, allUnionsNonempty_pinned remain.nonempty]
      · rw [isFinite, isFinite, areFinite_pinned, remain.finite]
      · rw [listing, listing, factorListing_pinned remain.nonempty, remain.factors]
      · exact starvations_concat_eq_nil_iff.mpr
          ⟨stalls_pinned _, chainStarvations_pinned remain.unstarved⟩
  | .union (alternative :: alternatives), nonempty => by
      rw [unionsNonempty, Bool.and_eq_true] at nonempty
      have remain := remain_cutChain nonempty.2
      have someAlternative : reached (cutChain (alternative :: alternatives)) ≠ [] := by
        rw [cutChain]
        exact reached_cons_ne_nil _ _
      rw [cut]
      refine ⟨?_, ?_, ?_, ?_⟩
      · rw [unionsNonempty, allUnionsNonempty_reached remain.nonempty, Bool.and_true,
          Bool.not_eq_true', List.isEmpty_eq_false_iff]
        exact someAlternative
      · rw [isFinite, isFinite, areFinite_reached, remain.finite]
      · rw [listing, listing, alternativeListing_reached remain.nonempty, remain.alternatives]
      · exact starvations_union_eq_nil_iff.mpr
          ⟨hides_reached _, chainStarvations_reached remain.unstarved⟩
  | .star inner, nonempty => by
      rw [unionsNonempty] at nonempty
      rw [cut]
      exact remains_repeated (remains_cut nonempty)

theorem remain_cutChain : ∀ {operands : List Expr}, allUnionsNonempty operands = true →
    RemainChain operands (cutChain operands)
  | [], nonempty => by
      rw [cutChain]
      exact ⟨nonempty, rfl, rfl, rfl, by rw [chainStarvations]⟩
  | operand :: operands, nonempty => by
      rw [allUnionsNonempty, Bool.and_eq_true] at nonempty
      have first := remains_cut nonempty.1
      have others := remain_cutChain nonempty.2
      rw [cutChain]
      refine ⟨?_, ?_, ?_, ?_, ?_⟩
      · rw [allUnionsNonempty, first.nonempty, others.nonempty, Bool.and_true]
      · rw [areFinite, areFinite, first.finite, others.finite]
      · rw [factorListing, factorListing, first.listing, others.factors]
      · rw [alternativeListing, alternativeListing, first.listing, others.alternatives]
      · rw [chainStarvations, first.unstarved, others.unstarved, List.append_nil]

end

end Expr

namespace Words

/-- The cut of an expression loses nothing, and call by call its enumeration is that of the
expression itself. -/
theorem words_cut {expr : Expr} (nonempty : expr.unionsNonempty = true) :
    expr.cut.unionsNonempty = true ∧ expr.cut.starvations = [] ∧
      ∀ number : Nat, (expr.words.after number).Returns ∧ (expr.cut.words.after number).Returns ∧
        (expr.cut.words.after number).next.1 = (expr.words.after number).next.1 := by
  have remain := Expr.remains_cut nonempty
  refine ⟨remain.nonempty, remain.unstarved, ?_⟩
  intro number
  obtain ⟨returns, gives⟩ := (lists_words nonempty).call number
  obtain ⟨cutReturns, cutGives⟩ := (lists_words remain.nonempty).call number
  exact ⟨returns, cutReturns, by rw [cutGives, gives, remain.listing]⟩

/-- Of `((a+b)(c*)*+d)` the first alternative alone is left: `a` alone goes before the words of the
last factor, and that is repeated at most once. -/
theorem words_cut_nested :
    let inner := Expr.star (.star (.literal 'c'))
    let left := Expr.concat [.union [.literal 'a', .literal 'b'], inner]
    let expr := Expr.union [left, .literal 'd']
    expr.unionsNonempty = true ∧ expr.starvations.length = 3 ∧
      expr.cut = .union [.concat [.concat [.literal 'a'],
        .union [.empty, .star (.literal 'c')]]] ∧
      expr.cut.starvations = [] ∧
        (expr.cut.words.after 4).next.1 = (expr.words.after 4).next.1 := by
  intro inner left expr
  have nonempty : expr.unionsNonempty = true := rfl
  obtain ⟨_, unstarved, calls⟩ := words_cut nonempty
  exact ⟨nonempty, rfl, rfl, unstarved, (calls 4).2.2⟩

end Words

end RegularWords
