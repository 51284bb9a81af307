import RegularWords.Proofs.Endless
import RegularWords.Proofs.Language
import RegularWords.Proofs.NormalForm

/-!
Splicing changes neither the words of a chain nor what is found out about it.

A chain that takes over the operands of an operand has the same words in the same order, and the
words decide how many there are.  It loses words only if the nested chain did: nothing is lost in a
concatenation if only factors of one word stand before an infinite one, and nothing in a union if
only finite alternatives stand before another, and both can be said of a beginning of the chain and
of what follows it.
-/

namespace RegularWords

open Stream' (Seq)

namespace Words

/-- Two enumerations in which every call ends and calls of the same number give the same. -/
structure Agree (words others : Words) : Prop where
  returns : ∀ number, (words.after number).Returns
  otherReturns : ∀ number, (others.after number).Returns
  gives : ∀ number, (words.after number).next.1 = (others.after number).next.1

theorem Agree.trans {words others thirds : Words} (first : words.Agree others)
    (second : others.Agree thirds) : words.Agree thirds where
  returns := first.returns
  otherReturns := second.otherReturns
  gives := fun number => (first.gives number).trans (second.gives number)

end Words

namespace Expr

/-- Two expressions that neither an enumeration nor the analysis tells apart, but for where words
are lost. -/
structure Alike (expr other : Expr) : Prop where
  words : expr.words.Agree other.words
  finite : expr.isFinite = other.isFinite
  count : expr.count? = other.count?
  unstarved : expr.starvations = [] ↔ other.starvations = []

theorem Alike.trans {expr other third : Expr} (first : expr.Alike other)
    (second : other.Alike third) : expr.Alike third where
  words := first.words.trans second.words
  finite := first.finite.trans second.finite
  count := first.count.trans second.count
  unstarved := first.unstarved.trans second.unstarved

variable {expr other : Expr}

/-! ### Unions with alternatives -/

theorem unionsNonempty_concat {factors : List Expr}
    (nonempty : allUnionsNonempty factors = true) :
    (Expr.concat factors).unionsNonempty = true := by
  rwa [unionsNonempty]

theorem unionsNonempty_union {alternatives : List Expr} (someAlternative : alternatives ≠ [])
    (nonempty : allUnionsNonempty alternatives = true) :
    (Expr.union alternatives).unionsNonempty = true := by
  rw [unionsNonempty, nonempty, List.isEmpty_eq_false_iff.mpr someAlternative]
  rfl

theorem allUnionsNonempty_cons_iff {operands : List Expr} :
    allUnionsNonempty (expr :: operands) = true ↔
      expr.unionsNonempty = true ∧ allUnionsNonempty operands = true := by
  rw [allUnionsNonempty, Bool.and_eq_true]

theorem allUnionsNonempty_singleton (nonempty : expr.unionsNonempty = true) :
    allUnionsNonempty [expr] = true :=
  allUnionsNonempty_cons_iff.mpr ⟨nonempty, rfl⟩

theorem allUnionsNonempty_append {first second : List Expr}
    (firstNonempty : allUnionsNonempty first = true)
    (secondNonempty : allUnionsNonempty second = true) :
    allUnionsNonempty (first ++ second) = true := by
  rw [allUnionsNonempty_iff] at firstNonempty secondNonempty ⊢
  exact List.forall_mem_append.mpr ⟨firstNonempty, secondNonempty⟩

/-- What every operand contributes has its unions from the operand. -/
theorem allUnionsNonempty_flatMap {pieces : Expr → List Expr}
    (contributes : ∀ {operand : Expr}, operand.unionsNonempty = true →
      allUnionsNonempty (pieces operand) = true)
    {operands : List Expr} (nonempty : allUnionsNonempty operands = true) :
    allUnionsNonempty (operands.flatMap pieces) = true := by
  rw [allUnionsNonempty_iff] at nonempty ⊢
  intro piece isPiece
  obtain ⟨operand, isOperand, inOperand⟩ := List.mem_flatMap.mp isPiece
  exact allUnionsNonempty_iff.mp (contributes (nonempty operand isOperand)) piece inOperand

theorem allUnionsNonempty_factors (nonempty : expr.unionsNonempty = true) :
    allUnionsNonempty expr.factors = true := by
  cases expr with
  | concat factors => rwa [unionsNonempty] at nonempty
  | literal symbol => exact allUnionsNonempty_singleton nonempty
  | empty => exact allUnionsNonempty_singleton nonempty
  | union alternatives => exact allUnionsNonempty_singleton nonempty
  | star inner => exact allUnionsNonempty_singleton nonempty

theorem allUnionsNonempty_alternatives (nonempty : expr.unionsNonempty = true) :
    allUnionsNonempty expr.alternatives = true := by
  cases expr with
  | union alternatives =>
      rw [unionsNonempty, Bool.and_eq_true] at nonempty
      exact nonempty.2
  | literal symbol => exact allUnionsNonempty_singleton nonempty
  | empty => exact allUnionsNonempty_singleton nonempty
  | concat factors => exact allUnionsNonempty_singleton nonempty
  | star inner => exact allUnionsNonempty_singleton nonempty

theorem alternatives_ne_nil (nonempty : expr.unionsNonempty = true) : expr.alternatives ≠ [] := by
  cases expr with
  | union alternatives =>
      rw [unionsNonempty, Bool.and_eq_true, Bool.not_eq_true', List.isEmpty_eq_false_iff] at nonempty
      exact nonempty.1
  | literal symbol => exact List.cons_ne_nil _ _
  | empty => exact List.cons_ne_nil _ _
  | concat factors => exact List.cons_ne_nil _ _
  | star inner => exact List.cons_ne_nil _ _

/-- Every operand leaves an alternative, so what stood before another still does. -/
theorem flatMap_alternatives_eq_nil_iff {operands : List Expr}
    (nonempty : allUnionsNonempty operands = true) :
    operands.flatMap alternatives = [] ↔ operands = [] := by
  cases operands with
  | nil => exact Iff.rfl
  | cons operand operands =>
      have first := (allUnionsNonempty_cons_iff.mp nonempty).1
      simp [alternatives_ne_nil first]

theorem unionsNonempty_concatAll {operands : List Expr}
    (nonempty : allUnionsNonempty operands = true) :
    (concatAll operands).unionsNonempty = true := by
  have pieces := allUnionsNonempty_flatMap allUnionsNonempty_factors nonempty
  unfold concatAll
  split
  · rename_i single alone
    rw [alone] at pieces
    exact (allUnionsNonempty_cons_iff.mp pieces).1
  · exact unionsNonempty_concat pieces

theorem unionsNonempty_unionAll {operands : List Expr} (someOperand : operands ≠ [])
    (nonempty : allUnionsNonempty operands = true) :
    (unionAll operands).unionsNonempty = true := by
  have pieces := allUnionsNonempty_flatMap allUnionsNonempty_alternatives nonempty
  have somePiece := mt (flatMap_alternatives_eq_nil_iff nonempty).mp someOperand
  unfold unionAll
  split
  · rename_i single alone
    rw [alone] at pieces
    exact (allUnionsNonempty_cons_iff.mp pieces).1
  · exact unionsNonempty_union somePiece pieces

/-! ### The words decide how many there are -/

theorem count?_eq_some_iff_length {number : Nat} (nonempty : expr.unionsNonempty = true) :
    expr.count? = some number ↔
      expr.isFinite = true ∧ expr.wordList.length = number ∧ number ≤ countLimit := by
  constructor
  · intro counted
    obtain ⟨finite, length⟩ := length_wordList counted
    exact ⟨finite, length, count?_le counted⟩
  · rintro ⟨finite, rfl, few⟩
    exact count?_eq_length nonempty finite few

theorem isFinite_eq_of_listing_eq (nonempty : expr.unionsNonempty = true)
    (otherNonempty : other.unionsNonempty = true) (same : expr.listing = other.listing) :
    expr.isFinite = other.isFinite := by
  rw [Bool.eq_iff_iff, ← terminates_listing_iff nonempty, ← terminates_listing_iff otherNonempty,
    same]

theorem count?_eq_of_listing_eq (nonempty : expr.unionsNonempty = true)
    (otherNonempty : other.unionsNonempty = true) (same : expr.listing = other.listing) :
    expr.count? = other.count? := by
  have sameFinite := isFinite_eq_of_listing_eq nonempty otherNonempty same
  apply Option.ext
  intro number
  rw [count?_eq_some_iff_length nonempty, count?_eq_some_iff_length otherNonempty, sameFinite]
  refine and_congr_right fun finite => ?_
  have sameList : expr.wordList = other.wordList := by
    rw [listing_eq_ofList (sameFinite.trans finite), listing_eq_ofList finite] at same
    exact Seq.ofList_injective same
  rw [sameList]

/-- Beside the words, only whether some are lost has to be compared. -/
theorem alike_of_listing_eq (nonempty : expr.unionsNonempty = true)
    (otherNonempty : other.unionsNonempty = true) (same : expr.listing = other.listing)
    (unstarved : expr.starvations = [] ↔ other.starvations = []) : expr.Alike other where
  words := by
    have calls := (Words.lists_words nonempty).call
    have otherCalls := (Words.lists_words otherNonempty).call
    refine ⟨fun number => (calls number).1, fun number => (otherCalls number).1, ?_⟩
    intro number
    rw [(calls number).2, (otherCalls number).2, same]
  finite := isFinite_eq_of_listing_eq nonempty otherNonempty same
  count := count?_eq_of_listing_eq nonempty otherNonempty same
  unstarved := unstarved

theorem Alike.listing_eq (nonempty : expr.unionsNonempty = true)
    (otherNonempty : other.unionsNonempty = true) (alike : expr.Alike other) :
    expr.listing = other.listing := by
  apply Seq.ext
  intro number
  rw [← ((Words.lists_words nonempty).call number).2,
    ← ((Words.lists_words otherNonempty).call number).2, alike.words.gives]

/-- A product is one exactly if every factor is. -/
theorem count?_concat_cons_eq_one_iff {factor : Expr} {factors : List Expr}
    (nonempty : allUnionsNonempty (factor :: factors) = true) :
    (Expr.concat (factor :: factors)).count? = some 1 ↔
      factor.count? = some 1 ∧ (Expr.concat factors).count? = some 1 := by
  obtain ⟨factorNonempty, factorsNonempty⟩ := allUnionsNonempty_cons_iff.mp nonempty
  have oneWord : 1 ≤ countLimit := by decide
  rw [count?_eq_some_iff_length (unionsNonempty_concat nonempty),
    count?_eq_some_iff_length factorNonempty,
    count?_eq_some_iff_length (unionsNonempty_concat factorsNonempty)]
  simp only [isFinite, areFinite, wordList, length_factorWordList_cons, Bool.and_eq_true,
    mul_eq_one, oneWord, and_true]
  constructor
  · rintro ⟨⟨finite, othersFinite⟩, single, othersSingle⟩
    exact ⟨⟨finite, single⟩, othersFinite, othersSingle⟩
  · rintro ⟨⟨finite, single⟩, othersFinite, othersSingle⟩
    exact ⟨⟨finite, othersFinite⟩, single, othersSingle⟩

theorem areFinite_append (first second : List Expr) :
    areFinite (first ++ second) = (areFinite first && areFinite second) := by
  rw [areFinite_eq_all, areFinite_eq_all, areFinite_eq_all, List.all_append]

/-! ### Concatenations that lose nothing -/

theorem unstarved_concat_cons {factor : Expr} {factors : List Expr} :
    (Expr.concat (factor :: factors)).starvations = [] ↔
      factor.starvations = [] ∧ (factor.count? = some 1 ∨ areFinite factors = true) ∧
        (Expr.concat factors).starvations = [] := by
  rw [starvations_concat_eq_nil_iff, starvations_concat_eq_nil_iff, chainStarvations,
    List.append_eq_nil_iff]
  constructor
  · rintro ⟨goesOn, first, others⟩
    obtain ⟨laterGoesOn, through⟩ := stalls_cons_eq_false goesOn
    exact ⟨first, through, laterGoesOn, others⟩
  · rintro ⟨first, through, laterGoesOn, others⟩
    refine ⟨?_, first, others⟩
    rw [stalls_cons]
    split
    · exact laterGoesOn
    · rename_i several
      rw [through.resolve_left several]
      rfl

theorem unstarved_concat_nil : (Expr.concat []).starvations = [] := rfl

theorem unstarved_concat_singleton :
    (Expr.concat [expr]).starvations = [] ↔ expr.starvations = [] := by
  rw [unstarved_concat_cons]
  simp [areFinite, unstarved_concat_nil]

/-- Instead of the factors at its beginning, their concatenation may stand as one factor. -/
theorem unstarved_concat_append {first second : List Expr}
    (nonempty : allUnionsNonempty first = true) :
    (Expr.concat (first ++ second)).starvations = [] ↔
      (Expr.concat (.concat first :: second)).starvations = [] := by
  rw [@unstarved_concat_cons (.concat first)]
  induction first with
  | nil =>
      have oneWord : (Expr.concat []).count? = some 1 := rfl
      simp [unstarved_concat_nil, oneWord]
  | cons factor first inductionHypothesis =>
      have later := (allUnionsNonempty_cons_iff.mp nonempty).2
      have single : (Expr.concat first).count? = some 1 → areFinite first = true := by
        intro counted
        have finite := (length_wordList counted).1
        rwa [isFinite] at finite
      rw [List.cons_append, unstarved_concat_cons, unstarved_concat_cons,
        inductionHypothesis later, areFinite_append, Bool.and_eq_true,
        count?_concat_cons_eq_one_iff nonempty]
      -- Both sides say of every factor that it has one word or only finite factors behind it.
      tauto

theorem unstarved_concat_factors : (Expr.concat expr.factors).starvations = [] ↔
    expr.starvations = [] := by
  cases expr with
  | concat factors => exact Iff.rfl
  | literal symbol => exact unstarved_concat_singleton
  | empty => exact unstarved_concat_singleton
  | union alternatives => exact unstarved_concat_singleton
  | star inner => exact unstarved_concat_singleton

/-- One level of splicing. -/
theorem unstarved_concat_flatMap {operands : List Expr}
    (nonempty : allUnionsNonempty operands = true) :
    (Expr.concat (operands.flatMap factors)).starvations = [] ↔
      (Expr.concat operands).starvations = [] := by
  induction operands with
  | nil => exact Iff.rfl
  | cons operand operands inductionHypothesis =>
      obtain ⟨first, later⟩ := allUnionsNonempty_cons_iff.mp nonempty
      have ownFactors := allUnionsNonempty_factors first
      have laterFactors := allUnionsNonempty_flatMap allUnionsNonempty_factors later
      have sameCount : (Expr.concat operand.factors).count? = operand.count? := by
        apply count?_eq_of_listing_eq (unionsNonempty_concat ownFactors) first
        rw [listing, factorListing_factors]
      have sameFinite : areFinite (operands.flatMap factors) = areFinite operands := by
        have same : (Expr.concat (operands.flatMap factors)).isFinite =
            (Expr.concat operands).isFinite := by
          apply isFinite_eq_of_listing_eq (unionsNonempty_concat laterFactors)
            (unionsNonempty_concat later)
          rw [listing, listing, factorListing_flatMap]
        rwa [isFinite, isFinite] at same
      rw [List.flatMap_cons, unstarved_concat_append ownFactors, unstarved_concat_cons,
        unstarved_concat_cons, unstarved_concat_factors, sameCount, sameFinite,
        inductionHypothesis later]

theorem unstarved_concatAll {operands : List Expr}
    (nonempty : allUnionsNonempty operands = true) :
    (concatAll operands).starvations = [] ↔ (Expr.concat operands).starvations = [] := by
  rw [← unstarved_concat_flatMap nonempty]
  unfold concatAll
  split
  · rename_i single alone
    rw [alone, unstarved_concat_singleton]
  · exact Iff.rfl

/-! ### Unions that lose nothing -/

theorem unstarved_union_cons {alternative : Expr} {alternatives : List Expr} :
    (Expr.union (alternative :: alternatives)).starvations = [] ↔
      alternative.starvations = [] ∧ (alternative.isFinite = true ∨ alternatives = []) ∧
        (Expr.union alternatives).starvations = [] := by
  rw [starvations_union_eq_nil_iff, starvations_union_eq_nil_iff, chainStarvations,
    List.append_eq_nil_iff, hides_cons]
  cases alternatives with
  | nil =>
      have shows : hides [] = false := rfl
      simp [shows]
  | cons next alternatives =>
      cases alternative.isFinite with
      | true => simp [and_left_comm]
      | false => simp

theorem unstarved_union_singleton :
    (Expr.union [expr]).starvations = [] ↔ expr.starvations = [] := by
  have none : (Expr.union []).starvations = [] := rfl
  rw [unstarved_union_cons]
  simp [none]

theorem unstarved_union_pair {left right : Expr} :
    (Expr.union [left, right]).starvations = [] ↔
      left.starvations = [] ∧ left.isFinite = true ∧ right.starvations = [] := by
  rw [unstarved_union_cons, unstarved_union_singleton]
  simp

/-- Instead of the alternatives at its beginning, their union may stand as one alternative. -/
theorem unstarved_union_append {first second : List Expr} :
    (Expr.union (first ++ second)).starvations = [] ↔
      (Expr.union (.union first :: second)).starvations = [] := by
  rw [@unstarved_union_cons (.union first), isFinite]
  induction first with
  | nil =>
      have none : (Expr.union []).starvations = [] := rfl
      simp [none, areFinite]
  | cons alternative first inductionHypothesis =>
      rw [List.cons_append, unstarved_union_cons, unstarved_union_cons, inductionHypothesis,
        areFinite, Bool.and_eq_true, List.append_eq_nil_iff]
      -- Both sides say of every alternative that it is finite or the last one.
      tauto

theorem unstarved_union_alternatives :
    (Expr.union expr.alternatives).starvations = [] ↔ expr.starvations = [] := by
  cases expr with
  | union alternatives => exact Iff.rfl
  | literal symbol => exact unstarved_union_singleton
  | empty => exact unstarved_union_singleton
  | concat factors => exact unstarved_union_singleton
  | star inner => exact unstarved_union_singleton

theorem areFinite_singleton : areFinite [expr] = expr.isFinite := by
  rw [areFinite, areFinite, Bool.and_true]

theorem areFinite_alternatives : areFinite expr.alternatives = expr.isFinite := by
  cases expr with
  | union alternatives => rw [isFinite, Expr.alternatives]
  | literal symbol => exact areFinite_singleton
  | empty => exact areFinite_singleton
  | concat factors => exact areFinite_singleton
  | star inner => exact areFinite_singleton

theorem unstarved_union_flatMap {operands : List Expr}
    (nonempty : allUnionsNonempty operands = true) :
    (Expr.union (operands.flatMap alternatives)).starvations = [] ↔
      (Expr.union operands).starvations = [] := by
  induction operands with
  | nil => exact Iff.rfl
  | cons operand operands inductionHypothesis =>
      have later := (allUnionsNonempty_cons_iff.mp nonempty).2
      rw [List.flatMap_cons, unstarved_union_append, unstarved_union_cons, unstarved_union_cons,
        unstarved_union_alternatives, isFinite, areFinite_alternatives,
        flatMap_alternatives_eq_nil_iff later, inductionHypothesis later]

theorem unstarved_unionAll {operands : List Expr}
    (nonempty : allUnionsNonempty operands = true) :
    (unionAll operands).starvations = [] ↔ (Expr.union operands).starvations = [] := by
  rw [← unstarved_union_flatMap nonempty]
  unfold unionAll
  split
  · rename_i single alone
    rw [alone, unstarved_union_singleton]
  · exact Iff.rfl

/-! ### Chains like each other -/

theorem Alike.refl (nonempty : expr.unionsNonempty = true) : expr.Alike expr :=
  alike_of_listing_eq nonempty nonempty rfl Iff.rfl

theorem alike_concatAll {operands : List Expr} (nonempty : allUnionsNonempty operands = true) :
    (concatAll operands).Alike (.concat operands) := by
  apply alike_of_listing_eq (unionsNonempty_concatAll nonempty) (unionsNonempty_concat nonempty)
  · rw [listing_concatAll, listing]
  · exact unstarved_concatAll nonempty

theorem alike_unionAll {operands : List Expr} (someOperand : operands ≠ [])
    (nonempty : allUnionsNonempty operands = true) :
    (unionAll operands).Alike (.union operands) := by
  apply alike_of_listing_eq (unionsNonempty_unionAll someOperand nonempty)
    (unionsNonempty_union someOperand nonempty)
  · rw [listing_unionAll, listing]
  · exact unstarved_unionAll nonempty

theorem alike_concat_singleton (nonempty : expr.unionsNonempty = true) :
    expr.Alike (.concat [expr]) := by
  apply alike_of_listing_eq nonempty (unionsNonempty_concat (allUnionsNonempty_singleton nonempty))
  · rw [listing, factorListing_singleton]
  · exact unstarved_concat_singleton.symm

theorem alike_union_singleton (nonempty : expr.unionsNonempty = true) :
    expr.Alike (.union [expr]) := by
  apply alike_of_listing_eq nonempty
    (unionsNonempty_union (List.cons_ne_nil _ _) (allUnionsNonempty_singleton nonempty))
  · rw [listing, alternativeListing_singleton]
  · exact unstarved_union_singleton.symm

theorem alike_concat_append {first second : List Expr}
    (firstNonempty : allUnionsNonempty first = true)
    (secondNonempty : allUnionsNonempty second = true) :
    (Expr.concat (.concat first :: second)).Alike (.concat (first ++ second)) := by
  have nested := allUnionsNonempty_cons_iff.mpr ⟨unionsNonempty_concat firstNonempty, secondNonempty⟩
  apply alike_of_listing_eq (unionsNonempty_concat nested)
    (unionsNonempty_concat (allUnionsNonempty_append firstNonempty secondNonempty))
  · rw [listing, listing, factorListing, listing, factorListing_append]
  · exact (unstarved_concat_append firstNonempty).symm

theorem listing_union_pair (left right : Expr) :
    (Expr.union [left, right]).listing = left.listing.append right.listing := by
  rw [listing, alternativeListing, alternativeListing_singleton]

theorem alike_union_cons {alternatives : List Expr} (nonempty : expr.unionsNonempty = true)
    (someAlternative : alternatives ≠ [])
    (othersNonempty : allUnionsNonempty alternatives = true) :
    (Expr.union [expr, .union alternatives]).Alike (.union (expr :: alternatives)) := by
  have nested := unionsNonempty_union someAlternative othersNonempty
  have pair := allUnionsNonempty_cons_iff.mpr ⟨nonempty, allUnionsNonempty_singleton nested⟩
  have flat := allUnionsNonempty_cons_iff.mpr ⟨nonempty, othersNonempty⟩
  apply alike_of_listing_eq (unionsNonempty_union (List.cons_ne_nil _ _) pair)
    (unionsNonempty_union (List.cons_ne_nil _ _) flat)
  · rw [listing_union_pair, listing, listing, alternativeListing]
  · rw [unstarved_union_pair, unstarved_union_cons]
    simp [someAlternative]

/-- The first factor may be replaced by one like it. -/
theorem Alike.concat_cons {factors : List Expr} (alike : expr.Alike other)
    (nonempty : expr.unionsNonempty = true) (otherNonempty : other.unionsNonempty = true)
    (factorsNonempty : allUnionsNonempty factors = true) :
    (Expr.concat (expr :: factors)).Alike (.concat (other :: factors)) := by
  apply alike_of_listing_eq
    (unionsNonempty_concat (allUnionsNonempty_cons_iff.mpr ⟨nonempty, factorsNonempty⟩))
    (unionsNonempty_concat (allUnionsNonempty_cons_iff.mpr ⟨otherNonempty, factorsNonempty⟩))
  · rw [listing, listing, factorListing, factorListing, alike.listing_eq nonempty otherNonempty]
  · rw [unstarved_concat_cons, unstarved_concat_cons, alike.unstarved, alike.count]

/-- The second of two alternatives may be replaced by one like it. -/
theorem Alike.union_second {first : Expr} (alike : expr.Alike other)
    (nonempty : expr.unionsNonempty = true) (otherNonempty : other.unionsNonempty = true)
    (firstNonempty : first.unionsNonempty = true) :
    (Expr.union [first, expr]).Alike (.union [first, other]) := by
  have pair := allUnionsNonempty_cons_iff.mpr ⟨firstNonempty, allUnionsNonempty_singleton nonempty⟩
  have otherPair :=
    allUnionsNonempty_cons_iff.mpr ⟨firstNonempty, allUnionsNonempty_singleton otherNonempty⟩
  apply alike_of_listing_eq (unionsNonempty_union (List.cons_ne_nil _ _) pair)
    (unionsNonempty_union (List.cons_ne_nil _ _) otherPair)
  · rw [listing_union_pair, listing_union_pair, alike.listing_eq nonempty otherNonempty]
  · rw [unstarved_union_pair, unstarved_union_pair, alike.unstarved]

/-! ### Operands joined two by two -/

structure Joins (join : Expr → Expr → Expr) (chain : List Expr → Expr) : Prop where
  nonempty : ∀ {left right}, left.unionsNonempty = true → right.unionsNonempty = true →
    (join left right).unionsNonempty = true
  alike : ∀ {left right}, left.unionsNonempty = true → right.unionsNonempty = true →
    (join left right).Alike (chain [left, right])

def rightSpine (join : Expr → Expr → Expr) : Expr → List Expr → Expr
  | first, [] => first
  | first, second :: others => join first (rightSpine join second others)

theorem allUnionsNonempty_pair {left right : Expr} (leftNonempty : left.unionsNonempty = true)
    (rightNonempty : right.unionsNonempty = true) : allUnionsNonempty [left, right] = true :=
  allUnionsNonempty_cons_iff.mpr ⟨leftNonempty, allUnionsNonempty_singleton rightNonempty⟩

theorem joins_concat : Joins (fun left right => .concat [left, right]) .concat where
  nonempty := fun left right => unionsNonempty_concat (allUnionsNonempty_pair left right)
  alike := fun left right => .refl (unionsNonempty_concat (allUnionsNonempty_pair left right))

theorem joins_followedBy : Joins followedBy .concat where
  nonempty := fun left right => unionsNonempty_concatAll (allUnionsNonempty_pair left right)
  alike := fun left right => alike_concatAll (allUnionsNonempty_pair left right)

theorem joins_union : Joins (fun left right => .union [left, right]) .union where
  nonempty := fun left right =>
    unionsNonempty_union (List.cons_ne_nil _ _) (allUnionsNonempty_pair left right)
  alike := fun left right =>
    .refl (unionsNonempty_union (List.cons_ne_nil _ _) (allUnionsNonempty_pair left right))

theorem joins_orElse : Joins orElse .union where
  nonempty := fun left right =>
    unionsNonempty_unionAll (List.cons_ne_nil _ _) (allUnionsNonempty_pair left right)
  alike := fun left right =>
    alike_unionAll (List.cons_ne_nil _ _) (allUnionsNonempty_pair left right)

variable {join : Expr → Expr → Expr} {first : Expr} {others : List Expr}

/-- Joining from the left is like the concatenation of all. -/
theorem alike_foldl (joins : Joins join .concat)
    (nonempty : allUnionsNonempty (first :: others) = true) :
    (others.foldl join first).Alike (.concat (first :: others)) := by
  induction others generalizing first with
  | nil => exact alike_concat_singleton (allUnionsNonempty_cons_iff.mp nonempty).1
  | cons second others inductionHypothesis =>
      obtain ⟨firstNonempty, laterNonempty⟩ := allUnionsNonempty_cons_iff.mp nonempty
      obtain ⟨secondNonempty, othersNonempty⟩ := allUnionsNonempty_cons_iff.mp laterNonempty
      have joined := joins.nonempty firstNonempty secondNonempty
      have pair := allUnionsNonempty_pair firstNonempty secondNonempty
      have folded : (others.foldl join (join first second)).Alike
          (.concat (join first second :: others)) :=
        inductionHypothesis (allUnionsNonempty_cons_iff.mpr ⟨joined, othersNonempty⟩)
      have nested : (Expr.concat (join first second :: others)).Alike
          (.concat (.concat [first, second] :: others)) :=
        (joins.alike firstNonempty secondNonempty).concat_cons joined (unionsNonempty_concat pair)
          othersNonempty
      exact folded.trans (nested.trans (alike_concat_append pair othersNonempty))

theorem unionsNonempty_rightSpine (joins : Joins join .union)
    (nonempty : allUnionsNonempty (first :: others) = true) :
    (rightSpine join first others).unionsNonempty = true := by
  induction others generalizing first with
  | nil => exact (allUnionsNonempty_cons_iff.mp nonempty).1
  | cons second others inductionHypothesis =>
      obtain ⟨firstNonempty, laterNonempty⟩ := allUnionsNonempty_cons_iff.mp nonempty
      exact joins.nonempty firstNonempty (inductionHypothesis laterNonempty)

/-- Joining to the right is like the union of all. -/
theorem alike_rightSpine (joins : Joins join .union)
    (nonempty : allUnionsNonempty (first :: others) = true) :
    (rightSpine join first others).Alike (.union (first :: others)) := by
  induction others generalizing first with
  | nil => exact alike_union_singleton (allUnionsNonempty_cons_iff.mp nonempty).1
  | cons second others inductionHypothesis =>
      obtain ⟨firstNonempty, laterNonempty⟩ := allUnionsNonempty_cons_iff.mp nonempty
      have spine := unionsNonempty_rightSpine joins laterNonempty
      have later := unionsNonempty_union (List.cons_ne_nil _ _) laterNonempty
      have joined : (join first (rightSpine join second others)).Alike
          (.union [first, rightSpine join second others]) := joins.alike firstNonempty spine
      have nested : (Expr.union [first, rightSpine join second others]).Alike
          (.union [first, .union (second :: others)]) :=
        (inductionHypothesis laterNonempty).union_second spine later firstNonempty
      exact joined.trans
        (nested.trans (alike_union_cons firstNonempty (List.cons_ne_nil _ _) laterNonempty))

/-- Splicing is seen neither in the words of a chain, nor in whether they end and how many they are,
nor in whether any are lost.  So a concatenation joined two by two from the left, a union joined two
by two to the right, and the chain of all operands have the same words. -/
theorem splicing_unseen {operands : List Expr} (nonempty : allUnionsNonempty operands = true) :
    (concatAll operands).Alike (.concat operands) ∧
      (operands ≠ [] → (unionAll operands).Alike (.union operands)) ∧
      ∀ first others, operands = first :: others →
        (others.foldl (fun left right => .concat [left, right]) first).Alike (.concat operands) ∧
        (others.foldl followedBy first).Alike (.concat operands) ∧
        (rightSpine (fun left right => .union [left, right]) first others).Alike
          (.union operands) ∧
        (rightSpine orElse first others).Alike (.union operands) := by
  refine ⟨alike_concatAll nonempty, fun someOperand => alike_unionAll someOperand nonempty, ?_⟩
  rintro first others rfl
  exact ⟨alike_foldl joins_concat nonempty, alike_foldl joins_followedBy nonempty,
    alike_rightSpine joins_union nonempty, alike_rightSpine joins_orElse nonempty⟩

/-- In `a(@)(a+b)(c*)`, with its groups kept as chains, the words with `b` are lost, and so they are in
the one chain of its factors and in the factors joined two by two. -/
theorem splicing_unseen_raw_factors :
    let letters := Expr.union [.literal 'a', .literal 'b']
    let operands := [.concat [.literal 'a', .concat []], letters, .concat [.star (.literal 'c')]]
    allUnionsNonempty operands = true ∧
      concatAll operands = .concat [.literal 'a', .concat [], letters, .star (.literal 'c')] ∧
      (concatAll operands).Alike (.concat operands) ∧ operands ≠ [] ∧
      (unionAll operands).Alike (.union operands) ∧
      (Expr.concat [.concat [.concat [.literal 'a', .concat []], letters],
        .concat [.star (.literal 'c')]]).Alike (.concat operands) := by
  intro letters operands
  have nonempty : allUnionsNonempty operands = true := rfl
  have someOperand : operands ≠ [] := List.cons_ne_nil _ _
  obtain ⟨spliced, splicedUnion, joined⟩ := splicing_unseen nonempty
  exact ⟨nonempty, rfl, spliced, someOperand, splicedUnion someOperand, (joined _ _ rfl).1⟩

end Expr

end RegularWords
