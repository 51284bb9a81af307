import RegularWords.Expr.Finite
import RegularWords.Proofs.Listing

/-!
The words of an expression without repetitions, as a list.

Where the count of an expression is known, it is the length of this list.  If every union has
alternatives, it is known as long as the length is within the limit.
-/

namespace RegularWords

open Stream' (Seq)

namespace Listing

theorem ofList_map (change : Word → Word) (words : List Word) :
    (Seq.ofList words).map change = Seq.ofList (words.map change) := by
  induction words with
  | nil => exact Seq.map_nil change
  | cons word words inductionHypothesis =>
      rw [Seq.ofList_cons, Seq.map_cons, inductionHypothesis, List.map_cons, Seq.ofList_cons]

theorem single_eq_ofList (word : Word) : single word = Seq.ofList [word] := by
  rw [single, Seq.ofList_cons, Seq.ofList_nil]

theorem product_ofList (stems words : List Word) :
    product (Seq.ofList stems) (Seq.ofList words) =
      Seq.ofList (stems.flatMap fun stem => words.map (stem ++ ·)) := by
  induction stems with
  | nil => exact nil_product _
  | cons stem stems inductionHypothesis =>
      rw [Seq.ofList_cons, cons_product, inductionHypothesis, ofList_map, ← Seq.ofList_append,
        List.flatMap_cons]

end Listing

namespace Expr

mutual

/-- The words of an expression without repetitions; a repetition contributes none. -/
def wordList : Expr → List Word
  | .literal symbol => [[symbol]]
  | .empty => [[]]
  | .concat factors => factorWordList factors
  | .union alternatives => alternativeWordList alternatives
  | .star _ => []

def factorWordList : List Expr → List Word
  | [] => [[]]
  | factor :: factors =>
      (wordList factor).flatMap fun stem => (factorWordList factors).map (stem ++ ·)

def alternativeWordList : List Expr → List Word
  | [] => []
  | alternative :: alternatives => wordList alternative ++ alternativeWordList alternatives

end

mutual

theorem listing_eq_ofList : ∀ {expr : Expr}, expr.isFinite = true →
    expr.listing = Seq.ofList expr.wordList
  | .literal symbol, _ => by rw [listing, wordList, Listing.single_eq_ofList]
  | .empty, _ => by rw [listing, wordList, Listing.single_eq_ofList]
  | .concat factors, finite => by
      rw [isFinite] at finite
      rw [listing, wordList, factorListing_eq_ofList finite]
  | .union alternatives, finite => by
      rw [isFinite] at finite
      rw [listing, wordList, alternativeListing_eq_ofList finite]
  | .star inner, finite => by
      rw [isFinite] at finite
      cases finite

theorem factorListing_eq_ofList : ∀ {factors : List Expr}, areFinite factors = true →
    factorListing factors = Seq.ofList (factorWordList factors)
  | [], _ => by rw [factorListing, factorWordList, Listing.single_eq_ofList]
  | factor :: factors, finite => by
      simp only [areFinite, Bool.and_eq_true] at finite
      rw [factorListing, factorWordList, listing_eq_ofList finite.1,
        factorListing_eq_ofList finite.2, Listing.product_ofList]

theorem alternativeListing_eq_ofList : ∀ {alternatives : List Expr},
    areFinite alternatives = true →
      alternativeListing alternatives = Seq.ofList (alternativeWordList alternatives)
  | [], _ => by rw [alternativeListing, alternativeWordList, Seq.ofList_nil]
  | alternative :: alternatives, finite => by
      simp only [areFinite, Bool.and_eq_true] at finite
      rw [alternativeListing, alternativeWordList, listing_eq_ofList finite.1,
        alternativeListing_eq_ofList finite.2, Seq.ofList_append]

end

/-! ### Counts -/

theorem withinLimit_eq_some_iff {number result : Nat} :
    withinLimit number = some result ↔ number ≤ countLimit ∧ result = number := by
  unfold withinLimit
  by_cases within : number ≤ countLimit
  · simp [within, eq_comm]
  · simp [within]

theorem productFrom_le {factors : List Expr} {number result : Nat}
    (within : number ≤ countLimit) (counted : productFrom number factors = some result) :
    result ≤ countLimit := by
  induction factors generalizing number with
  | nil =>
      rw [productFrom] at counted
      cases counted
      exact within
  | cons factor factors inductionHypothesis =>
      rw [productFrom] at counted
      obtain ⟨count, _, counted⟩ := Option.bind_eq_some_iff.mp counted
      obtain ⟨product, isProduct, counted⟩ := Option.bind_eq_some_iff.mp counted
      obtain ⟨productWithin, rfl⟩ := withinLimit_eq_some_iff.mp isProduct
      exact inductionHypothesis productWithin counted

theorem sumFrom_le {alternatives : List Expr} {number result : Nat}
    (within : number ≤ countLimit) (counted : sumFrom number alternatives = some result) :
    result ≤ countLimit := by
  induction alternatives generalizing number with
  | nil =>
      rw [sumFrom] at counted
      cases counted
      exact within
  | cons alternative alternatives inductionHypothesis =>
      rw [sumFrom] at counted
      obtain ⟨count, _, counted⟩ := Option.bind_eq_some_iff.mp counted
      obtain ⟨sum, isSum, counted⟩ := Option.bind_eq_some_iff.mp counted
      obtain ⟨sumWithin, rfl⟩ := withinLimit_eq_some_iff.mp isSum
      exact inductionHypothesis sumWithin counted

/-- No count passes the limit. -/
theorem count?_le {expr : Expr} {number : Nat} (counted : expr.count? = some number) :
    number ≤ countLimit := by
  cases expr with
  | literal symbol =>
      rw [count?] at counted
      cases counted
      decide
  | empty =>
      rw [count?] at counted
      cases counted
      decide
  | concat factors =>
      rw [count?] at counted
      exact productFrom_le (by decide) counted
  | union alternatives =>
      rw [count?] at counted
      exact sumFrom_le (by decide) counted
  | star inner =>
      rw [count?] at counted
      cases counted

theorem length_factorWordList_cons (factor : Expr) (factors : List Expr) :
    (factorWordList (factor :: factors)).length =
      factor.wordList.length * (factorWordList factors).length := by
  simp only [factorWordList, List.length_flatMap, List.length_map, List.map_const',
    List.sum_replicate_nat]

mutual

/-- A known count is the number of words, and there are no repetitions. -/
theorem length_wordList : ∀ {expr : Expr} {number : Nat}, expr.count? = some number →
    expr.isFinite = true ∧ expr.wordList.length = number
  | .literal symbol, number, counted => by
      rw [count?] at counted
      cases counted
      exact ⟨by rw [isFinite], by rw [wordList, List.length_singleton]⟩
  | .empty, number, counted => by
      rw [count?] at counted
      cases counted
      exact ⟨by rw [isFinite], by rw [wordList, List.length_singleton]⟩
  | .concat factors, number, counted => by
      rw [count?] at counted
      obtain ⟨finite, length⟩ := length_factorWordList counted
      rw [isFinite, wordList]
      exact ⟨finite, by rw [← length, Nat.one_mul]⟩
  | .union alternatives, number, counted => by
      rw [count?] at counted
      obtain ⟨finite, length⟩ := length_alternativeWordList counted
      rw [isFinite, wordList]
      exact ⟨finite, by rw [← length, Nat.zero_add]⟩
  | .star inner, number, counted => by
      rw [count?] at counted
      cases counted

theorem length_factorWordList : ∀ {factors : List Expr} {number result : Nat},
    productFrom number factors = some result →
      areFinite factors = true ∧ number * (factorWordList factors).length = result
  | [], number, result, counted => by
      rw [productFrom] at counted
      cases counted
      exact ⟨by rw [areFinite], by rw [factorWordList, List.length_singleton, Nat.mul_one]⟩
  | factor :: factors, number, result, counted => by
      rw [productFrom] at counted
      obtain ⟨count, factorCounted, counted⟩ := Option.bind_eq_some_iff.mp counted
      obtain ⟨product, within, counted⟩ := Option.bind_eq_some_iff.mp counted
      obtain ⟨_, rfl⟩ := withinLimit_eq_some_iff.mp within
      obtain ⟨factorFinite, rfl⟩ := length_wordList factorCounted
      obtain ⟨finite, rfl⟩ := length_factorWordList counted
      exact ⟨by rw [areFinite, factorFinite, finite, Bool.and_true],
        by rw [length_factorWordList_cons, Nat.mul_assoc]⟩

theorem length_alternativeWordList : ∀ {alternatives : List Expr} {number result : Nat},
    sumFrom number alternatives = some result →
      areFinite alternatives = true ∧
        number + (alternativeWordList alternatives).length = result
  | [], number, result, counted => by
      rw [sumFrom] at counted
      cases counted
      exact ⟨by rw [areFinite], by rw [alternativeWordList, List.length_nil, Nat.add_zero]⟩
  | alternative :: alternatives, number, result, counted => by
      rw [sumFrom] at counted
      obtain ⟨count, alternativeCounted, counted⟩ := Option.bind_eq_some_iff.mp counted
      obtain ⟨sum, within, counted⟩ := Option.bind_eq_some_iff.mp counted
      obtain ⟨_, rfl⟩ := withinLimit_eq_some_iff.mp within
      obtain ⟨alternativeFinite, rfl⟩ := length_wordList alternativeCounted
      obtain ⟨finite, rfl⟩ := length_alternativeWordList counted
      refine ⟨by rw [areFinite, alternativeFinite, finite, Bool.and_true], ?_⟩
      rw [alternativeWordList, List.length_append, Nat.add_assoc]

end

theorem wordList_ne_nil {expr : Expr} (nonempty : expr.unionsNonempty = true)
    (finite : expr.isFinite = true) : expr.wordList ≠ [] := by
  intro noWord
  apply listing_ne_nil nonempty
  rw [listing_eq_ofList finite, noWord, Seq.ofList_nil]

theorem factorWordList_ne_nil {factors : List Expr}
    (nonempty : allUnionsNonempty factors = true) (finite : areFinite factors = true) :
    factorWordList factors ≠ [] := by
  intro noWord
  apply factorListing_ne_nil nonempty
  rw [factorListing_eq_ofList finite, noWord, Seq.ofList_nil]

mutual

/-- Where every union has alternatives, a number of words within the limit is counted.  The counts
are positive then, so no partial product or sum passes the whole. -/
theorem count?_eq_length : ∀ {expr : Expr}, expr.unionsNonempty = true →
    expr.isFinite = true → expr.wordList.length ≤ countLimit →
      expr.count? = some expr.wordList.length
  | .literal symbol, _, _, _ => by rw [count?, wordList, List.length_singleton]
  | .empty, _, _, _ => by rw [count?, wordList, List.length_singleton]
  | .concat factors, nonempty, finite, few => by
      rw [unionsNonempty] at nonempty
      rw [isFinite] at finite
      rw [wordList, ← Nat.one_mul (List.length _)] at few ⊢
      rw [count?]
      exact productFrom_eq_length nonempty finite Nat.one_pos few
  | .union alternatives, nonempty, finite, few => by
      rw [unionsNonempty, Bool.and_eq_true] at nonempty
      rw [isFinite] at finite
      rw [wordList, ← Nat.zero_add (List.length _)] at few ⊢
      rw [count?]
      exact sumFrom_eq_length nonempty.2 finite few

theorem productFrom_eq_length : ∀ {factors : List Expr} {number : Nat},
    allUnionsNonempty factors = true → areFinite factors = true → 0 < number →
      number * (factorWordList factors).length ≤ countLimit →
        productFrom number factors = some (number * (factorWordList factors).length)
  | [], number, _, _, _, _ => by
      rw [productFrom, factorWordList, List.length_singleton, Nat.mul_one]
  | factor :: factors, number, nonempty, finite, positive, few => by
      rw [allUnionsNonempty, Bool.and_eq_true] at nonempty
      rw [areFinite, Bool.and_eq_true] at finite
      have someWord := List.length_pos_iff.mpr (wordList_ne_nil nonempty.1 finite.1)
      have someOther := List.length_pos_iff.mpr (factorWordList_ne_nil nonempty.2 finite.2)
      rw [length_factorWordList_cons, ← Nat.mul_assoc] at few ⊢
      have product : number * factor.wordList.length ≤ countLimit :=
        (Nat.le_mul_of_pos_right _ someOther).trans few
      have first : factor.wordList.length ≤ countLimit :=
        (Nat.le_mul_of_pos_left _ positive).trans product
      rw [productFrom, count?_eq_length nonempty.1 finite.1 first, Option.bind_some,
        withinLimit_eq_some_iff.mpr ⟨product, rfl⟩, Option.bind_some]
      exact productFrom_eq_length nonempty.2 finite.2 (Nat.mul_pos positive someWord) few

theorem sumFrom_eq_length : ∀ {alternatives : List Expr} {number : Nat},
    allUnionsNonempty alternatives = true → areFinite alternatives = true →
      number + (alternativeWordList alternatives).length ≤ countLimit →
        sumFrom number alternatives = some (number + (alternativeWordList alternatives).length)
  | [], number, _, _, _ => by
      rw [sumFrom, alternativeWordList, List.length_nil, Nat.add_zero]
  | alternative :: alternatives, number, nonempty, finite, few => by
      rw [allUnionsNonempty, Bool.and_eq_true] at nonempty
      rw [areFinite, Bool.and_eq_true] at finite
      rw [alternativeWordList, List.length_append, ← Nat.add_assoc] at few ⊢
      have sum : number + alternative.wordList.length ≤ countLimit :=
        (Nat.le_add_right _ _).trans few
      have first : alternative.wordList.length ≤ countLimit := (Nat.le_add_left _ _).trans sum
      rw [sumFrom, count?_eq_length nonempty.1 finite.1 first, Option.bind_some,
        withinLimit_eq_some_iff.mpr ⟨sum, rfl⟩, Option.bind_some]
      exact sumFrom_eq_length nonempty.2 finite.2 few

end

theorem exists_listing_eq_single {expr : Expr} (counted : expr.count? = some 1) :
    ∃ word, expr.listing = .single word := by
  obtain ⟨finite, length⟩ := length_wordList counted
  obtain ⟨word, alone⟩ := List.length_eq_one_iff.mp length
  refine ⟨word, ?_⟩
  rw [listing_eq_ofList finite, alone, Listing.single_eq_ofList]

end Expr

end RegularWords
