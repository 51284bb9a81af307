import RegularWords.Proofs.Lasting

/-!
The word at a position of an enumeration, without the words before it.

A concatenation counts like an odometer: the digits of a position, with the numbers of words of the
factors as radices, tell which word each factor contributes.  What is left above the digits is the
position of a word of the first factor, which need not be one of finitely many.  Each level of a
repetition counts in the same way, with one radix for all digits.
-/

namespace RegularWords

open Stream' (Seq)

/-! ### Digits -/

/-- The digits of a number, the most significant first, each below the radix in its place.  What is
left above the first digit is dropped. -/
def digits : List Nat → Nat → List Nat
  | [], _ => []
  | radix :: radices, number => number / radices.prod % radix :: digits radices number

/-- Multiples of the product of the radices do not change the digits. -/
theorem digits_mod (radices : List Nat) (scale number : Nat) :
    digits radices (number % (scale * radices.prod)) = digits radices number := by
  induction radices generalizing scale with
  | nil => rfl
  | cons radix radices inductionHypothesis =>
      rw [List.prod_cons, ← Nat.mul_assoc, digits, digits, inductionHypothesis,
        Nat.mod_mul_left_div_self, Nat.mod_mul_left_mod]

/-! ### Words put together -/

namespace Listing

/-- The words that take one part from every block, the parts of the last block changing fastest. -/
def combined : List (List Word) → List Word
  | [] => [[]]
  | words :: blocks => words.flatMap fun word => (combined blocks).map (word ++ ·)

def selected (blocks : List (List Word)) (number : Nat) : List Word :=
  List.zipWith (fun words digit => words.getD digit []) blocks
    (digits (blocks.map List.length) number)

theorem length_combined (blocks : List (List Word)) :
    (combined blocks).length = (blocks.map List.length).prod := by
  induction blocks with
  | nil => rfl
  | cons words blocks inductionHypothesis =>
      simp only [combined, List.length_flatMap, List.length_map, inductionHypothesis,
        List.map_const', List.sum_replicate_nat, List.map_cons, List.prod_cons]

theorem combined_append (blocks : List (List Word)) (words : List Word) :
    combined (blocks ++ [words]) = (combined blocks).flatMap fun stem => words.map (stem ++ ·) := by
  induction blocks with
  | nil => simp [combined]
  | cons first blocks inductionHypothesis =>
      rw [List.cons_append, combined, combined, inductionHypothesis, List.flatMap_assoc]
      congr 1
      funext stem
      simp [List.map_flatMap, List.flatMap_map, Function.comp_def]

theorem get?_ofList_append_of_lt {words : List Word} {number : Nat} (within : number < words.length)
    (rest : Listing) : ((Seq.ofList words).append rest).get? number = words[number]? := by
  induction words generalizing number with
  | nil => exact absurd within (Nat.not_lt_zero number)
  | cons word words inductionHypothesis =>
      rw [Seq.ofList_cons, Seq.cons_append]
      cases number with
      | zero => rfl
      | succ number => exact inductionHypothesis (Nat.lt_of_succ_lt_succ within)

theorem get?_ofList_append_add (words : List Word) (rest : Listing) (number : Nat) :
    ((Seq.ofList words).append rest).get? (words.length + number) = rest.get? number := by
  induction words with
  | nil => rw [Seq.ofList_nil, Seq.nil_append, List.length_nil, Nat.zero_add]
  | cons word words inductionHypothesis =>
      rw [Seq.ofList_cons, Seq.cons_append, List.length_cons, Nat.succ_add, Seq.get?_cons_succ,
        inductionHypothesis]

/-- A product goes through the whole of its right side for each word of its left side. -/
theorem get?_product (left : Listing) {right : List Word} (nonempty : right ≠ []) (number : Nat) :
    (product left (Seq.ofList right)).get? number =
      (left.get? (number / right.length)).bind fun stem =>
        right[number % right.length]?.map (stem ++ ·) := by
  have positive := List.length_pos_iff.mpr nonempty
  induction number using Nat.strongRecOn generalizing left with
  | ind number inductionHypothesis =>
      cases left with
      | nil => simp
      | cons stem stems =>
          rw [cons_product, ofList_map]
          rcases Nat.lt_or_ge number right.length with within | behind
          · rw [get?_ofList_append_of_lt (by rwa [List.length_map]), Nat.div_eq_of_lt within,
              Nat.mod_eq_of_lt within, List.getElem?_map, Seq.get?_cons_zero, Option.bind_some]
          · obtain ⟨rest, rfl⟩ := Nat.exists_eq_add_of_le behind
            have gives := get?_ofList_append_add (right.map (stem ++ ·))
              (product stems (Seq.ofList right)) rest
            rw [List.length_map] at gives
            rw [gives, inductionHypothesis rest (Nat.lt_add_of_pos_left positive),
              Nat.add_div_left rest positive, Nat.add_mod_left, Seq.get?_cons_succ]

theorem selected_mod (blocks : List (List Word)) (number : Nat) :
    selected blocks (number % (blocks.map List.length).prod) = selected blocks number := by
  have sameDigits := digits_mod (blocks.map List.length) 1 number
  rw [Nat.one_mul] at sameDigits
  rw [selected, selected, sameDigits]

theorem selected_cons (words : List Word) (blocks : List (List Word)) (number : Nat) :
    selected (words :: blocks) number =
      words.getD (number / (blocks.map List.length).prod % words.length) [] ::
        selected blocks number :=
  rfl

theorem getElem?_combined {blocks : List (List Word)} {number : Nat}
    (within : number < (blocks.map List.length).prod) :
    (combined blocks)[number]? = some (selected blocks number).flatten := by
  induction blocks generalizing number with
  | nil =>
      obtain rfl : number = 0 := Nat.lt_one_iff.mp within
      rfl
  | cons words blocks inductionHypothesis =>
      rw [List.map_cons, List.prod_cons, Nat.mul_comm] at within
      have positive : 0 < (blocks.map List.length).prod :=
        Nat.pos_of_ne_zero fun noRound => by simp [noRound] at within
      have someRest : combined blocks ≠ [] := by
        rwa [← List.length_pos_iff, length_combined]
      have digitWithin : number / (blocks.map List.length).prod < words.length :=
        Nat.div_lt_of_lt_mul within
      have gives := get?_product (Seq.ofList words) someRest number
      rw [product_ofList, Seq.ofList_get?, Seq.ofList_get?, length_combined,
        inductionHypothesis (Nat.mod_lt number positive), List.getElem?_eq_getElem digitWithin]
        at gives
      rw [combined, gives, selected_cons, selected_mod, Nat.mod_eq_of_lt digitWithin,
        List.getD_eq_getElem?_getD, List.getElem?_eq_getElem digitWithin]
      rfl

/-! ### Levels -/

/-- The levels of a repetition before a given one, and those from it on. -/
theorem closure_eq (words : List Word) (level : Nat) :
    closure (Seq.ofList words) =
      (Seq.ofList ((List.range level).flatMap fun earlier =>
          combined (List.replicate earlier words))).append
        (levelled (Seq.ofList words) (Seq.ofList (combined (List.replicate level words)))) := by
  induction level with
  | zero =>
      rw [closure, single_eq_ofList, List.range_zero, List.flatMap_nil, Seq.ofList_nil,
        Seq.nil_append]
      rfl
  | succ level inductionHypothesis =>
      rw [inductionHypothesis, levelled_eq, product_ofList, ← combined_append,
        ← List.replicate_succ', List.range_succ, List.flatMap_append, List.flatMap_singleton,
        Seq.ofList_append, Seq.append_assoc]

theorem get?_closure (words : List Word) {level number : Nat}
    (within : number < words.length ^ level) :
    (closure (Seq.ofList words)).get?
        (((List.range level).map (words.length ^ ·)).sum + number) =
      some (selected (List.replicate level words) number).flatten := by
  have before : ((List.range level).flatMap fun earlier =>
      combined (List.replicate earlier words)).length =
        ((List.range level).map (words.length ^ ·)).sum := by
    simp [List.length_flatMap, length_combined]
  have inLevel : number < ((List.replicate level words).map List.length).prod := by
    rwa [List.map_replicate, List.prod_replicate_nat]
  rw [closure_eq words level, ← before, get?_ofList_append_add, levelled_eq,
    get?_ofList_append_of_lt (by rwa [length_combined]), getElem?_combined inLevel]

end Listing

/-! ### Enumerations -/

namespace Words

open Listing

theorem Enumerates.listing_eq {expr : Expr} {listed : List Word}
    (enumerates : expr.words.Enumerates listed) : expr.listing = Seq.ofList listed := by
  apply Seq.ext
  intro index
  rw [← call_eq_get?_listing fun index _ => enumerates.returns index, enumerates.gives,
    Seq.ofList_get?]

theorem Enumerates.able {expr : Expr} {listed : List Word}
    (enumerates : expr.words.Enumerates listed) (someWord : listed ≠ []) : expr.Able where
  lively := enumerates.returns
  someWord := by
    have gives : expr.words.next.1 = listed[0]? := enumerates.gives 0
    rw [gives, List.getElem?_eq_getElem (List.length_pos_iff.mpr someWord)]
    exact Option.some_ne_none _

theorem factorListing_eq_combined {factors : List Expr} {blocks : List (List Word)}
    (enumerate : List.Forall₂ (fun factor listed => factor.words.Enumerates listed) factors
      blocks) : Expr.factorListing factors = Seq.ofList (combined blocks) := by
  induction enumerate with
  | nil => rw [Expr.factorListing, combined, single_eq_ofList]
  | cons enumerates _ inductionHypothesis =>
      rw [Expr.factorListing, enumerates.listing_eq, inductionHypothesis, product_ofList, combined]

theorem star_at_position {inner : Expr} {listed : List Word}
    (enumerates : inner.words.Enumerates listed) (someWord : listed ≠ []) {level number : Nat}
    (within : number < listed.length ^ level) :
    ((Expr.star inner).words.after
        (((List.range level).map (listed.length ^ ·)).sum + number)).next.1 =
      some (selected (List.replicate level listed) number).flatten := by
  have lively := lively_star (enumerates.able someWord)
  rw [call_eq_get?_listing fun index _ => lively index, Expr.listing, enumerates.listing_eq,
    get?_closure listed within]

section Concatenations

variable {first : Expr} {factors : List Expr} {blocks : List (List Word)}

/-- A round goes once through the words that the factors behind the first one make. -/
theorem rounds_pos
    (enumerate : List.Forall₂ (fun factor listed => factor.words.Enumerates listed ∧ listed ≠ [])
      factors blocks) : 0 < (blocks.map List.length).prod := by
  induction enumerate with
  | nil => exact Nat.one_pos
  | cons enumerates _ inductionHypothesis =>
      rw [List.map_cons, List.prod_cons]
      exact Nat.mul_pos (List.length_pos_iff.mpr enumerates.2) inductionHypothesis

variable
  (enumerate : List.Forall₂ (fun factor listed => factor.words.Enumerates listed ∧ listed ≠ [])
    factors blocks)
include enumerate

theorem concat_at_position {number : Nat}
    (returns : ∀ index ≤ number / (blocks.map List.length).prod,
      (first.words.after index).Returns) :
    ((Expr.concat (first :: factors)).words.after number).Returns ∧
      ((Expr.concat (first :: factors)).words.after number).next.1 =
        (first.words.after (number / (blocks.map List.length).prod)).next.1.map
          (· ++ (selected blocks number).flatten) := by
  have positive := rounds_pos enumerate
  have listed : List.Forall₂ (fun factor listed => factor.words.Enumerates listed) factors blocks :=
    enumerate.imp fun _ _ enumerates => enumerates.1
  have calls : ∀ index ≤ number,
      ((Expr.concat (first :: factors)).words.after index).Returns := by
    intro index within
    refine returns_concat listed (fun index within => returns index (Nat.le_of_lt_succ within))
      index ?_
    exact within.trans_lt (Nat.lt_mul_of_div_lt (Nat.lt_succ_self _) positive)
  have someRound : combined blocks ≠ [] := by
    rwa [← List.length_pos_iff, length_combined]
  refine ⟨calls number (Nat.le_refl number), ?_⟩
  rw [call_eq_get?_listing calls, call_eq_get?_listing returns, Expr.listing,
    Expr.factorListing, factorListing_eq_combined listed, get?_product _ someRound,
    length_combined, getElem?_combined (Nat.mod_lt number positive), selected_mod]
  exact Option.map_eq_bind.symm

theorem yields_concat {total : Nat} (yields : first.words.Yields total) :
    (Expr.concat (first :: factors)).words.Yields (total * (blocks.map List.length).prod) where
  returns := fun _ => (concat_at_position enumerate fun index _ => yields.returns index).1
  gives := fun index => by
    rw [(concat_at_position enumerate fun index _ => yields.returns index).2, Option.isSome_map,
      yields.gives, Nat.div_lt_iff_lt_mul (rounds_pos enumerate)]

theorem neverEnds_concat (endless : first.words.NeverEnds) :
    (Expr.concat (first :: factors)).words.NeverEnds where
  returns := fun _ => (concat_at_position enumerate fun index _ => endless.returns index).1
  gives := fun index => by
    rw [(concat_at_position enumerate fun index _ => endless.returns index).2, Option.isSome_map]
    exact endless.gives _

end Concatenations

/-- If the inside of a repetition enumerates a list of words, the digits of a number below the size
of a level say which of them make the word at that place of the level.  If the factors of a
concatenation behind the first one enumerate lists of words, the digits of a position say which of
them follow a word of the first factor, and what is left above the digits is the position of that
word in an enumeration that may be endless. -/
theorem words_at_positions :
    (∀ (inner : Expr) (listed : List Word), inner.words.Enumerates listed → listed ≠ [] →
      ∀ level number, number < listed.length ^ level →
        let position := ((List.range level).map (listed.length ^ ·)).sum + number
        ((Expr.star inner).words.after position).Returns ∧
          ((Expr.star inner).words.after position).next.1 =
            some (selected (List.replicate level listed) number).flatten) ∧
      ∀ (first : Expr) (factors : List Expr) (blocks : List (List Word)),
        List.Forall₂ (fun factor listed => factor.words.Enumerates listed ∧ listed ≠ []) factors
          blocks →
          let rounds := (blocks.map List.length).prod
          let whole := Expr.concat (first :: factors)
          (∀ number, (∀ index ≤ number / rounds, (first.words.after index).Returns) →
            (whole.words.after number).Returns ∧
              (whole.words.after number).next.1 =
                (first.words.after (number / rounds)).next.1.map
                  (· ++ (selected blocks number).flatten)) ∧
            (∀ total, first.words.Yields total → whole.words.Yields (total * rounds)) ∧
              (first.words.NeverEnds → whole.words.NeverEnds) := by
  constructor
  · intro inner listed enumerates someWord level number within position
    exact ⟨lively_star (enumerates.able someWord) position,
      star_at_position enumerates someWord within⟩
  · intro first factors blocks enumerate rounds whole
    exact ⟨fun number returns => concat_at_position enumerate returns,
      fun total yields => yields_concat enumerate yields, neverEnds_concat enumerate⟩

/-- In the levels of `a+b`, of which a raw union has a part without words, and behind the endless
`c*`. -/
theorem words_at_positions_raw_union :
    let inner := Expr.union [.union [], .literal 'a', .literal 'b']
    let whole := Expr.concat [.star (.literal 'c'), inner, inner]
    ((Expr.star inner).words.after 5).next.1 = some ['b', 'a'] ∧
      (whole.words.after 10).next.1 = some ['c', 'c', 'b', 'a'] ∧ whole.words.NeverEnds := by
  intro inner whole
  have inside : inner.words.Enumerates [['a'], ['b']] := enumerates_of_finite rfl
  have single : (Expr.literal 'c').words.Enumerates [['c']] := enumerates_of_finite rfl
  have endless : (Expr.star (.literal 'c')).words.NeverEnds := neverEnds_of_infinite rfl rfl
  have third := (words_at_positions.1 _ _ single (by decide) 2 0 (by decide)).2
  obtain ⟨atPosition, _, noEnd⟩ := words_at_positions.2 (.star (.literal 'c')) [inner, inner]
    [[['a'], ['b']], [['a'], ['b']]]
    (.cons ⟨inside, by decide⟩ (.cons ⟨inside, by decide⟩ .nil))
  have tenth := (atPosition 10 fun index _ => endless.returns index).2
  refine ⟨(words_at_positions.1 _ _ inside (by decide) 2 2 (by decide)).2, ?_, noEnd endless⟩
  exact tenth.trans (congrArg _ third)

end Words

end RegularWords
