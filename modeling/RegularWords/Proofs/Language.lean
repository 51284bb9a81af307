import Mathlib.Computability.Language
import RegularWords.Expr.Starvation
import RegularWords.Proofs.Enumeration
import RegularWords.Proofs.FiniteListing

/-!
The regular language of an expression, and which of its words the enumeration reaches.

Every word that is enumerated belongs to the language.  A word of the language may still be missed:
behind an infinite alternative, behind the first word of a factor that an infinite one follows, or
in the second level of a repetition with an infinite inside.  Where the analysis finds none of
these, every word of the language is enumerated.
-/

namespace RegularWords

open Stream' (Seq Seq1)
open scoped Computability

namespace Listing

/-! ### Words of appended and joined listings -/

theorem mem_single_iff {word other : Word} : word ∈ single other ↔ word = other := by
  unfold single
  rw [Seq.mem_cons_iff]
  simp

theorem mem_append_right (words : List Word) {word : Word} {listing : Listing}
    (listed : word ∈ listing) : word ∈ (Seq.ofList words).append listing := by
  induction words with
  | nil =>
      rw [Seq.ofList_nil, Seq.nil_append]
      exact listed
  | cons first words inductionHypothesis =>
      rw [Seq.ofList_cons, Seq.cons_append]
      apply Seq.mem_cons_of_mem
      exact inductionHypothesis

theorem exists_of_get?_append_join {word : Word} {rest : Listing} {blocks : Seq (Seq1 Word)}
    {number : Nat} (found : (rest.append (Seq.join blocks)).get? number = some word) :
    word ∈ rest ∨ ∃ block ∈ blocks, word ∈ block.toSeq := by
  induction number generalizing rest blocks with
  | zero =>
      cases rest with
      | cons first rest =>
          rw [Seq.cons_append, Seq.get?_cons_zero] at found
          cases found
          exact .inl (Seq.mem_cons _ _)
      | nil =>
          rw [Seq.nil_append] at found
          cases blocks with
          | nil =>
              rw [Seq.join_nil, Seq.get?_nil] at found
              cases found
          | cons block blocks =>
              rcases block with ⟨first, others⟩
              rw [Seq.join_cons, Seq.get?_cons_zero] at found
              cases found
              exact .inr ⟨_, Seq.mem_cons _ _, Seq.mem_cons _ _⟩
  | succ number inductionHypothesis =>
      cases rest with
      | cons first rest =>
          rw [Seq.cons_append, Seq.get?_cons_succ] at found
          rcases inductionHypothesis found with inRest | inBlock
          · exact .inl (Seq.mem_cons_of_mem _ inRest)
          · exact .inr inBlock
      | nil =>
          rw [Seq.nil_append] at found
          cases blocks with
          | nil =>
              rw [Seq.join_nil, Seq.get?_nil] at found
              cases found
          | cons block blocks =>
              rcases block with ⟨first, others⟩
              rw [Seq.join_cons, Seq.get?_cons_succ] at found
              right
              rcases inductionHypothesis found with inOthers | ⟨later, isLater, inLater⟩
              · exact ⟨_, Seq.mem_cons _ _, Seq.mem_cons_of_mem _ inOthers⟩
              · exact ⟨later, Seq.mem_cons_of_mem _ isLater, inLater⟩

theorem exists_of_mem_join {word : Word} {blocks : Seq (Seq1 Word)}
    (listed : word ∈ Seq.join blocks) : ∃ block ∈ blocks, word ∈ block.toSeq := by
  obtain ⟨number, found⟩ := Seq.mem_iff_exists_get?.mp listed
  rw [← Seq.nil_append (Seq.join blocks)] at found
  rcases exists_of_get?_append_join found.symm with inNil | inBlock
  · exact absurd inNil (Seq.notMem_nil word)
  · exact inBlock

/-! ### Words of products and levels -/

theorem exists_of_mem_product {word : Word} {left right : Listing}
    (listed : word ∈ product left right) :
    ∃ stem ∈ left, ∃ part ∈ right, stem ++ part = word := by
  cases right with
  | nil =>
      rw [product_nil] at listed
      exact absurd listed (Seq.notMem_nil word)
  | cons first others =>
      rw [product_cons_right] at listed
      obtain ⟨block, isBlock, inBlock⟩ := exists_of_mem_join listed
      obtain ⟨stem, inLeft, rfl⟩ := Seq.exists_of_mem_map isBlock
      have extended : word ∈ (Seq.cons first others).map (stem ++ ·) := by
        rw [Seq.map_cons]
        exact inBlock
      obtain ⟨part, inRight, rfl⟩ := Seq.exists_of_mem_map extended
      exact ⟨stem, inLeft, part, inRight, rfl⟩

/-- Every extension of every stem comes, if the extensions of one stem come to an end. -/
theorem append_mem_product {stem part : Word} {stems : Listing} {parts : List Word}
    (inStems : stem ∈ stems) (inParts : part ∈ Seq.ofList parts) :
    stem ++ part ∈ product stems (Seq.ofList parts) := by
  obtain ⟨number, found⟩ := Seq.mem_iff_exists_get?.mp inStems
  clear inStems
  induction number generalizing stems with
  | zero =>
      cases stems with
      | nil => cases found
      | cons first stems =>
          rw [Seq.get?_cons_zero] at found
          cases found
          rw [cons_product]
          apply Seq.mem_append_left
          exact Seq.mem_map _ inParts
  | succ number inductionHypothesis =>
      cases stems with
      | nil => cases found
      | cons first stems =>
          rw [Seq.get?_cons_succ] at found
          rw [cons_product, ofList_map]
          apply mem_append_right
          exact inductionHypothesis found

/-- What holds of the words of one level, and passes on to the next one, holds of all levels. -/
theorem forall_mem_levelled {inner level : Listing} (holds : Word → Prop)
    (passes : ∀ stem, holds stem → ∀ part ∈ inner, holds (stem ++ part))
    (atLevel : ∀ word ∈ level, holds word) : ∀ word ∈ levelled inner level, holds word := by
  have atBlock : ∀ number level, (∀ word ∈ level, holds word) →
      ∀ block, (levels inner level).get? number = some block →
        ∀ word ∈ block.toSeq, holds word := by
    intro number
    induction number with
    | zero =>
        intro level atLevel block found
        cases level with
        | nil =>
            rw [levels_nil] at found
            cases found
        | cons first others =>
            rw [levels_cons] at found
            cases found
            exact atLevel
    | succ number inductionHypothesis =>
        intro level atLevel block found
        cases level with
        | nil =>
            rw [levels_nil] at found
            cases found
        | cons first others =>
            rw [levels_cons] at found
            change (levels inner (product (.cons first others) inner)).get? number = _ at found
            apply inductionHypothesis _ _ block found
            intro word listed
            obtain ⟨stem, inLevel, part, inInner, rfl⟩ := exists_of_mem_product listed
            exact passes stem (atLevel stem inLevel) part inInner
  intro word listed
  obtain ⟨block, isBlock, inBlock⟩ := exists_of_mem_join listed
  obtain ⟨number, found⟩ := Seq.mem_iff_exists_get?.mp isBlock
  exact atBlock number level atLevel block found.symm word inBlock

/-- Every repetition of words of `inner` comes, if `inner` and so every level comes to an end. -/
theorem append_flatten_mem_levelled {innerWords : List Word} {parts : List Word}
    (inInner : ∀ part ∈ parts, part ∈ Seq.ofList innerWords) {stem : Word} {stems : List Word}
    (inLevel : stem ∈ Seq.ofList stems) :
    stem ++ parts.flatten ∈ levelled (Seq.ofList innerWords) (Seq.ofList stems) := by
  induction parts generalizing stem stems with
  | nil =>
      rw [levelled_eq, List.flatten_nil, List.append_nil]
      apply Seq.mem_append_left
      exact inLevel
  | cons part parts inductionHypothesis =>
      obtain ⟨partInner, partsInner⟩ := List.forall_mem_cons.mp inInner
      have inNext := append_mem_product inLevel partInner
      rw [levelled_eq, List.flatten_cons, ← List.append_assoc]
      apply mem_append_right
      rw [product_ofList] at inNext ⊢
      exact inductionHypothesis partsInner inNext

end Listing

namespace Expr

mutual

def language : Expr → Language Char
  | .literal symbol => {[symbol]}
  | .empty => 1
  | .concat factors => factorLanguage factors
  | .union alternatives => alternativeLanguage alternatives
  | .star inner => (language inner)∗

def factorLanguage : List Expr → Language Char
  | [] => 1
  | factor :: factors => language factor * factorLanguage factors

def alternativeLanguage : List Expr → Language Char
  | [] => 0
  | alternative :: alternatives => language alternative + alternativeLanguage alternatives

end

mutual

theorem mem_language_of_mem_listing : ∀ {expr : Expr} {word : Word},
    word ∈ expr.listing → word ∈ expr.language
  | .literal symbol, word, listed => by
      rw [listing, Listing.mem_single_iff] at listed
      rw [language]
      exact listed
  | .empty, word, listed => by
      rw [listing, Listing.mem_single_iff] at listed
      rw [language]
      exact listed
  | .concat factors, word, listed => by
      rw [listing] at listed
      rw [language]
      exact mem_factorLanguage_of_mem_listing listed
  | .union alternatives, word, listed => by
      rw [listing] at listed
      rw [language]
      exact mem_alternativeLanguage_of_mem_listing listed
  | .star inner, word, listed => by
      rw [listing] at listed
      rw [language]
      have onlyEmpty : ∀ stem ∈ Listing.single [], stem ∈ inner.language∗ := by
        intro stem isEmpty
        rw [Listing.mem_single_iff.mp isEmpty]
        exact Language.nil_mem_kstar _
      refine Listing.forall_mem_levelled (· ∈ inner.language∗) ?_ onlyEmpty word listed
      intro stem inStar part inInner
      rw [← Language.one_add_kstar_mul_self_eq_kstar]
      right
      exact Language.append_mem_mul inStar (mem_language_of_mem_listing inInner)

theorem mem_factorLanguage_of_mem_listing : ∀ {factors : List Expr} {word : Word},
    word ∈ factorListing factors → word ∈ factorLanguage factors
  | [], word, listed => by
      rw [factorListing, Listing.mem_single_iff] at listed
      rw [factorLanguage]
      exact listed
  | factor :: factors, word, listed => by
      rw [factorListing] at listed
      obtain ⟨stem, inFactor, part, inFactors, rfl⟩ := Listing.exists_of_mem_product listed
      rw [factorLanguage]
      exact Language.append_mem_mul (mem_language_of_mem_listing inFactor)
        (mem_factorLanguage_of_mem_listing inFactors)

theorem mem_alternativeLanguage_of_mem_listing : ∀ {alternatives : List Expr} {word : Word},
    word ∈ alternativeListing alternatives → word ∈ alternativeLanguage alternatives
  | [], word, listed => by
      rw [alternativeListing] at listed
      exact absurd listed (Seq.notMem_nil word)
  | alternative :: alternatives, word, listed => by
      rw [alternativeListing] at listed
      rw [alternativeLanguage, Language.mem_add]
      rcases Seq.of_mem_append listed with inFirst | inLater
      · exact .inl (mem_language_of_mem_listing inFirst)
      · exact .inr (mem_alternativeLanguage_of_mem_listing inLater)

end

/-! ### What the analysis of starvation rules out -/

theorem rootStarvation_eq_nil_iff {expr : Expr} :
    rootStarvation expr = [] ↔ expr.starvation? = none := by
  unfold rootStarvation
  cases expr.starvation? with
  | none => simp
  | some kind => simp

theorem starvations_concat_eq_nil_iff {factors : List Expr} :
    (Expr.concat factors).starvations = [] ↔
      stalls factors = false ∧ chainStarvations factors = [] := by
  rw [starvations, List.append_eq_nil_iff, rootStarvation_eq_nil_iff]
  simp [starvation?]

theorem starvations_union_eq_nil_iff {alternatives : List Expr} :
    (Expr.union alternatives).starvations = [] ↔
      hides alternatives = false ∧ chainStarvations alternatives = [] := by
  rw [starvations, List.append_eq_nil_iff, rootStarvation_eq_nil_iff]
  simp [starvation?]

theorem starvations_star_eq_nil_iff {inner : Expr} :
    (Expr.star inner).starvations = [] ↔ inner.isFinite = true ∧ inner.starvations = [] := by
  rw [starvations, List.append_eq_nil_iff, rootStarvation_eq_nil_iff]
  simp [starvation?]

theorem stalls_eq_false_of_finite {factors : List Expr} (finite : areFinite factors = true) :
    stalls factors = false := by
  induction factors with
  | nil => rfl
  | cons factor factors inductionHypothesis =>
      rw [areFinite, Bool.and_eq_true] at finite
      rw [stalls_cons, inductionHypothesis finite.2, finite.2]
      split <;> rfl

/-- A first factor with other than one word has only finite factors behind it. -/
theorem stalls_cons_eq_false {factor : Expr} {factors : List Expr}
    (goesOn : stalls (factor :: factors) = false) :
    stalls factors = false ∧ (factor.count? = some 1 ∨ areFinite factors = true) := by
  rw [stalls_cons] at goesOn
  split at goesOn
  · rename_i alone
    exact ⟨goesOn, .inl alone⟩
  · rw [Bool.not_eq_false'] at goesOn
    exact ⟨stalls_eq_false_of_finite goesOn, .inr goesOn⟩

theorem hides_cons_eq_false {alternative next : Expr} {alternatives : List Expr}
    (shows : hides (alternative :: next :: alternatives) = false) :
    alternative.isFinite = true ∧ hides (next :: alternatives) = false := by
  rw [hides_cons] at shows
  split at shows
  · rename_i finite
    exact ⟨finite, shows⟩
  · cases shows

/-! ### Words of the language are enumerated -/

mutual

theorem mem_listing_of_mem_language : ∀ {expr : Expr} {word : Word},
    expr.starvations = [] → word ∈ expr.language → word ∈ expr.listing
  | .literal symbol, word, _, denoted => by
      rw [language] at denoted
      rw [listing, Listing.mem_single_iff]
      exact denoted
  | .empty, word, _, denoted => by
      rw [language] at denoted
      rw [listing, Listing.mem_single_iff]
      exact denoted
  | .concat factors, word, unstarved, denoted => by
      obtain ⟨goesOn, unstarved⟩ := starvations_concat_eq_nil_iff.mp unstarved
      rw [language] at denoted
      rw [listing]
      exact mem_factorListing_of_mem_language goesOn unstarved denoted
  | .union alternatives, word, unstarved, denoted => by
      obtain ⟨shows, unstarved⟩ := starvations_union_eq_nil_iff.mp unstarved
      rw [language] at denoted
      rw [listing]
      exact mem_alternativeListing_of_mem_language shows unstarved denoted
  | .star inner, word, unstarved, denoted => by
      obtain ⟨finite, unstarved⟩ := starvations_star_eq_nil_iff.mp unstarved
      rw [language] at denoted
      obtain ⟨parts, rfl, inInner⟩ := Language.mem_kstar.mp denoted
      have listed : ∀ part ∈ parts, part ∈ Seq.ofList inner.wordList := by
        intro part isPart
        rw [← listing_eq_ofList finite]
        exact mem_listing_of_mem_language unstarved (inInner part isPart)
      have inLevel : [] ∈ Seq.ofList [([] : Word)] := by
        rw [Seq.ofList_cons]
        exact Seq.mem_cons _ _
      rw [listing, Listing.closure, listing_eq_ofList finite, Listing.single_eq_ofList]
      exact Listing.append_flatten_mem_levelled listed inLevel

theorem mem_factorListing_of_mem_language : ∀ {factors : List Expr} {word : Word},
    stalls factors = false → chainStarvations factors = [] → word ∈ factorLanguage factors →
      word ∈ factorListing factors
  | [], word, _, _, denoted => by
      rw [factorLanguage] at denoted
      rw [factorListing, Listing.mem_single_iff]
      exact denoted
  | factor :: factors, word, goesOn, unstarved, denoted => by
      rw [chainStarvations, List.append_eq_nil_iff] at unstarved
      rw [factorLanguage] at denoted
      obtain ⟨stem, inFactor, part, inFactors, rfl⟩ := Language.mem_mul.mp denoted
      have stemListed := mem_listing_of_mem_language unstarved.1 inFactor
      obtain ⟨laterGoOn, alone | finite⟩ := stalls_cons_eq_false goesOn
      · -- The factors behind may be infinite: there is only one word to stand before theirs.
        have partListed := mem_factorListing_of_mem_language laterGoOn unstarved.2 inFactors
        obtain ⟨only, onlyListed⟩ := exists_listing_eq_single alone
        rw [onlyListed, Listing.mem_single_iff] at stemListed
        rw [factorListing, onlyListed, Listing.product_single, stemListed]
        exact Seq.mem_map _ partListed
      · have partListed := mem_factorListing_of_mem_language laterGoOn unstarved.2 inFactors
        rw [factorListing]
        rw [factorListing_eq_ofList finite] at partListed ⊢
        exact Listing.append_mem_product stemListed partListed

theorem mem_alternativeListing_of_mem_language : ∀ {alternatives : List Expr} {word : Word},
    hides alternatives = false → chainStarvations alternatives = [] →
      word ∈ alternativeLanguage alternatives → word ∈ alternativeListing alternatives
  | [], word, _, _, denoted => by
      rw [alternativeLanguage] at denoted
      exact absurd denoted (Language.notMem_zero word)
  | [alternative], word, _, unstarved, denoted => by
      rw [chainStarvations, List.append_eq_nil_iff] at unstarved
      rw [alternativeLanguage, alternativeLanguage, add_zero] at denoted
      rw [alternativeListing]
      apply Seq.mem_append_left
      exact mem_listing_of_mem_language unstarved.1 denoted
  | alternative :: next :: alternatives, word, shows, unstarved, denoted => by
      rw [chainStarvations, List.append_eq_nil_iff] at unstarved
      obtain ⟨finite, laterShow⟩ := hides_cons_eq_false shows
      rw [alternativeLanguage, Language.mem_add] at denoted
      rw [alternativeListing]
      rcases denoted with inFirst | inLater
      · apply Seq.mem_append_left
        exact mem_listing_of_mem_language unstarved.1 inFirst
      · rw [listing_eq_ofList finite]
        apply Listing.mem_append_right
        exact mem_alternativeListing_of_mem_language laterShow unstarved.2 inLater

end

end Expr

namespace Words

/-- The calls of an enumeration end and give words of the language alone, and where the analysis
finds nothing starved, some call gives any word of the language. -/
theorem words_within_language {expr : Expr} (nonempty : expr.unionsNonempty = true) :
    (∀ number, (expr.words.after number).Returns) ∧
      (∀ number word, (expr.words.after number).next.1 = some word → word ∈ expr.language) ∧
        (expr.starvations = [] → ∀ word ∈ expr.language,
          ∃ number, (expr.words.after number).next.1 = some word) := by
  have lists := lists_words nonempty
  refine ⟨fun number => (lists.call number).1, ?_, ?_⟩
  · intro number word given
    rw [(lists.call number).2] at given
    apply Expr.mem_language_of_mem_listing
    exact Seq.get?_mem given
  · intro unstarved word denoted
    have listed := Expr.mem_listing_of_mem_language unstarved denoted
    obtain ⟨number, found⟩ := Seq.mem_iff_exists_get?.mp listed
    refine ⟨number, ?_⟩
    rw [(lists.call number).2, found]

/-- Nothing is starved in `a(a+b)*`, so `aba` comes. -/
theorem words_within_language_concat_star :
    let expr := Expr.concat [.literal 'a', .star (.union [.literal 'a', .literal 'b'])]
    expr.unionsNonempty = true ∧ expr.starvations = [] ∧ ['a', 'b', 'a'] ∈ expr.language ∧
      ∃ number, (expr.words.after number).next.1 = some ['a', 'b', 'a'] := by
  intro expr
  have nonempty : expr.unionsNonempty = true := rfl
  have unstarved : expr.starvations = [] := rfl
  have first : ['a'] ∈ (Expr.literal 'a').language := rfl
  have repeated : [['b'], ['a']].flatten ∈
      (Expr.star (.union [.literal 'a', .literal 'b'])).language := by
    rw [Expr.language]
    apply Language.join_mem_kstar
    intro part isPart
    rw [Expr.language, Expr.alternativeLanguage, Expr.alternativeLanguage]
    rcases List.mem_pair.mp isPart with rfl | rfl
    · exact .inr (.inl rfl)
    · exact .inl rfl
  have denoted : ['a', 'b', 'a'] ∈ expr.language := by
    rw [Expr.language, Expr.factorLanguage, Expr.factorLanguage, Expr.factorLanguage, mul_one]
    exact Language.append_mem_mul first repeated
  exact ⟨nonempty, unstarved, denoted, (words_within_language nonempty).2.2 unstarved _ denoted⟩

end Words

end RegularWords
