import RegularWords.Proofs.Lively

/-!
How many words an enumeration gives.

An expression without repetitions gives a list of words and then none, also where some union has no
alternatives.  If every union has alternatives, an expression with repetitions gives words for ever,
and a finite number of words is counted exactly if it is within the limit.
-/

namespace RegularWords

open Stream' (Seq)

namespace Words

/-- Every call ends.  As many calls as the number says give words, and the later ones none. -/
structure Yields (words : Words) (number : Nat) : Prop where
  returns : ∀ index, (words.after index).Returns
  gives : ∀ index, (words.after index).next.1.isSome = true ↔ index < number

structure NeverEnds (words : Words) : Prop where
  returns : ∀ index, (words.after index).Returns
  gives : ∀ index, (words.after index).next.1.isSome = true

variable {words : Words} {number : Nat}

theorem Yields.unique {other : Nat} (yields : words.Yields number)
    (otherYields : words.Yields other) : number = other := by
  rcases Nat.lt_trichotomy number other with less | same | more
  · exact absurd ((yields.gives number).mp ((otherYields.gives number).mpr less))
      (Nat.lt_irrefl number)
  · exact same
  · exact absurd ((otherYields.gives other).mp ((yields.gives other).mpr more))
      (Nat.lt_irrefl other)

theorem Yields.not_neverEnds (yields : words.Yields number) : ¬ words.NeverEnds :=
  fun noEnd => Nat.lt_irrefl number ((yields.gives number).mp (noEnd.gives number))

/-! ### Enumerations that come to their end -/

/-- Every call ends.  The first calls give the words of a list in order, and the later ones none. -/
structure Enumerates (words : Words) (listed : List Word) : Prop where
  returns : ∀ index, (words.after index).Returns
  gives : ∀ index, (words.after index).next.1 = listed[index]?

theorem Enumerates.yields {listed : List Word} (enumerates : words.Enumerates listed) :
    words.Yields listed.length where
  returns := enumerates.returns
  gives := fun index => by
    rw [enumerates.gives, Option.isSome_iff_ne_none, ne_eq, List.getElem?_eq_none_iff, Nat.not_le]

theorem enumerates_of_finite {expr : Expr} (finite : expr.isFinite = true) :
    expr.words.Enumerates expr.wordList := by
  have lively : expr.words.Lively := keeping_finishes.returns (Walk.finishes_start finite)
  refine ⟨lively, ?_⟩
  intro index
  rw [call_eq_get?_listing fun index _ => lively index, Expr.listing_eq_ofList finite,
    Seq.ofList_get?]

theorem yields_of_finite {expr : Expr} (finite : expr.isFinite = true) :
    expr.words.Yields expr.wordList.length :=
  (enumerates_of_finite finite).yields

theorem yields_of_counted {expr : Expr} (counted : expr.count? = some number) :
    expr.words.Yields number := by
  obtain ⟨finite, rfl⟩ := Expr.length_wordList counted
  exact yields_of_finite finite

/-! ### Enumerations that never end -/

theorem neverEnds_of_infinite {expr : Expr} (nonempty : expr.unionsNonempty = true)
    (infinite : expr.isFinite = false) : expr.words.NeverEnds where
  returns := fun index => ((lists_words nonempty).call index).1
  gives := fun index => by
    have noEnd := Expr.endless_listing nonempty infinite
    rw [((lists_words nonempty).call index).2]
    exact Seq.not_terminates_iff.mp noEnd index

/-! ### Counts -/

theorem le_countLimit_iff : number ≤ Expr.countLimit ↔ number < 2 ^ 64 := by
  have limit : Expr.countLimit + 1 = 2 ^ 64 := rfl
  rw [← limit, Nat.lt_succ_iff]

theorem count?_eq_some_iff {expr : Expr} (nonempty : expr.unionsNonempty = true) :
    expr.count? = some number ↔
      expr.isFinite = true ∧ expr.words.Yields number ∧ number < 2 ^ 64 := by
  constructor
  · intro counted
    obtain ⟨finite, _⟩ := Expr.length_wordList counted
    exact ⟨finite, yields_of_counted counted, le_countLimit_iff.mp (Expr.count?_le counted)⟩
  · rintro ⟨finite, yields, small⟩
    obtain rfl := yields.unique (yields_of_finite finite)
    exact Expr.count?_eq_length nonempty finite (le_countLimit_iff.mpr small)

theorem count?_eq_none_iff {expr : Expr} (nonempty : expr.unionsNonempty = true)
    (finite : expr.isFinite = true) :
    expr.count? = none ↔ ∃ number, expr.words.Yields number ∧ 2 ^ 64 ≤ number := by
  have yields := yields_of_finite finite
  constructor
  · intro uncounted
    refine ⟨_, yields, ?_⟩
    by_contra small
    have counted := (count?_eq_some_iff nonempty).mpr ⟨finite, yields, Nat.lt_of_not_le small⟩
    cases uncounted.symm.trans counted
  · rintro ⟨number, yieldsNumber, large⟩
    rw [Option.eq_none_iff_forall_ne_some]
    intro other counted
    obtain ⟨_, yieldsOther, small⟩ := (count?_eq_some_iff nonempty).mp counted
    rw [yieldsOther.unique yieldsNumber] at small
    exact Nat.not_lt.mpr large small

/-- What is counted are the words that the calls give, and an expression without repetitions gives
finitely many, whatever its unions.  If they all have alternatives, every other expression gives
words for ever, and a finite number of words is uncounted exactly if it is 2 ^ 64 or more. -/
theorem calls_give_count (expr : Expr) :
    (∀ number, expr.count? = some number → expr.words.Yields number) ∧
      (expr.isFinite = true → ∃ number, expr.words.Yields number) ∧
      (expr.unionsNonempty = true →
        ((∃ number, expr.words.Yields number) ↔ expr.isFinite = true) ∧
        (expr.isFinite = false → expr.words.NeverEnds) ∧
        (∀ number, expr.count? = some number ↔
          expr.isFinite = true ∧ expr.words.Yields number ∧ number < 2 ^ 64) ∧
        (expr.isFinite = true →
          (expr.count? = none ↔ ∃ number, expr.words.Yields number ∧ 2 ^ 64 ≤ number))) := by
  refine ⟨fun _ => yields_of_counted, fun finite => ⟨_, yields_of_finite finite⟩, ?_⟩
  intro nonempty
  refine ⟨⟨?_, fun finite => ⟨_, yields_of_finite finite⟩⟩, neverEnds_of_infinite nonempty,
    fun _ => count?_eq_some_iff nonempty, count?_eq_none_iff nonempty⟩
  rintro ⟨number, yields⟩
  by_contra infinite
  exact yields.not_neverEnds (neverEnds_of_infinite nonempty (Bool.eq_false_iff.mpr infinite))

/-- A raw tree without words, `@*`, and a chain of 64 factors `a+b`. -/
theorem calls_give_count_each_kind :
    let wordless := Expr.concat [.literal 'a', .union []]
    let endless := Expr.star .empty
    let large := Expr.concat (List.replicate 64 (.union [.literal 'a', .literal 'b']))
    wordless.words.Yields 0 ∧ endless.words.NeverEnds ∧ large.isFinite = true ∧
      ∃ number, large.words.Yields number ∧ 2 ^ 64 ≤ number := by
  intro wordless endless large
  have finite : large.isFinite = true := by decide
  obtain ⟨_, _, _, uncounted⟩ := (calls_give_count large).2.2 (by decide)
  exact ⟨(calls_give_count wordless).1 0 (by decide),
    ((calls_give_count endless).2.2 (by decide)).2.1 (by decide), finite,
    (uncounted finite).mp (by decide +kernel)⟩

end Words

end RegularWords
