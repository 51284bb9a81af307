import Mathlib.Data.Finset.Card
import RegularWords.Proofs.Sorting

/-!
The laws of the dictionary order over an alphabet.

Words are compared by their first difference, and what stands behind it or in common before it makes
no difference.  These laws leave no other order, so it may also be computed from numbers that place
the characters, symbols by rank and all others at one number above every rank.  Sorting is stable,
and of words alone it has one result.
-/

namespace RegularWords.Alphabet

/-- The laws of a comparison that goes by the ranks of symbols, then by code points. -/
structure DictionaryOrder (alphabet : Alphabet) (comparison : Word → Word → Ordering) : Prop where
  reflexive : ∀ word, comparison word word = .eq
  swapped : ∀ left right, comparison right left = (comparison left right).swap
  transitive : ∀ first second third, (comparison first second).isLE = true →
    (comparison second third).isLE = true → (comparison first third).isLE = true
  identical : ∀ left right, comparison left right = .eq → left = right
  longer : ∀ word character rest, comparison word (word ++ character :: rest) = .lt
  sameStem : ∀ stem left right, comparison (stem ++ left) (stem ++ right) = comparison left right
  sameRest : ∀ left right, ¬ left <+: right → ¬ right <+: left → ∀ leftRest rightRest,
    comparison (left ++ leftRest) (right ++ rightRest) = comparison left right
  byRank : ∀ left right rank higher, alphabet.rank? left = some rank →
    alphabet.rank? right = some higher → rank < higher → comparison [left] [right] = .lt
  symbolsFirst : ∀ symbol ∈ alphabet.symbols, ∀ character ∉ alphabet.symbols,
    comparison [symbol] [character] = .lt
  byCodePoint : ∀ left ∉ alphabet.symbols, ∀ right ∉ alphabet.symbols,
    left.toNat < right.toNat → comparison [left] [right] = .lt

variable {alphabet : Alphabet}

/-! ### The first difference decides -/

theorem compareWords_cons_of_ne {left right : Char} (apart : left ≠ right)
    (leftRest rightRest : Word) :
    alphabet.compareWords (left :: leftRest) (right :: rightRest) =
      compare (alphabet.place left) (alphabet.place right) := by
  rw [compareWords, if_neg apart]

theorem compareWords_append_left (stem left right : Word) :
    alphabet.compareWords (stem ++ left) (stem ++ right) = alphabet.compareWords left right := by
  induction stem with
  | nil => rfl
  | cons character stem inductionHypothesis =>
      rw [List.cons_append, List.cons_append, compareWords, if_pos rfl, inductionHypothesis]

theorem compareWords_append_cons (word : Word) (character : Char) (rest : Word) :
    alphabet.compareWords word (word ++ character :: rest) = .lt := by
  have shorter := alphabet.compareWords_append_left word [] (character :: rest)
  rw [List.append_nil] at shorter
  exact shorter

theorem compareWords_append_of_not_prefix {left right : Word} (notBefore : ¬ left <+: right)
    (notBehind : ¬ right <+: left) (leftRest rightRest : Word) :
    alphabet.compareWords (left ++ leftRest) (right ++ rightRest) =
      alphabet.compareWords left right := by
  induction left generalizing right with
  | nil => exact absurd List.nil_prefix notBefore
  | cons first left inductionHypothesis =>
      cases right with
      | nil => exact absurd List.nil_prefix notBehind
      | cons other right =>
          rw [List.cons_append, List.cons_append]
          by_cases same : first = other
          · subst same
            rw [List.prefix_cons_inj] at notBefore notBehind
            rw [compareWords, compareWords, if_pos rfl, if_pos rfl,
              inductionHypothesis notBefore notBehind]
          · rw [compareWords_cons_of_ne same, compareWords_cons_of_ne same]

theorem compareWords_singletons_of_place_lt {left right : Char}
    (before : alphabet.place left < alphabet.place right) :
    alphabet.compareWords [left] [right] = .lt := by
  have apart : left ≠ right := by
    rintro rfl
    exact Nat.lt_irrefl _ before
  rw [compareWords_cons_of_ne apart]
  exact Nat.compare_eq_lt.mpr before

/-! ### The laws -/

theorem dictionaryOrder_compareWords (alphabet : Alphabet) :
    alphabet.DictionaryOrder alphabet.compareWords where
  reflexive := fun word => Std.ReflCmp.compare_self
  swapped := fun left right => Std.OrientedCmp.eq_swap
  transitive := fun first second third => Std.TransCmp.isLE_trans
  identical := fun left right => Std.LawfulEqCmp.eq_of_compare
  longer := compareWords_append_cons
  sameStem := compareWords_append_left
  sameRest := fun left right => compareWords_append_of_not_prefix
  byRank := by
    intro left right rank higher ranked otherRanked before
    apply compareWords_singletons_of_place_lt
    rw [(alphabet.place_of_rank? ranked).1, (alphabet.place_of_rank? otherRanked).1]
    exact before
  symbolsFirst := by
    intro symbol isSymbol character noSymbol
    obtain ⟨rank, ranked⟩ := exists_rank?_iff.mpr isSymbol
    obtain ⟨placed, inside⟩ := alphabet.place_of_rank? ranked
    apply compareWords_singletons_of_place_lt
    rw [placed, alphabet.place_of_no_rank (rank?_eq_none_iff.mpr noSymbol)]
    exact Nat.lt_add_right _ inside
  byCodePoint := by
    intro left leftNoSymbol right rightNoSymbol before
    apply compareWords_singletons_of_place_lt
    rw [alphabet.place_of_no_rank (rank?_eq_none_iff.mpr leftNoSymbol),
      alphabet.place_of_no_rank (rank?_eq_none_iff.mpr rightNoSymbol)]
    exact Nat.add_lt_add_left before _

theorem DictionaryOrder.lt_of_place_lt {comparison : Word → Word → Ordering}
    (order : alphabet.DictionaryOrder comparison) {left right : Char}
    (before : alphabet.place left < alphabet.place right) :
    comparison [left] [right] = .lt := by
  cases leftRank : alphabet.rank? left with
  | some rank =>
      obtain ⟨placed, inside⟩ := alphabet.place_of_rank? leftRank
      cases rightRank : alphabet.rank? right with
      | some higher =>
          apply order.byRank left right rank higher leftRank rightRank
          rwa [placed, (alphabet.place_of_rank? rightRank).1] at before
      | none =>
          exact order.symbolsFirst left (exists_rank?_iff.mp ⟨rank, leftRank⟩) right
            (rank?_eq_none_iff.mp rightRank)
  | none =>
      rw [alphabet.place_of_no_rank leftRank] at before
      cases rightRank : alphabet.rank? right with
      | some higher =>
          obtain ⟨placed, inside⟩ := alphabet.place_of_rank? rightRank
          omega
      | none =>
          rw [alphabet.place_of_no_rank rightRank] at before
          exact order.byCodePoint left (rank?_eq_none_iff.mp leftRank) right
            (rank?_eq_none_iff.mp rightRank) (Nat.lt_of_add_lt_add_left before)

/-- The laws leave no other order. -/
theorem DictionaryOrder.eq_compareWords {comparison : Word → Word → Ordering}
    (order : alphabet.DictionaryOrder comparison) (left right : Word) :
    comparison left right = alphabet.compareWords left right := by
  induction left generalizing right with
  | nil =>
      cases right with
      | nil => exact order.reflexive []
      | cons character rest => exact order.longer [] character rest
  | cons first left inductionHypothesis =>
      cases right with
      | nil =>
          have shorter : comparison [] (first :: left) = .lt := order.longer [] first left
          rw [order.swapped [] (first :: left), shorter]
          rfl
      | cons other right =>
          by_cases same : first = other
          · subst same
            rw [compareWords, if_pos rfl, ← inductionHypothesis]
            exact order.sameStem [first] left right
          · have apart : ∀ {one another : Char}, one ≠ another → ¬ [one] <+: [another] := by
              intro one another different begins
              exact different (List.cons_prefix_cons.mp begins).1
            have decided : comparison (first :: left) (other :: right) =
                comparison [first] [other] :=
              order.sameRest [first] [other] (apart same) (apart (Ne.symm same)) left right
            rw [decided, compareWords_cons_of_ne same]
            rcases Nat.lt_or_gt_of_ne (mt (@alphabet.place_injective _ _) same) with less | more
            · rw [order.lt_of_place_lt less, Nat.compare_eq_lt.mpr less]
            · rw [order.swapped, order.lt_of_place_lt more, Nat.compare_eq_gt.mpr more]
              rfl

theorem dictionaryOrder_iff {comparison : Word → Word → Ordering} :
    alphabet.DictionaryOrder comparison ↔ comparison = alphabet.compareWords := by
  constructor
  · intro order
    funext left right
    exact order.eq_compareWords left right
  · rintro rfl
    exact dictionaryOrder_compareWords alphabet

/-! ### Keys -/

/-- The largest number of 64 bits stands above every rank. -/
def unranked : Nat := Nat.pow 2 64 - 1

def key (alphabet : Alphabet) (character : Char) : Nat × Char :=
  match alphabet.rank? character with
  | some rank => (rank, Char.ofNat 0)
  | none => (unranked, character)

def compareKeys : Nat × Char → Nat × Char → Ordering :=
  compareLex (compareOn Prod.fst) (compareOn Prod.snd)

theorem key_of_rank? {character : Char} {rank : Nat}
    (ranked : alphabet.rank? character = some rank) :
    alphabet.key character = (rank, Char.ofNat 0) := by
  rw [key, ranked]

theorem key_of_no_rank {character : Char} (noRank : alphabet.rank? character = none) :
    alphabet.key character = (unranked, character) := by
  rw [key, noRank]

theorem toNat_lt_codePoints (character : Char) : character.toNat < 0x110000 := by
  rcases character.valid with low | high
  · exact low.trans (by decide)
  · exact high.2

/-- There are fewer symbols than code points. -/
theorem size_lt_unranked (alphabet : Alphabet) : alphabet.size < unranked := by
  have distinctPoints : (alphabet.symbols.map Char.toNat).Nodup :=
    alphabet.distinct.map fun _ _ same => Char.toNat_inj.mp same
  have inRange : (alphabet.symbols.map Char.toNat).toFinset ⊆ Finset.range 0x110000 := by
    intro point isPoint
    rw [List.mem_toFinset, List.mem_map] at isPoint
    obtain ⟨symbol, _, rfl⟩ := isPoint
    exact Finset.mem_range.mpr (toNat_lt_codePoints symbol)
  have few := Finset.card_le_card inRange
  rw [List.toFinset_card_of_nodup distinctPoints, List.length_map, Finset.card_range] at few
  exact Nat.lt_of_le_of_lt few (by decide)

theorem compare_eq_compare_toNat (left right : Char) :
    compare left right = compare left.toNat right.toNat := by
  have less : left < right ↔ left.toNat < right.toNat :=
    Char.lt_def.trans UInt32.lt_iff_toNat_lt
  change compareOfLessAndEq left right = compareOfLessAndEq left.toNat right.toNat
  simp only [compareOfLessAndEq, less, Char.toNat_inj]

theorem compare_add_left (shift left right : Nat) :
    compare (shift + left) (shift + right) = compare left right := by
  rcases Nat.lt_trichotomy left right with less | same | more
  · rw [Nat.compare_eq_lt.mpr less, Nat.compare_eq_lt.mpr (Nat.add_lt_add_left less shift)]
  · rw [same, Nat.compare_eq_eq.mpr rfl, Nat.compare_eq_eq.mpr rfl]
  · rw [Nat.compare_eq_gt.mpr more, Nat.compare_eq_gt.mpr (Nat.add_lt_add_left more shift)]

/-- Keys are ordered like places, because no rank reaches the number of the other characters. -/
theorem compareKeys_key (left right : Char) :
    compareKeys (alphabet.key left) (alphabet.key right) =
      compare (alphabet.place left) (alphabet.place right) := by
  have few := alphabet.size_lt_unranked
  unfold compareKeys compareLex compareOn
  cases leftRank : alphabet.rank? left with
  | some rank =>
      obtain ⟨placed, inside⟩ := alphabet.place_of_rank? leftRank
      rw [key_of_rank? leftRank, placed]
      cases rightRank : alphabet.rank? right with
      | some otherRank =>
          rw [key_of_rank? rightRank, (alphabet.place_of_rank? rightRank).1]
          exact Ordering.then_eq
      | none =>
          have below : rank < unranked := inside.trans few
          have before : rank < alphabet.size + right.toNat := Nat.lt_add_right _ inside
          rw [key_of_no_rank rightRank, alphabet.place_of_no_rank rightRank,
            Nat.compare_eq_lt.mpr below, Nat.compare_eq_lt.mpr before]
          rfl
  | none =>
      rw [key_of_no_rank leftRank, alphabet.place_of_no_rank leftRank]
      cases rightRank : alphabet.rank? right with
      | some otherRank =>
          obtain ⟨placed, inside⟩ := alphabet.place_of_rank? rightRank
          have below : otherRank < unranked := inside.trans few
          have before : otherRank < alphabet.size + left.toNat := Nat.lt_add_right _ inside
          rw [key_of_rank? rightRank, placed, Nat.compare_eq_gt.mpr below,
            Nat.compare_eq_gt.mpr before]
          rfl
      | none =>
          rw [key_of_no_rank rightRank, alphabet.place_of_no_rank rightRank, compare_add_left,
            ← compare_eq_compare_toNat, Nat.compare_eq_eq.mpr rfl]
          rfl

theorem compareLex_map_congr {α β : Type} {comparison : α → α → Ordering}
    {otherComparison : β → β → Ordering} {value : Char → α} {otherValue : Char → β}
    (agree : ∀ left right, comparison (value left) (value right) =
      otherComparison (otherValue left) (otherValue right)) (left right : Word) :
    List.compareLex comparison (left.map value) (right.map value) =
      List.compareLex otherComparison (left.map otherValue) (right.map otherValue) := by
  induction left generalizing right with
  | nil => cases right <;> rfl
  | cons first left inductionHypothesis =>
      cases right with
      | nil => rfl
      | cons other right =>
          rw [List.map_cons, List.map_cons, List.map_cons, List.map_cons,
            List.compareLex_cons_cons, List.compareLex_cons_cons, agree, inductionHypothesis]

/-- Words are compared like the lists of their keys. -/
theorem compareWords_eq_compareLex (left right : Word) :
    alphabet.compareWords left right =
      List.compareLex compareKeys (left.map alphabet.key) (right.map alphabet.key) := by
  rw [compareWords_eq_compare]
  exact (compareLex_map_congr compareKeys_key left right).symm

/-! ### Sorting -/

theorem perm_sortBy {α : Type} (word : α → Word) (items : List α) :
    (alphabet.sortBy word items).Perm items :=
  List.mergeSort_perm items _

/-- The words of the sorted items are the sorted words. -/
theorem map_sortBy {α : Type} (word : α → Word) (items : List α) :
    (alphabet.sortBy word items).map word = alphabet.sort (items.map word) :=
  List.map_mergeSort fun _ _ _ _ => rfl

/-- Items of equal words keep their order. -/
theorem filter_sortBy {α : Type} (word : α → Word) (items : List α) (chosen : Word) :
    (alphabet.sortBy word items).filter (fun item => word item == chosen) =
      items.filter fun item => word item == chosen := by
  have equal : alphabet.compareWords chosen chosen = .eq := Std.ReflCmp.compare_self
  have self : alphabet.precedes chosen chosen = true := by
    rw [precedes, equal]
    rfl
  have inOrder : (items.filter fun item => word item == chosen).Pairwise
      fun left right => alphabet.precedes (word left) (word right) = true := by
    refine List.pairwise_iff_forall_sublist.mpr fun {left right} pair => ?_
    have chosenOnly : ∀ item ∈ [left, right], word item = chosen := by
      intro item isItem
      exact eq_of_beq (List.mem_filter.mp (pair.subset isItem)).2
    rw [chosenOnly left (by simp), chosenOnly right (by simp), self]
  have kept : (items.filter fun item => word item == chosen).Sublist
      (alphabet.sortBy word items) := by
    refine List.sublist_mergeSort ?_ ?_ inOrder List.filter_sublist
    · intro _ _ _ before behind
      exact alphabet.precedes_trans before behind
    · intro left right
      exact alphabet.precedes_total (word left) (word right)
  have keptAlone := kept.filter fun item => word item == chosen
  rw [List.filter_filter] at keptAlone
  simp only [Bool.and_self] at keptAlone
  exact (keptAlone.eq_of_length ((perm_sortBy word items).filter _).length_eq.symm).symm

theorem sort_eq_sort_iff {words others : List Word} :
    alphabet.sort words = alphabet.sort others ↔ words.Perm others := by
  constructor
  · intro same
    exact (perm_sort words).symm.trans (same ▸ perm_sort others)
  · intro arranged
    exact eq_sort_iff.mpr ⟨(perm_sort words).trans arranged, ascending_sort words⟩

/-- The comparison of words obeys the laws of the dictionary order and no other does, and it is the
one by keys.  Sorting arranges items in this order, those of equal words as they were.  Of words
alone it makes the one arrangement in order, the same for two lists exactly if they are arrangements
of the same words. -/
theorem dictionary_order_of_words (alphabet : Alphabet) :
    (∀ comparison, alphabet.DictionaryOrder comparison ↔ comparison = alphabet.compareWords) ∧
      (∀ left right, alphabet.compareWords left right =
        List.compareLex compareKeys (left.map alphabet.key) (right.map alphabet.key)) ∧
      (∀ (α : Type) (word : α → Word) (items : List α),
        (alphabet.sortBy word items).Perm items ∧
          alphabet.Ascending ((alphabet.sortBy word items).map word) ∧
          ∀ chosen, (alphabet.sortBy word items).filter (fun item => word item == chosen) =
            items.filter fun item => word item == chosen) ∧
      (∀ words others,
        words = alphabet.sort others ↔ words.Perm others ∧ alphabet.Ascending words) ∧
      ∀ words others,
        alphabet.sort words = alphabet.sort others ↔ words.Perm others := by
  refine ⟨fun _ => dictionaryOrder_iff, compareWords_eq_compareLex, ?_, fun _ _ => eq_sort_iff,
    fun _ _ => sort_eq_sort_iff⟩
  intro α word items
  refine ⟨perm_sortBy word items, ?_, filter_sortBy word items⟩
  rw [map_sortBy]
  exact ascending_sort _

end RegularWords.Alphabet
