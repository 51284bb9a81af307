import Mathlib.Data.List.Basic
import RegularWords.Alphabet.Order

/-!
Words have one sorted arrangement.

The places of an alphabet are different for different characters, and words are compared like the
lists of their places.  So the order of words is linear and only equal words compare equal, which
leaves one way to arrange words in order, whether or not some of them repeat.
-/

namespace RegularWords.Alphabet

variable (alphabet : Alphabet)

/-! ### The order is linear -/

theorem place_of_rank? {character : Char} {rank : Nat}
    (ranked : alphabet.rank? character = some rank) :
    alphabet.place character = rank ∧ rank < alphabet.size := by
  obtain ⟨inside, _⟩ := List.idxOf?_eq_some_iff.mp ranked
  exact ⟨by rw [place, ranked], inside⟩

theorem place_of_no_rank {character : Char} (unranked : alphabet.rank? character = none) :
    alphabet.place character = alphabet.size + character.toNat := by
  rw [place, unranked]

theorem place_injective : Function.Injective alphabet.place := by
  intro left right same
  cases leftRank : alphabet.rank? left with
  | none =>
      rw [alphabet.place_of_no_rank leftRank] at same
      cases rightRank : alphabet.rank? right with
      | none =>
          rw [alphabet.place_of_no_rank rightRank, Nat.add_left_cancel_iff] at same
          exact Char.toNat_inj.mp same
      | some rank =>
          obtain ⟨placed, inside⟩ := alphabet.place_of_rank? rightRank
          omega
  | some rank =>
      obtain ⟨placed, inside⟩ := alphabet.place_of_rank? leftRank
      cases rightRank : alphabet.rank? right with
      | none =>
          rw [alphabet.place_of_no_rank rightRank] at same
          omega
      | some otherRank =>
          obtain ⟨otherPlaced, _⟩ := alphabet.place_of_rank? rightRank
          obtain rfl : rank = otherRank := by omega
          have sameSymbol := (rank?_eq_some_iff.mp leftRank).symm.trans
            (rank?_eq_some_iff.mp rightRank)
          exact Option.some.inj sameSymbol

/-- Words are compared like the lists of the places of their characters. -/
theorem compareWords_eq_compare (left right : Word) :
    alphabet.compareWords left right =
      compare (left.map alphabet.place) (right.map alphabet.place) := by
  induction left generalizing right with
  | nil => cases right <;> rfl
  | cons a as inductionHypothesis =>
      cases right with
      | nil => rfl
      | cons b bs =>
          rw [compareWords, List.map_cons, List.map_cons, List.compare_cons_cons]
          by_cases same : a = b
          · rw [if_pos same, same, Std.ReflOrd.compare_self, inductionHypothesis]
            rfl
          · have apart : compare (alphabet.place a) (alphabet.place b) ≠ .eq := fun equal =>
              same (alphabet.place_injective (Std.LawfulEqOrd.eq_of_compare equal))
            rw [if_neg same]
            cases decided : compare (alphabet.place a) (alphabet.place b) with
            | eq => exact absurd decided apart
            | lt => rfl
            | gt => rfl

instance : Std.TransCmp alphabet.compareWords where
  eq_swap := by
    intro left right
    rw [compareWords_eq_compare, compareWords_eq_compare]
    exact Std.OrientedOrd.eq_swap
  isLE_trans := by
    intro first second third
    rw [compareWords_eq_compare, compareWords_eq_compare, compareWords_eq_compare]
    exact Std.TransOrd.isLE_trans

instance : Std.LawfulEqCmp alphabet.compareWords where
  compare_self := by
    intro word
    rw [compareWords_eq_compare]
    exact Std.ReflOrd.compare_self
  eq_of_compare := by
    intro left right equal
    rw [compareWords_eq_compare] at equal
    exact List.map_injective_iff.mpr alphabet.place_injective (Std.LawfulEqOrd.eq_of_compare equal)

theorem precedes_trans {first second third : Word} (left : alphabet.precedes first second = true)
    (right : alphabet.precedes second third = true) : alphabet.precedes first third = true :=
  Std.TransCmp.isLE_trans left right

theorem precedes_antisymm {left right : Word} (before : alphabet.precedes left right = true)
    (behind : alphabet.precedes right left = true) : left = right :=
  Std.LawfulEqCmp.eq_of_compare (Std.OrientedCmp.isLE_antisymm before behind)

theorem precedes_total (left right : Word) :
    (alphabet.precedes left right || alphabet.precedes right left) = true := by
  have swapped : alphabet.compareWords right left = (alphabet.compareWords left right).swap :=
    Std.OrientedCmp.eq_swap
  rw [precedes, precedes, swapped]
  cases alphabet.compareWords left right <;> rfl

/-! ### Words in order -/

def Ascending (words : List Word) : Prop :=
  words.Pairwise fun left right => alphabet.precedes left right = true

instance (words : List Word) : Decidable (alphabet.Ascending words) :=
  inferInstanceAs (Decidable (words.Pairwise fun left right => alphabet.precedes left right = true))

def Increasing (words : List Word) : Prop :=
  words.Pairwise fun left right => alphabet.compareWords left right = .lt

variable {alphabet} {words others : List Word}

theorem Ascending.eq_of_perm (ascending : alphabet.Ascending words)
    (othersAscending : alphabet.Ascending others) (arranged : words.Perm others) :
    words = others :=
  arranged.eq_of_pairwise (fun _ _ _ _ => alphabet.precedes_antisymm) ascending othersAscending

theorem Ascending.increasing (ascending : alphabet.Ascending words) (once : words.Nodup) :
    alphabet.Increasing words := by
  refine ascending.imp₂ ?_ once
  intro left right before apart
  cases decided : alphabet.compareWords left right with
  | lt => rfl
  | eq => exact absurd (Std.LawfulEqCmp.eq_of_compare decided) apart
  | gt =>
      rw [precedes, decided] at before
      cases before

theorem perm_sort (words : List Word) : (alphabet.sort words).Perm words :=
  List.mergeSort_perm words _

theorem ascending_sort (words : List Word) : alphabet.Ascending (alphabet.sort words) :=
  @List.pairwise_mergeSort Word alphabet.precedes (fun _ _ _ => alphabet.precedes_trans)
    alphabet.precedes_total words

/-- Sorting gives the one arrangement that is in order. -/
theorem eq_sort_iff : words = alphabet.sort others ↔
    words.Perm others ∧ alphabet.Ascending words := by
  constructor
  · rintro rfl
    exact ⟨perm_sort others, ascending_sort others⟩
  · rintro ⟨arranged, ascending⟩
    exact ascending.eq_of_perm (ascending_sort others) (arranged.trans (perm_sort others).symm)

/-- Fewer words stand in the same order, because words that could change places are equal. -/
theorem sublist_sort (fewer : words.Sublist others) :
    (alphabet.sort words).Sublist (alphabet.sort others) := by
  obtain ⟨kept, arranged, sublist⟩ := List.exists_perm_sublist fewer (perm_sort others).symm
  have inOrder : kept = alphabet.sort words :=
    eq_sort_iff.mpr ⟨arranged, (ascending_sort others).sublist sublist⟩
  rwa [inOrder] at sublist

/-- Repeats may be dropped before sorting or after it. -/
theorem sort_firsts (words : List Word) :
    alphabet.sort (Distinct.firsts words) = Distinct.firsts (alphabet.sort words) := by
  symm
  rw [eq_sort_iff]
  constructor
  · rw [List.perm_ext_iff_of_nodup (Distinct.nodup_firsts _) (Distinct.nodup_firsts _)]
    intro word
    rw [Distinct.mem_firsts, Distinct.mem_firsts, (perm_sort words).mem_iff]
  · exact (ascending_sort words).sublist (Distinct.sublist_firsts _)

end RegularWords.Alphabet
