import Mathlib.Data.List.Perm.Subperm
import RegularWords.Grammar.Parser

/-!
The visits of the parser go forward.

A rule visits no place before the one it started from and none behind the one it stops at.  A
primary moves past the character at its place before anything else is visited.  So primaries are
visited at increasing places, and a text has one such place more than it has characters.
-/

namespace RegularWords.Grammar

/-! ### Visits between two places -/

def Visit.offset (visit : Visit) : Nat :=
  visit.position.offset

/-- Later visits are at no earlier place, and behind the place of a primary. -/
structure Visit.Precedes (earlier later : Visit) : Prop where
  back : earlier.offset ≤ later.offset
  primary : earlier.production = .primary → earlier.offset < later.offset

/-- The visits made from one place of a text to another, latest first. -/
structure Forward (first last : Nat) (visits : List Visit) : Prop where
  ordered : first ≤ last
  within : ∀ visit ∈ visits, first ≤ visit.offset ∧ visit.offset < last
  precedes : visits.Pairwise fun later earlier => earlier.Precedes later

namespace Forward

variable {first middle last : Nat} {visits inside : List Visit} {position : Position}

theorem nil (ordered : first ≤ last) : Forward first last [] where
  ordered := ordered
  within := fun _ inNone => absurd inNone List.not_mem_nil
  precedes := .nil

theorem append (forward : Forward first middle visits) (later : Forward middle last inside) :
    Forward first last (inside ++ visits) where
  ordered := Nat.le_trans forward.ordered later.ordered
  within := by
    intro visit isVisit
    rcases List.mem_append.mp isVisit with isInside | isBefore
    · obtain ⟨behind, before⟩ := later.within visit isInside
      exact ⟨Nat.le_trans forward.ordered behind, before⟩
    · obtain ⟨behind, before⟩ := forward.within visit isBefore
      exact ⟨behind, Nat.lt_of_lt_of_le before later.ordered⟩
  precedes := by
    refine List.pairwise_append.mpr ⟨later.precedes, forward.precedes, ?_⟩
    intro visit isInside earlier isBefore
    have closer : earlier.offset < visit.offset :=
      Nat.lt_of_lt_of_le (forward.within earlier isBefore).2 (later.within visit isInside).1
    exact ⟨Nat.le_of_lt closer, fun _ => closer⟩

/-- Nothing more is visited up to a later place. -/
theorem extend (forward : Forward first middle visits) (later : middle ≤ last) :
    Forward first last visits :=
  forward.append (.nil later)

/-- A visit to the place where the others start. -/
theorem enter {production : Production} (forward : Forward position.offset last inside)
    (someRead : position.offset < last) (notPrimary : production ≠ .primary) :
    Forward position.offset last
      (inside ++ [{ production := production, position := position }]) where
  ordered := forward.ordered
  within := by
    intro visit isVisit
    rcases List.mem_append.mp isVisit with isInside | isFirst
    · exact forward.within visit isInside
    · obtain rfl := List.mem_singleton.mp isFirst
      exact ⟨Nat.le_refl _, someRead⟩
  precedes := by
    refine List.pairwise_append.mpr ⟨forward.precedes, List.pairwise_singleton _ _, ?_⟩
    intro visit isInside earlier isFirst
    obtain rfl := List.mem_singleton.mp isFirst
    exact ⟨(forward.within visit isInside).1, fun isPrimary => absurd isPrimary notPrimary⟩

theorem primary (position : Position) :
    Forward position.offset (position.offset + 1) [{ production := .primary, position }] where
  ordered := Nat.le_succ _
  within := by
    intro visit isVisit
    obtain rfl := List.mem_singleton.mp isVisit
    exact ⟨Nat.le_refl _, Nat.lt_succ_self _⟩
  precedes := List.pairwise_singleton _ _

end Forward

/-! ### Readings -/

def Cursor.ending (cursor : Cursor) : Nat :=
  cursor.position.offset + cursor.remaining

namespace Cursor

variable {cursor next : Cursor}

theorem ending_of_advance {character : Char} (advanced : cursor.advance = some (character, next)) :
    next.ending = cursor.ending ∧ next.position.offset = cursor.position.offset + 1 := by
  rcases cursor with ⟨_ | ⟨first, rest⟩, position⟩
  · cases advanced
  · cases advanced
    refine ⟨?_, rfl⟩
    simp only [ending, remaining, Position.next, List.length_cons]
    omega

theorem ending_of_eat {expected : Char} (eaten : cursor.eat expected = some next) :
    next.ending = cursor.ending ∧ next.position.offset = cursor.position.offset + 1 :=
  ending_of_advance (advance_of_eat eaten)

theorem offset_le_ending (cursor : Cursor) : cursor.position.offset ≤ cursor.ending :=
  Nat.le_add_right _ _

theorem offset_lt_of_remaining_lt (sameText : next.ending = cursor.ending)
    (closer : next.remaining < cursor.remaining) :
    cursor.position.offset < next.position.offset := by
  unfold ending at sameText
  omega

end Cursor

/-- What was read was visited forward, up to the place behind the text in case of a failure. -/
def Reading.GoesForward {start : Cursor} : Reading start → Prop
  | .failed _ visits => Forward start.position.offset (start.ending + 1) visits
  | .read _ visits next _ =>
      next.ending = start.ending ∧ Forward start.position.offset next.position.offset visits

def Rule.GoesForward (rule : Rule) : Prop :=
  ∀ start : Cursor, (rule start).GoesForward

variable {start here : Cursor} {visits : List Visit} {closer : here.remaining < start.remaining}

theorem Forward.to_end (forward : Forward start.position.offset here.position.offset visits)
    (sameText : here.ending = start.ending) :
    Forward start.position.offset (start.ending + 1) visits := by
  apply forward.extend
  rw [← sameText]
  exact Nat.le_succ_of_le here.offset_le_ending

theorem primary_goesForward (alphabet : Alphabet) {group : Position → Rule}
    (groupsForward : ∀ opened, (group opened).GoesForward) :
    (primary alphabet group).GoesForward := by
  intro start
  have visited := Forward.primary start.position
  have failed := visited.extend (Nat.succ_le_succ start.offset_le_ending)
  unfold primary
  simp only
  split
  · exact failed
  · rename_i character next advanced
    obtain ⟨sameText, nextOffset⟩ := Cursor.ending_of_advance advanced
    rw [← nextOffset] at visited
    by_cases isOpening : character = '('
    · rw [if_pos isOpening]
      have forward := groupsForward start.position next
      split
      · rename_i error inside read
        rw [read, Reading.GoesForward, sameText] at forward
        exact visited.append forward
      · rename_i subtree inside behind shorter read
        rw [read] at forward
        exact ⟨forward.1.trans sameText, visited.append forward.2⟩
    · rw [if_neg isOpening]
      split
      · exact ⟨sameText, visited⟩
      · split
        · exact ⟨sameText, visited⟩
        · exact failed

theorem stars_goesForward {subtree : Subtree} (sameText : here.ending = start.ending)
    (forward : Forward start.position.offset here.position.offset visits) :
    (stars subtree visits here closer).GoesForward := by
  fun_induction stars subtree visits here closer with
  | case1 => exact ⟨sameText, forward⟩
  | case2 => exact forward.to_end sameText
  | case3 subtree here closer next eaten height deeper shorter inductionHypothesis =>
      obtain ⟨sameBehind, nextOffset⟩ := Cursor.ending_of_eat eaten
      apply inductionHypothesis (sameBehind.trans sameText)
      rw [nextOffset]
      exact forward.extend (Nat.le_succ _)

theorem repeated_goesForward {part : Rule} (partsForward : part.GoesForward) :
    (repeated part).GoesForward := by
  intro start
  have forward := partsForward start
  unfold repeated
  split
  · rename_i error visits read
    rwa [read] at forward
  · rename_i subtree visits next closer read
    rw [read] at forward
    exact stars_goesForward forward.1 forward.2

/-! ### Chains -/

structure ChainOperator.GoesForward (operator : ChainOperator) : Prop where
  follow : ∀ {here : Cursor} {there}, operator.follow here = some there →
    there.1.ending = here.ending ∧ here.position.offset ≤ there.1.position.offset
  notPrimary : operator.production ≠ .primary

theorem concatenation_goesForward : concatenation.GoesForward where
  follow := by
    intro here there goesOn
    simp only [concatenation] at goesOn
    split at goesOn
    · cases goesOn
    · split at goesOn
      · cases goesOn
      · cases goesOn
        exact ⟨rfl, Nat.le_refl _⟩
  notPrimary := by decide

theorem alternation_goesForward : alternation.GoesForward where
  follow := by
    intro here there goesOn
    simp only [alternation] at goesOn
    split at goesOn
    · cases goesOn
    · rename_i next eaten
      cases goesOn
      obtain ⟨sameText, nextOffset⟩ := Cursor.ending_of_eat eaten
      rw [nextOffset]
      exact ⟨sameText, Nat.le_succ _⟩
  notPrimary := by decide

variable {operator : ChainOperator} {operand : Rule}

theorem operandsFrom_goesForward (operatorForward : operator.GoesForward)
    (operandsForward : operand.GoesForward) {operands : List Subtree}
    (sameText : here.ending = start.ending)
    (forward : Forward start.position.offset here.position.offset visits) :
    (operandsFrom operator operand operands visits here closer).GoesForward := by
  fun_induction operandsFrom operator operand operands visits here closer with
  | case1 => exact forward.to_end sameText
  | case2 => exact ⟨sameText, forward⟩
  | case3 operands visits here closer there notFarther goesOn error inside read =>
      obtain ⟨sameThere, between⟩ := operatorForward.follow goesOn
      have later := operandsForward there
      rw [read, Reading.GoesForward, sameThere, sameText] at later
      exact (forward.extend between).append later
  | case4 operands visits here closer there notFarther goesOn subtree inside next shorter read
      nextCloser inductionHypothesis =>
      obtain ⟨sameThere, between⟩ := operatorForward.follow goesOn
      have later := operandsForward there
      rw [read] at later
      exact inductionHypothesis ((later.1.trans sameThere).trans sameText)
        ((forward.extend between).append later.2)

theorem chain_goesForward (operatorForward : operator.GoesForward)
    (operandsForward : operand.GoesForward) : (chain operator operand).GoesForward := by
  intro start
  have forward := operandsForward start
  unfold chain
  simp only
  split
  · rename_i error inside read
    rw [read] at forward
    exact forward.enter (Nat.lt_succ_of_le start.offset_le_ending) operatorForward.notPrimary
  · rename_i subtree inside next closer read
    rw [read] at forward
    obtain ⟨sameText, forward⟩ := forward
    exact operandsFrom_goesForward operatorForward operandsForward sameText
      (forward.enter (Cursor.offset_lt_of_remaining_lt sameText closer) operatorForward.notPrimary)

theorem union_goesForward (alphabet : Alphabet) {group : Position → Rule}
    (groupsForward : ∀ opened, (group opened).GoesForward) :
    (union alphabet group).GoesForward :=
  chain_goesForward alternation_goesForward (chain_goesForward concatenation_goesForward
    (repeated_goesForward (primary_goesForward alphabet groupsForward)))

/-! ### Groups and whole texts -/

theorem closeGroup_goesForward {opened : Position} {reading : Reading start}
    (forward : reading.GoesForward) : (closeGroup opened reading).GoesForward := by
  unfold closeGroup
  split
  · exact forward
  · split
    · exact forward.2.to_end forward.1
    · rename_i next eaten
      obtain ⟨sameText, nextOffset⟩ := Cursor.ending_of_eat eaten
      refine ⟨sameText.trans forward.1, ?_⟩
      rw [nextOffset]
      exact forward.2.extend (Nat.le_succ _)

theorem group_goesForward (alphabet : Alphabet) (room : Nat) :
    ∀ opened, (group alphabet room opened).GoesForward := by
  induction room with
  | zero =>
      intro opened start
      exact .nil (Nat.le_succ_of_le start.offset_le_ending)
  | succ room inductionHypothesis =>
      intro opened start
      exact closeGroup_goesForward (union_goesForward alphabet inductionHypothesis start)

variable (alphabet : Alphabet) (text : List Char)

/-- No visit is made behind the end of the text. -/
theorem parsing_forward : Forward 0 (text.length + 1) (parsing alphabet text).visits.reverse := by
  have forward := union_goesForward alphabet (group_goesForward alphabet depthLimit)
    (Cursor.ofList text)
  have atEnd : (Cursor.ofList text).ending = text.length := Nat.zero_add _
  unfold parsing Parsing.ofReading
  split
  · rename_i error visits read
    rw [read, Reading.GoesForward, atEnd] at forward
    rwa [List.reverse_reverse]
  · rename_i subtree visits next closer read
    rw [read] at forward
    rw [← atEnd, List.reverse_reverse]
    exact forward.2.to_end forward.1

def primaryPlaces (visits : List Visit) : List Nat :=
  (visits.filter fun visit => visit.production = .primary).map Visit.offset

theorem visits_precede : (parsing alphabet text).visits.Pairwise Visit.Precedes :=
  List.pairwise_reverse.mp (parsing_forward alphabet text).precedes

theorem primaryPlaces_increase :
    (primaryPlaces (parsing alphabet text).visits).Pairwise (· < ·) := by
  rw [primaryPlaces, List.pairwise_map, List.pairwise_filter]
  refine (visits_precede alphabet text).imp ?_
  intro earlier later precedes isPrimary _
  exact precedes.primary (of_decide_eq_true isPrimary)

/-- There are no more primaries than characters, but for one at the end. -/
theorem length_primaryPlaces_le :
    (primaryPlaces (parsing alphabet text).visits).length ≤ text.length + 1 := by
  have distinct := (primaryPlaces_increase alphabet text).imp fun before => Nat.ne_of_lt before
  have within : primaryPlaces (parsing alphabet text).visits ⊆ List.range (text.length + 1) := by
    intro place isPlace
    obtain ⟨visit, isPrimary, rfl⟩ := List.mem_map.mp isPlace
    have isVisit := List.mem_reverse.mpr (List.mem_of_mem_filter isPrimary)
    exact List.mem_range.mpr ((parsing_forward alphabet text).within visit isVisit).2
  have fewer := (List.subperm_of_subset distinct within).length_le
  rwa [List.length_range] at fewer

end RegularWords.Grammar
