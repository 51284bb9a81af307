import RegularWords.Proofs.Stalling

/-!
The analysis of starvation finds exactly the nodes that lose something.

Each operator has its own loss, and the analysis tells it from how many words the operands have.  A
known count is the number of words and an unknown one is never one, so counting from the left within
a limit makes no difference.
-/

namespace RegularWords

open Stream' (Seq)

namespace Expr

/-! ### Operands with other than one word -/

/-- An operand whose count is not one has a second word. -/
theorem get?_one_ne_none {expr : Expr} (nonempty : expr.unionsNonempty = true)
    (several : expr.count? ≠ some 1) : expr.listing.get? 1 ≠ none := by
  by_cases finite : expr.isFinite = true
  · have someWord := List.length_pos_of_ne_nil (wordList_ne_nil nonempty finite)
    have notOne : expr.wordList.length ≠ 1 := by
      intro single
      apply several
      rw [count?_eq_length nonempty finite (by rw [single]; decide), single]
    rw [listing_eq_ofList finite, Seq.ofList_get?, ne_eq, List.getElem?_eq_none_iff]
    omega
  · have noEnd := endless_listing nonempty (Bool.eq_false_iff.mpr finite)
    rw [Seq.not_terminates_iff] at noEnd
    exact Option.isSome_iff_ne_none.mp (noEnd 1)

theorem eq_zero_of_get?_ne_none {expr : Expr} (single : expr.count? = some 1) {index : Nat}
    (someWord : expr.listing.get? index ≠ none) : index = 0 := by
  obtain ⟨word, only⟩ := exists_listing_eq_single single
  cases index with
  | zero => rfl
  | succ index =>
      rw [only, Listing.single, Seq.get?_cons_succ, Seq.get?_nil] at someWord
      exact absurd rfl someWord

/-! ### Where the analysis looks -/

theorem exists_of_stalls {factors : List Expr} (stalled : stalls factors = true) :
    ∃ earlier factor middle endless later,
      factors = earlier ++ factor :: middle ++ endless :: later ∧
        factor.count? ≠ some 1 ∧ endless.isFinite = false := by
  induction factors with
  | nil => cases stalled
  | cons factor factors inductionHypothesis =>
      rw [stalls_cons] at stalled
      split at stalled
      · obtain ⟨earlier, other, middle, endless, later, rfl, several, infinite⟩ :=
          inductionHypothesis stalled
        exact ⟨factor :: earlier, other, middle, endless, later, rfl, several, infinite⟩
      · rename_i several
        rw [areFinite_eq_all, List.not_all_eq_any_not, List.any_eq_true] at stalled
        obtain ⟨endless, isLater, infinite⟩ := stalled
        rw [Bool.not_eq_true'] at infinite
        obtain ⟨middle, later, rfl⟩ := List.append_of_mem isLater
        exact ⟨[], factor, middle, endless, later, rfl, several, infinite⟩

theorem of_stalls_eq_false {earlier later : List Expr} {factor : Expr}
    (goesOn : stalls (earlier ++ factor :: later) = false) :
    factor.count? = some 1 ∨ areFinite later = true := by
  induction earlier with
  | nil => exact (stalls_cons_eq_false goesOn).2
  | cons first earlier inductionHypothesis =>
      exact inductionHypothesis (stalls_cons_eq_false goesOn).1

theorem exists_of_hides {alternatives : List Expr} (hidden : hides alternatives = true) :
    ∃ earlier endless next later, alternatives = earlier ++ endless :: next :: later ∧
      endless.isFinite = false := by
  induction alternatives with
  | nil => cases hidden
  | cons alternative alternatives inductionHypothesis =>
      rw [hides_cons] at hidden
      split at hidden
      · obtain ⟨earlier, endless, next, later, rfl, infinite⟩ := inductionHypothesis hidden
        exact ⟨alternative :: earlier, endless, next, later, rfl, infinite⟩
      · rename_i infinite
        cases alternatives with
        | nil => cases hidden
        | cons next later =>
            exact ⟨[], alternative, next, later, rfl, Bool.eq_false_iff.mpr infinite⟩

theorem of_hides_eq_false {earlier later : List Expr} {alternative : Expr}
    (shows : hides (earlier ++ alternative :: later) = false) : areFinite earlier = true := by
  induction earlier with
  | nil => rw [areFinite]
  | cons first earlier inductionHypothesis =>
      cases earlier with
      | nil =>
          rw [areFinite, areFinite, (hides_cons_eq_false shows).1, Bool.and_true]
      | cons second earlier =>
          obtain ⟨finite, shows⟩ := hides_cons_eq_false shows
          rw [areFinite, finite, inductionHypothesis shows, Bool.and_true]

/-! ### The losses of a node -/

theorem returns_of_nonempty {expr : Expr} (nonempty : expr.unionsNonempty = true)
    (number : Nat) : (expr.words.after number).Returns :=
  ((Words.lists_words nonempty).call number).1

theorem losesAlternative_iff {alternatives : List Expr}
    (nonempty : (Expr.union alternatives).unionsNonempty = true) :
    LosesAlternative alternatives ↔ hides alternatives = true := by
  have operands := hereditary_unionsNonempty.union nonempty
  constructor
  · rintro ⟨earlier, alternative, later, rfl, neverStarted⟩
    by_contra shows
    have finite := of_hides_eq_false (Bool.eq_false_iff.mpr shows)
    obtain ⟨state, visits, started⟩ := Words.exists_visits (returns_of_nonempty nonempty)
      (Recorded.leads_hasStarted finite [])
    exact neverStarted state visits started
  · intro hidden
    obtain ⟨earlier, endless, next, later, rfl, infinite⟩ := exists_of_hides hidden
    have noEnd := Walk.endless_start (operands endless (by simp)) infinite
    refine ⟨earlier ++ [endless], next, later, by simp, ?_⟩
    intro state visits started
    have stays := visits.induction (motive := Recorded.StaysBefore endless (next :: later))
      (.toCome earlier) fun _ => Recorded.staysBefore_step noEnd
    exact Recorded.not_hasStarted_of_staysBefore stays started

theorem losesLevel_iff {inner : Expr} (nonempty : (Expr.star inner).unionsNonempty = true) :
    LosesLevel inner ↔ inner.isFinite = false := by
  have innerNonempty := hereditary_unionsNonempty.star nonempty
  constructor
  · intro neverReached
    by_contra notInfinite
    have finite := Bool.eq_true_of_not_eq_false notInfinite
    obtain ⟨state, visits, reached⟩ := Words.exists_visits (returns_of_nonempty nonempty)
      (Recorded.leads_extendsFirstLevel_of_fresh innerNonempty finite)
    exact neverReached state visits reached
  · intro infinite state visits reached
    have noEnd := Walk.endless_start innerNonempty infinite
    have stays := visits.induction (motive := Recorded.StaysOnFirst inner) .toStart
      fun _ => Recorded.staysOnFirst_step noEnd
    exact Recorded.not_extendsFirstLevel_of_staysOnFirst stays reached

theorem losesPart_iff {factors : List Expr}
    (nonempty : (Expr.concat factors).unionsNonempty = true) :
    LosesPart factors ↔ stalls factors = true := by
  have operands := hereditary_unionsNonempty.concat nonempty
  constructor
  · rintro ⟨earlier, factor, later, rfl, index, someWord, neverShown⟩
    by_contra goesOn
    have through := of_stalls_eq_false (Bool.eq_false_iff.mpr goesOn)
    have factorNonempty := operands factor (by simp)
    rw [((Words.lists_words factorNonempty).call index).2] at someWord
    have finish : index = 0 ∨ ∀ operand ∈ later, (Walk.start operand).Finishes :=
      through.imp (fun single => eq_zero_of_get?_ne_none single someWord) Walk.finishes_starts
    obtain ⟨state, visits, shows⟩ := Words.exists_visits (returns_of_nonempty nonempty)
      (Recorded.leads_shows_of_fresh operands someWord finish)
    exact neverShown state visits shows
  · intro stalled
    obtain ⟨earlier, factor, middle, endless, later, rfl, several, infinite⟩ :=
      exists_of_stalls stalled
    have factorNonempty := operands factor (by simp)
    have endlessNonempty := operands endless (by simp)
    refine ⟨earlier, factor, middle ++ endless :: later, by simp, 1, ?_, ?_⟩
    · rw [((Words.lists_words factorNonempty).call 1).2]
      exact get?_one_ne_none factorNonempty several
    · intro state visits
      have stays := visits.induction
        (motive := Recorded.StaysStalled endless (earlier ++ factor :: middle).length)
        (Recorded.staysStalled_fresh (by simp) fun operand isEarlier =>
          operands operand (List.mem_append_left _ isEarlier))
        fun _ => Recorded.staysStalled_step (Walk.endless_start endlessNonempty infinite)
      exact Recorded.not_shows_of_staysStalled stays (by simp)

/-! ### All nodes -/

mutual

def preorder : Expr → List Expr
  | .literal symbol => [.literal symbol]
  | .empty => [.empty]
  | .concat factors => .concat factors :: chainPreorder factors
  | .union alternatives => .union alternatives :: chainPreorder alternatives
  | .star inner => .star inner :: preorder inner

def chainPreorder : List Expr → List Expr
  | [] => []
  | operand :: operands => preorder operand ++ chainPreorder operands

end

def ownKind? : Expr → Option StarvationKind
  | .literal _ => none
  | .empty => none
  | .concat _ => some .concatLeftStalled
  | .union _ => some .unionRightUnreachable
  | .star _ => some .starLevelUnbounded

open Classical in
/-- What is to be reported of a node: the loss of its operator, if the node loses something. -/
noncomputable def loss? (node : Expr) : Option Starvation :=
  if node.Loses then node.ownKind?.map fun kind => { kind := kind, expr := node } else none

theorem starvation?_eq {node : Expr} (nonempty : node.unionsNonempty = true) :
    (node.Loses → node.starvation? = node.ownKind?) ∧ (¬ node.Loses → node.starvation? = none) := by
  cases node with
  | literal symbol => exact ⟨fun loses => loses.elim, fun _ => rfl⟩
  | empty => exact ⟨fun loses => loses.elim, fun _ => rfl⟩
  | concat factors => simp +contextual [Loses, losesPart_iff nonempty, starvation?, ownKind?]
  | union alternatives =>
      simp +contextual [Loses, losesAlternative_iff nonempty, starvation?, ownKind?]
  | star inner => simp +contextual [Loses, losesLevel_iff nonempty, starvation?, ownKind?]

theorem rootStarvation_eq_toList {node : Expr} (nonempty : node.unionsNonempty = true) :
    node.rootStarvation = node.loss?.toList := by
  obtain ⟨reported, silent⟩ := starvation?_eq nonempty
  rw [rootStarvation, loss?]
  by_cases loses : node.Loses
  · rw [if_pos loses, reported loses]
    cases node.ownKind? <;> rfl
  · rw [if_neg loses, silent loses]
    rfl

theorem filterMap_loss?_cons {node : Expr} (nonempty : node.unionsNonempty = true)
    (nodes : List Expr) :
    (node :: nodes).filterMap loss? = node.rootStarvation ++ nodes.filterMap loss? := by
  rw [List.filterMap_cons, rootStarvation_eq_toList nonempty]
  cases node.loss? <;> rfl

mutual

theorem filterMap_preorder : ∀ {expr : Expr}, expr.unionsNonempty = true →
    expr.preorder.filterMap loss? = expr.starvations
  | .literal symbol, nonempty => by rw [preorder, filterMap_loss?_cons nonempty]; rfl
  | .empty, nonempty => by rw [preorder, filterMap_loss?_cons nonempty]; rfl
  | .concat factors, nonempty => by
      have operands := nonempty
      rw [unionsNonempty] at operands
      rw [preorder, filterMap_loss?_cons nonempty, filterMap_chainPreorder operands, starvations]
  | .union alternatives, nonempty => by
      have operands := nonempty
      rw [unionsNonempty, Bool.and_eq_true] at operands
      rw [preorder, filterMap_loss?_cons nonempty, filterMap_chainPreorder operands.2, starvations]
  | .star inner, nonempty => by
      have operand := nonempty
      rw [unionsNonempty] at operand
      rw [preorder, filterMap_loss?_cons nonempty, filterMap_preorder operand, starvations]

theorem filterMap_chainPreorder : ∀ {operands : List Expr}, allUnionsNonempty operands = true →
    (chainPreorder operands).filterMap loss? = chainStarvations operands
  | [], _ => rfl
  | operand :: operands, nonempty => by
      rw [allUnionsNonempty, Bool.and_eq_true] at nonempty
      rw [chainPreorder, List.filterMap_append, filterMap_preorder nonempty.1,
        filterMap_chainPreorder nonempty.2, chainStarvations]

end

/-- The analysis reports the nodes that lose something by themselves, and no others, with the loss
of their operator and in the order of the tree. -/
theorem starvations_report_losses {expr : Expr} (nonempty : expr.unionsNonempty = true) :
    expr.starvations = expr.preorder.filterMap loss? :=
  (filterMap_preorder nonempty).symm

/-- A loss of each kind.  The concatenation stalls its infinite first factor. -/
theorem starvations_report_losses_each_kind :
    let left := Expr.union [.star (.literal 'a'), .literal 'b']
    let right := Expr.star (.star .empty)
    let expr := Expr.concat [left, right]
    expr.unionsNonempty = true ∧
      expr.preorder.filterMap loss? =
        [{ kind := .concatLeftStalled, expr := expr },
          { kind := .unionRightUnreachable, expr := left },
          { kind := .starLevelUnbounded, expr := right }] := by
  intro left right expr
  have nonempty : expr.unionsNonempty = true := rfl
  refine ⟨nonempty, ?_⟩
  rw [← starvations_report_losses nonempty]
  decide

end Expr

end RegularWords
