import RegularWords.Proofs.Cut
import RegularWords.Proofs.Finishing
import RegularWords.Proofs.Visits

/-!
What the enumeration of a node never reaches.

An alternative is lost if no number of calls starts it, a word of a factor if no wheel for the
factor ever gives it, and the second level of a repetition if the words of the first never become
its frontier.  Each loss shows in an invariant: behind an endless walk nothing moves.  What is not
lost is reached, because the walks in its way come to their end.
-/

namespace RegularWords

/-! ### Losses -/

/-- The wheel at a place has given the part of an index.  Places count factors from the left, and
both places and indexes count from zero. -/
def Recorded.Shows (state : Recorded) (place index : Nat) : Prop :=
  ∃ parts, state.given.reverse[place]? = some parts ∧ index < parts.length

/-- A choice that has started every alternative but some of the last ones. -/
def Walk.HasStarted (later : List Expr) (walk : Walk) : Prop :=
  ∃ current pending, walk = .choice current pending ∧ pending.length ≤ later.length

def Walk.ExtendsFirstLevel (walk : Walk) : Prop :=
  ∃ inner levels growth, walk = .repetition inner levels growth ∧ levels.number = 1

namespace Expr

/-- A factor has a word of some index that no wheel for the factor ever gives. -/
def LosesPart (factors : List Expr) : Prop :=
  ∃ earlier factor later, factors = earlier ++ factor :: later ∧
    ∃ index, (factor.words.after index).next.1 ≠ none ∧
      ∀ state, (Expr.concat factors).words.Visits state → ¬ state.Shows earlier.length index

def LosesAlternative (alternatives : List Expr) : Prop :=
  ∃ earlier alternative later, alternatives = earlier ++ alternative :: later ∧
    ∀ state, (Expr.union alternatives).words.Visits state → ¬ state.walk.HasStarted later

def LosesLevel (inner : Expr) : Prop :=
  ∀ state, (Expr.star inner).words.Visits state → ¬ state.walk.ExtendsFirstLevel

def Loses : Expr → Prop
  | .literal _ => False
  | .empty => False
  | .concat factors => LosesPart factors
  | .union alternatives => LosesAlternative alternatives
  | .star inner => LosesLevel inner

end Expr

namespace Recorded

open Walk

/-! ### Alternatives -/

/-- Where a choice stands that never gets past an endless alternative. -/
inductive StaysBefore (endless : Expr) (behind : List Expr) : Recorded → Prop where
  | toCome {current : Option Walk} {given : List (List Word)} (before : List Expr) :
      StaysBefore endless behind
        { walk := .choice current (before ++ endless :: behind), given := given }
  | atWork {current : Walk} {given : List (List Word)} (noEnd : current.Endless) :
      StaysBefore endless behind { walk := .choice (some current) behind, given := given }

theorem staysBefore_step {endless : Expr} {behind : List Expr} {state : Recorded}
    (noEnd : (start endless).Endless) (stays : StaysBefore endless behind state) :
    StaysBefore endless behind state.step := by
  cases stays with
  | @toCome current given before =>
      cases current with
      | none =>
          cases before with
          | nil => exact .atWork noEnd
          | cons first before => exact .toCome before
      | some current =>
          rcases current.step_cases with
            ⟨word, next, stepped⟩ | ⟨next, stepped⟩ | ⟨event, next, stepped, quiet⟩
          · rw [step_choice (step_choice_word stepped)]
            exact .toCome before
          · cases before with
            | nil =>
                rw [List.nil_append, step_choice (step_choice_next stepped endless)]
                exact .atWork noEnd
            | cons first before =>
                rw [List.cons_append, step_choice (step_choice_next stepped first)]
                exact .toCome before
          · rw [step_choice (step_choice_quiet stepped quiet)]
            exact .toCome before
  | @atWork current given noEnd =>
      rcases noEnd.step_cases with
        ⟨word, next, stepped, nextNoEnd⟩ | ⟨event, next, stepped, quiet, nextNoEnd⟩
      · rw [step_choice (step_choice_word stepped)]
        exact .atWork nextNoEnd
      · rw [step_choice (step_choice_quiet stepped quiet)]
        exact .atWork nextNoEnd

theorem not_hasStarted_of_staysBefore {endless next : Expr} {later : List Expr} {state : Recorded}
    (stays : StaysBefore endless (next :: later) state) : ¬ state.walk.HasStarted later := by
  rintro ⟨current, pending, atChoice, few⟩
  cases stays with
  | toCome before =>
      obtain ⟨_, rfl⟩ := Walk.choice.inj atChoice
      simp only [List.length_append, List.length_cons] at few
      omega
  | atWork noEnd =>
      obtain ⟨_, rfl⟩ := Walk.choice.inj atChoice
      rw [List.length_cons] at few
      omega

theorem leads_hasStarted_of_finishes {current : Walk} {earlier later : List Expr}
    {alternative : Expr} (finishes : current.Finishes) (finite : Expr.areFinite earlier = true)
    (given : List (List Word)) :
    Leads (fun state => state.walk.HasStarted later)
      { walk := .choice (some current) (earlier ++ alternative :: later), given } := by
  induction earlier generalizing current with
  | nil =>
      apply leads_choice_next finishes
      exact .here ⟨some (start alternative), later, rfl, Nat.le_refl _⟩
  | cons first earlier inductionHypothesis =>
      rw [Expr.areFinite, Bool.and_eq_true] at finite
      exact leads_choice_next finishes (inductionHypothesis (finishes_start finite.1) finite.2)

/-- Alternatives without repetitions come to their end, so the one behind them is started. -/
theorem leads_hasStarted {earlier later : List Expr} {alternative : Expr}
    (finite : Expr.areFinite earlier = true) (given : List (List Word)) :
    Leads (fun state => state.walk.HasStarted later)
      { walk := .choice none (earlier ++ alternative :: later), given } := by
  cases earlier with
  | nil => exact .later (.here ⟨some (start alternative), later, rfl, Nat.le_refl _⟩)
  | cons first earlier =>
      rw [Expr.areFinite, Bool.and_eq_true] at finite
      exact .later (leads_hasStarted_of_finishes (finishes_start finite.1) finite.2 given)

/-! ### Levels -/

/-- Where a repetition of an endless inside stands: the empty word is the only stem. -/
inductive StaysOnFirst (inner : Expr) : Recorded → Prop where
  | toStart {given : List (List Word)} :
      StaysOnFirst inner { walk := .unrepeated inner, given := given }
  | toGrow {given : List (List Word)} :
      StaysOnFirst inner { walk := .repetition inner .first none, given := given }
  | atWork {levels : Levels} {stem : Word} {cursor : Walk} {given : List (List Word)}
      (first : levels.number = 0) (noEnd : cursor.Endless) :
      StaysOnFirst inner
        { walk := .repetition inner levels (some { stem, cursor }), given := given }

theorem staysOnFirst_step {inner : Expr} {state : Recorded} (noEnd : (start inner).Endless)
    (stays : StaysOnFirst inner state) : StaysOnFirst inner state.step := by
  cases stays with
  | toStart => exact .toGrow
  | toGrow => exact .atWork rfl noEnd
  | @atWork levels stem cursor given first noEnd =>
      rcases noEnd.step_cases with
        ⟨suffix, next, stepped, nextNoEnd⟩ | ⟨event, next, stepped, quiet, nextNoEnd⟩
      · rw [step_repetition (step_repetition_word stepped)]
        exact .atWork first nextNoEnd
      · rw [step_repetition (step_repetition_quiet stepped quiet)]
        exact .atWork first nextNoEnd

theorem not_extendsFirstLevel_of_staysOnFirst {inner : Expr} {state : Recorded}
    (stays : StaysOnFirst inner state) : ¬ state.walk.ExtendsFirstLevel := by
  rintro ⟨_, levels, growth, atLevels, isFirst⟩
  cases stays with
  | toStart => cases atLevels
  | toGrow =>
      obtain ⟨_, rfl, _⟩ := Walk.repetition.inj atLevels
      cases isFirst
  | atWork first noEnd =>
      obtain ⟨_, rfl, _⟩ := Walk.repetition.inj atLevels
      omega

/-- When the last stem is extended, the words found become the frontier. -/
theorem leads_advance {inner : Expr} {levels : Levels} {given : List (List Word)}
    (first : levels.number = 0) (last : levels.frontier.size = levels.index + 1)
    (someFound : levels.found.isEmpty = false) :
    Leads (fun state => state.walk.ExtendsFirstLevel)
      { walk := .repetition inner levels.turn none, given := given } := by
  have through : levels.turn.frontier[levels.turn.index]? = none :=
    Array.getElem?_eq_none_iff.mpr (Nat.le_of_eq last)
  apply Leads.later
  rw [step_repetition (step_repetition_level through someFound)]
  exact .here ⟨inner, levels.turn.advance, none, rfl, congrArg (· + 1) first⟩

/-- Level one is complete when the walk through the inside has come to its end. -/
theorem leads_extendsFirstLevel {inner : Expr} {levels : Levels} {stem : Word} {cursor : Walk}
    {given : List (List Word)} (finishes : cursor.Finishes) (fruitful : cursor.Fruitful)
    (first : levels.number = 0) (last : levels.frontier.size = levels.index + 1)
    (someWord : cursor.remaining ≠ .nil ∨ levels.found.isEmpty = false) :
    Leads (fun state => state.walk.ExtendsFirstLevel)
      { walk := .repetition inner levels (some { stem, cursor }), given := given } := by
  induction finishes using Finishes.induction generalizing levels with
  | exhausted stepped =>
      have someFound := someWord.resolve_left fun toCome => toCome (fruitful.exhausted stepped)
      apply Leads.later
      rw [step_repetition (step_repetition_exhausted stepped)]
      exact leads_advance first last someFound
  | word _ _ stepped inductionHypothesis =>
      apply Leads.later
      rw [step_repetition (step_repetition_word stepped)]
      exact inductionHypothesis (fruitful.word stepped).2 first last
        (.inr (by simp [Levels.record]))
  | quiet _ _ stepped quiet inductionHypothesis =>
      obtain ⟨same, nextFruitful⟩ := fruitful.quiet stepped quiet
      rw [← same] at someWord
      apply Leads.later
      rw [step_repetition (step_repetition_quiet stepped quiet)]
      exact inductionHypothesis nextFruitful first last someWord

theorem leads_extendsFirstLevel_of_fresh {inner : Expr} (nonempty : inner.unionsNonempty = true)
    (finite : inner.isFinite = true) :
    Leads (fun state => state.walk.ExtendsFirstLevel) (fresh (Expr.star inner).words.walk) := by
  have someWord := remaining_start_ne_nil nonempty
  -- The empty word and its growth take a step each.
  refine .later (.later ?_)
  exact leads_extendsFirstLevel (finishes_start finite) (fruitful_start nonempty) rfl rfl
    (.inl someWord)

end Recorded

end RegularWords
