import RegularWords.Proofs.Termination

/-!
Enumerations put together from others.

What an enumeration does between its calls does not matter to one around it.  If every call on the
inside of a repetition ends and the first one gives a word, every call on the repetition ends,
whatever the unions inside it are.
-/

namespace RegularWords

open Stream' (Seq)

theorem Walk.Settles.of_quiet {walk next : Walk} {event : Event} (settles : walk.Settles)
    (stepped : walk.step = (event, next)) (quiet : event.Quiet) : next.Settles := by
  cases settles with
  | word isWord =>
      cases stepped.symm.trans isWord
      cases quiet
  | exhausted isEnd =>
      cases stepped.symm.trans isEnd
      cases quiet
  | working goesOn later =>
      cases stepped.symm.trans goesOn
      exact later
  | levelStarted goesOn later =>
      cases stepped.symm.trans goesOn
      exact later

namespace Words

def Lively (words : Words) : Prop :=
  ∀ number, (words.after number).Returns

section Step

variable {walk next : Walk}

theorem Returns.settles {words : Words} (returns : words.Returns) : words.walk.Settles := by
  obtain ⟨pull, ends⟩ := returns
  exact ends.settles

theorem Lively.settles (lively : Lively { walk }) : walk.Settles :=
  Returns.settles (lively 0)

/-- A step that gives no word is one that the next call has to take. -/
theorem next_of_quiet {event : Event} (stepped : walk.step = (event, next)) (quiet : event.Quiet)
    (settles : next.Settles) : Words.next { walk } = Words.next { walk := next } := by
  obtain ⟨word, last, ends⟩ := settles.exists_outcome
  obtain ⟨noted, goesOn⟩ := Pulling.exists_advance_of_quiet stepped quiet []
  obtain ⟨_, endsBehind⟩ := ends noted
  obtain ⟨_, endsHere⟩ := ends []
  rw [next_of_ends (.later goesOn endsBehind), next_of_ends endsHere]

theorem Lively.step (lively : Lively { walk }) : Lively { walk := walk.step.2 } := by
  rcases walk.step_cases with
    ⟨word, next, stepped⟩ | ⟨next, stepped⟩ | ⟨event, next, stepped, quiet⟩
  · rw [stepped]
    intro number
    have later := lively (number + 1)
    rwa [after, next_of_ends (.now (Pulling.advance_of_word stepped []))] at later
  · rwa [stepped, Walk.eq_of_exhausted stepped]
  · have settles := lively.settles.of_quiet stepped quiet
    rw [stepped]
    intro number
    cases number with
    | zero => exact settles.exists_ends []
    | succ number =>
        have later := lively (number + 1)
        rwa [after, next_of_quiet stepped quiet settles] at later

end Step

/-! ### The words of enumerations whose calls end -/

theorem hereditary_true : Hereditary fun _ => True where
  concat := fun _ _ _ => trivial
  union := fun _ _ _ => trivial
  star := fun _ => trivial

/-- As long as calls end, they give the words to come. -/
theorem call_eq_get?_remaining {words : Words} (sound : words.walk.Sound fun _ => True)
    {number : Nat} (returns : ∀ index ≤ number, (words.after index).Returns) :
    (words.after number).next.1 = words.walk.remaining.get? number := by
  induction number generalizing words with
  | zero =>
      have first : words.Returns := returns 0 (Nat.le_refl 0)
      exact (pull_finds hereditary_true first.settles sound).2.word
  | succ number inductionHypothesis =>
      have first : words.Returns := returns 0 (Nat.zero_le _)
      obtain ⟨_, finds⟩ := pull_finds hereditary_true first.settles sound
      have remaining : words.next.2.walk.remaining = words.walk.remaining.tail := finds.remaining
      have later : ∀ index ≤ number, (words.next.2.after index).Returns :=
        fun index within => returns (index + 1) (Nat.succ_le_succ within)
      rw [after, inductionHypothesis finds.sound later, remaining, Seq.get?_tail]

theorem call_eq_get?_listing {expr : Expr} {number : Nat}
    (returns : ∀ index ≤ number, (expr.words.after index).Returns) :
    (expr.words.after number).next.1 = expr.listing.get? number := by
  rw [← Walk.remaining_start expr]
  exact call_eq_get?_remaining (Walk.sound_start hereditary_true expr trivial) returns

end Words

/-! ### Repetitions -/

structure Expr.Able (expr : Expr) : Prop where
  lively : expr.words.Lively
  someWord : expr.words.next.1 ≠ none

theorem Expr.Able.shows {expr : Expr} (able : expr.Able) : (Walk.start expr).Shows := by
  have returns : expr.words.Returns := able.lively 0
  obtain ⟨pull, ends, nextEq⟩ := returns.exists_next
  have someWord := able.someWord
  rw [nextEq] at someWord
  refine ends.word_induction (motive := fun walk _ => walk.Shows) ?_ ?_ someWord
  · intro walk next word stepped
    exact .word stepped
  · intro walk next last event stepped quiet inductionHypothesis
    exact .quiet stepped quiet inductionHypothesis

namespace Walk

/-- A repetition of an able expression, and the walk at work in it is lively. -/
inductive Tended : Walk → Prop where
  | unrepeated {inner : Expr} (able : inner.Able) : Tended (.unrepeated inner)
  | between {inner : Expr} {levels : Levels} (able : inner.Able) :
      Tended (.repetition inner levels none)
  | growing {inner : Expr} {levels : Levels} {stem : Word} {cursor : Walk} (able : inner.Able)
      (lively : Words.Lively { walk := cursor }) :
      Tended (.repetition inner levels (some { stem, cursor }))

theorem Tended.settles {walk : Walk} (tended : walk.Tended) : walk.Settles := by
  cases tended with
  | unrepeated able => exact .word (by rw [step])
  | between able => exact settles_repetition_none able.shows
  | growing able lively => exact settles_growth lively.settles (settles_repetition_none able.shows)

theorem tended_step_between {inner : Expr} {levels : Levels} (able : inner.Able) :
    (repetition inner levels none).step.2.Tended := by
  cases atIndex : levels.frontier[levels.index]? with
  | some stem =>
      rw [step_repetition_stem atIndex]
      exact .growing able able.lively
  | none =>
      cases noneFound : levels.found.isEmpty with
      | true =>
          rw [step_repetition_end atIndex noneFound]
          exact .between able
      | false =>
          rw [step_repetition_level atIndex noneFound]
          exact .between able

theorem tended_step_growing {inner : Expr} {levels : Levels} {stem : Word} {cursor : Walk}
    (able : inner.Able) (lively : Words.Lively { walk := cursor }) :
    (repetition inner levels (some { stem, cursor })).step.2.Tended := by
  have nextLively : Words.Lively { walk := cursor.step.2 } := lively.step
  rcases cursor.step_cases with
    ⟨suffix, next, stepped⟩ | ⟨next, stepped⟩ | ⟨event, next, stepped, quiet⟩
  · rw [stepped] at nextLively
    rw [step_repetition_word stepped]
    exact .growing able nextLively
  · rw [step_repetition_exhausted stepped]
    exact .between able
  · rw [stepped] at nextLively
    rw [step_repetition_quiet stepped quiet]
    exact .growing able nextLively

theorem keeping_tended : Keeping Tended where
  settles := Tended.settles
  step := by
    intro walk tended
    cases tended with
    | unrepeated able =>
        rw [step]
        exact .between able
    | between able => exact tended_step_between able
    | growing able lively => exact tended_step_growing able lively

end Walk

theorem Words.lively_star {inner : Expr} (able : inner.Able) : (Expr.star inner).words.Lively :=
  Walk.keeping_tended.returns (.unrepeated able)

end RegularWords
