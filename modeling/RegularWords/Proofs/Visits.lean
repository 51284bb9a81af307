import RegularWords.Proofs.Course
import RegularWords.Proofs.Enumeration

/-!
The states that the calls of an enumeration go through.

Every round of a call steps the walk once, and the next call goes on from there.  So what any number
of calls goes through are the states that steps lead to, provided that the calls end.
-/

namespace RegularWords

namespace Pulling

inductive EndsIn : Nat → Pulling → Pull → Prop where
  | now {pulling : Pulling} {pull : Pull} (done : pulling.advance.run = .inr pull) :
      EndsIn 1 pulling pull
  | later {rounds : Nat} {pulling next : Pulling} {pull : Pull}
      (goesOn : pulling.advance.run = .inl next) (ends : EndsIn rounds next pull) :
      EndsIn (rounds + 1) pulling pull

variable {pulling : Pulling} {pull : Pull}

theorem EndsIn.ends {rounds : Nat} (endsIn : EndsIn rounds pulling pull) : Ends pulling pull := by
  induction endsIn with
  | now done => exact .now done
  | later goesOn _ inductionHypothesis => exact .later goesOn inductionHypothesis

theorem Ends.exists_endsIn (ends : Ends pulling pull) :
    ∃ rounds, EndsIn (rounds + 1) pulling pull := by
  induction ends with
  | now done => exact ⟨0, .now done⟩
  | later goesOn _ inductionHypothesis =>
      obtain ⟨rounds, endsIn⟩ := inductionHypothesis
      exact ⟨rounds + 1, .later goesOn endsIn⟩

end Pulling

namespace Recorded

/-- A call takes the walk as many steps on as its loop has rounds. -/
theorem walk_iterate_of_endsIn {rounds : Nat} {pulling : Pulling} {pull : Pull}
    (endsIn : Pulling.EndsIn rounds pulling pull) {state : Recorded}
    (atStart : state.walk = pulling.walk) : (step^[rounds] state).walk = pull.walk := by
  induction endsIn generalizing state with
  | now done =>
      change state.walk.step.2 = _
      rw [Pulling.walk_of_done done, atStart]
  | later goesOn _ inductionHypothesis =>
      rw [Function.iterate_succ_apply]
      apply inductionHypothesis
      change state.walk.step.2 = _
      rw [Pulling.walk_of_goesOn goesOn, atStart]

/-- A call that finds a word finds it in the last round of its loop. -/
theorem exists_step_of_endsIn {rounds : Nat} {pulling : Pulling} {pull : Pull} {word : Word}
    (endsIn : Pulling.EndsIn rounds pulling pull) (found : pull.word = some word)
    {state : Recorded} (atStart : state.walk = pulling.walk) :
    ∃ steps, rounds = steps + 1 ∧ (step^[steps] state).walk.step.1 = .word word := by
  induction endsIn generalizing state with
  | @now pulling pull done =>
      refine ⟨0, rfl, ?_⟩
      change state.walk.step.1 = _
      rw [atStart]
      rcases pulling with ⟨levels, walk⟩
      rcases walk.step_cases with
        ⟨given, next, stepped⟩ | ⟨next, stepped⟩ | ⟨event, next, stepped, quiet⟩
      · rw [Pulling.advance_of_word stepped] at done
        cases done
        cases found
        rw [stepped]
      · rw [Pulling.advance_of_exhausted stepped] at done
        cases done
        cases found
      · obtain ⟨noted, goesOn⟩ := Pulling.exists_advance_of_quiet stepped quiet levels
        rw [goesOn] at done
        cases done
  | @later _ pulling next _ goesOn _ inductionHypothesis =>
      have onward : state.step.walk = next.walk := by
        change state.walk.step.2 = next.walk
        rw [Pulling.walk_of_goesOn goesOn, atStart]
      obtain ⟨steps, rfl, gives⟩ := inductionHypothesis found onward
      exact ⟨steps + 1, rfl, gives⟩

end Recorded

namespace Words

/-- A number of calls, each of which ends, and the rounds that their loops have altogether. -/
inductive Lasts : Nat → Nat → Words → Prop where
  | none {words : Words} : Lasts 0 0 words
  | call {calls rounds more : Nat} {words : Words} {pull : Pull}
      (first : Pulling.EndsIn rounds { levels := [], walk := words.walk } pull)
      (later : Lasts calls more { walk := pull.walk }) : Lasts (calls + 1) (rounds + more) words

/-- A state that an enumeration is in before, between or within its first calls, however many. -/
def Visits (words : Words) (state : Recorded) : Prop :=
  ∃ calls rounds steps, words.Lasts calls rounds ∧ steps ≤ rounds ∧
    state = Recorded.step^[steps] (.fresh words.walk)

variable {words : Words}

theorem after_succ_of_ends {pull : Pull}
    (ends : Pulling.Ends { levels := [], walk := words.walk } pull) (number : Nat) :
    words.after (number + 1) = after number { walk := pull.walk } := by
  have pullEq : words.pull = pull := Pulling.repeat_of_ends ends
  rw [← pullEq]
  rfl

/-- A word that a call gives comes with the last of the steps that the calls take. -/
theorem Lasts.exists_step {calls rounds : Nat} {word : Word}
    (lasts : words.Lasts (calls + 1) rounds) (gives : (words.after calls).next.1 = some word)
    {state : Recorded} (atStart : state.walk = words.walk) :
    ∃ steps, rounds = steps + 1 ∧ (Recorded.step^[steps] state).walk.step.1 = .word word := by
  induction calls generalizing words state rounds with
  | zero =>
      cases lasts with
      | call first later =>
          cases later with
          | none =>
              have nextEq := next_of_ends first.ends
              refine Recorded.exists_step_of_endsIn first ?_ atStart
              exact (congrArg Prod.fst nextEq).symm.trans gives
  | succ calls inductionHypothesis =>
      cases lasts with
      | @call _ rounds more _ pull first later =>
          rw [after_succ_of_ends first.ends] at gives
          have behindFirst := Recorded.walk_iterate_of_endsIn first atStart
          obtain ⟨steps, rfl, last⟩ := inductionHypothesis later gives behindFirst
          refine ⟨rounds + steps, rfl, ?_⟩
          rw [Nat.add_comm, Function.iterate_add_apply]
          exact last

/-- If every call returns, there are calls of any number of rounds. -/
theorem exists_lasts (returns : ∀ number, (words.after number).Returns) (calls : Nat) :
    ∃ rounds, calls ≤ rounds ∧ words.Lasts calls rounds := by
  induction calls generalizing words with
  | zero => exact ⟨0, Nat.le_refl 0, .none⟩
  | succ calls inductionHypothesis =>
      obtain ⟨pull, ends⟩ := returns 0
      have laterReturn : ∀ number, (after number { walk := pull.walk }).Returns := by
        intro number
        rw [← after_succ_of_ends ends]
        exact returns (number + 1)
      obtain ⟨rounds, first⟩ := Pulling.Ends.exists_endsIn ends
      obtain ⟨more, enough, later⟩ := inductionHypothesis laterReturn
      exact ⟨rounds + 1 + more, by omega, .call first later⟩

/-- What holds at the start and is kept by steps holds in every state that calls go through. -/
theorem Visits.induction {motive : Recorded → Prop} (atStart : motive (.fresh words.walk))
    (keeps : ∀ state, motive state → motive state.step) {state : Recorded}
    (visits : words.Visits state) : motive state := by
  obtain ⟨_, _, steps, _, _, rfl⟩ := visits
  clear * - atStart keeps
  induction steps with
  | zero => exact atStart
  | succ steps inductionHypothesis =>
      rw [Function.iterate_succ_apply']
      exact keeps _ inductionHypothesis

/-- What steps lead to, calls go through. -/
theorem exists_visits {wanted : Recorded → Prop}
    (returns : ∀ number, (words.after number).Returns)
    (leads : Recorded.Leads wanted (.fresh words.walk)) :
    ∃ state, words.Visits state ∧ wanted state := by
  obtain ⟨steps, reached⟩ := leads.exists_iterate
  obtain ⟨rounds, enough, lasts⟩ := exists_lasts returns steps
  exact ⟨_, ⟨steps, rounds, steps, lasts, enough, rfl⟩, reached⟩

end Words

end RegularWords
