import RegularWords.Proofs.Course
import RegularWords.Proofs.Endless
import RegularWords.Proofs.Settling

/-!
Walks that come to their end.

A walk through an expression without repetitions is exhausted after finitely many steps, also where
unions without alternatives leave its odometers turning without a word.  An odometer whose latest
wheels come to their end gets back to the wheels before them.  A walk through an expression with
repetitions has words to come for ever.
-/

namespace RegularWords

open Stream' (Seq)

namespace Walk

inductive Finishes : Walk → Prop where
  | exhausted {walk next : Walk} (stepped : walk.step = (.exhausted, next)) : Finishes walk
  | later {walk : Walk} (finishes : Finishes walk.step.2) : Finishes walk

theorem finishes_step {walk : Walk} (finishes : walk.Finishes) : walk.step.2.Finishes := by
  cases finishes with
  | exhausted stepped =>
      rw [stepped, eq_of_exhausted stepped]
      exact .exhausted stepped
  | later finishes => exact finishes

/-- Induction on the steps up to the end. -/
@[elab_as_elim]
theorem Finishes.induction {motive : ∀ walk : Walk, walk.Finishes → Prop}
    (exhausted : ∀ {walk next : Walk} (stepped : walk.step = (.exhausted, next)),
      motive walk (.exhausted stepped))
    (word : ∀ {walk next : Walk} {word : Word} (finishes : walk.Finishes)
      (nextFinishes : next.Finishes), walk.step = (.word word, next) → motive next nextFinishes →
        motive walk finishes)
    (quiet : ∀ {walk next : Walk} {event : Event} (finishes : walk.Finishes)
      (nextFinishes : next.Finishes), walk.step = (event, next) → event.Quiet →
        motive next nextFinishes → motive walk finishes)
    {walk : Walk} (finishes : walk.Finishes) : motive walk finishes := by
  induction finishes with
  | exhausted stepped => exact exhausted stepped
  | @later walk finishes inductionHypothesis =>
      rcases walk.step_cases with
        ⟨_, next, stepped⟩ | ⟨next, stepped⟩ | ⟨event, next, stepped, isQuiet⟩
      · obtain rfl : walk.step.2 = next := congrArg Prod.snd stepped
        exact word (.later finishes) finishes stepped inductionHypothesis
      · exact exhausted stepped
      · obtain rfl : walk.step.2 = next := congrArg Prod.snd stepped
        exact quiet (.later finishes) finishes stepped isQuiet inductionHypothesis

theorem Finishes.settles {walk : Walk} (finishes : walk.Finishes) : walk.Settles := by
  induction finishes using Finishes.induction with
  | exhausted stepped => exact .exhausted stepped
  | word _ _ stepped _ => exact .word stepped
  | quiet _ _ stepped quiet inductionHypothesis => exact .quiet stepped quiet inductionHypothesis

end Walk

namespace Recorded

open Walk

variable {wanted : Recorded → Prop}

/-- The end of a walk is found by following its record. -/
theorem Leads.finishes {state : Recorded}
    (leads : Leads (fun reached => reached.walk.step.1 = .exhausted) state) :
    state.walk.Finishes := by
  induction leads with
  | @here state reached => exact .exhausted (Prod.ext reached rfl)
  | later _ inductionHypothesis => exact .later inductionHypothesis

theorem leads_exhausted {walk next : Walk} {given : List (List Word)}
    (stepped : walk.step = (.exhausted, next)) :
    Leads (fun reached => reached.walk.step.1 = .exhausted) { walk, given } :=
  .here (congrArg Prod.fst stepped)

section Odometer

variable {factor : Expr} {mark : Nat} {cursor : Walk} {wheels : List (Wheel Walk)}
  {waiting : List Expr} {earlier : List (List Word)}

/-- A wheel comes to its end if every part it gives leads back to it. -/
theorem leads_wheel (finishes : cursor.Finishes)
    (back : ∀ buffer, Leads wanted
      { walk := .odometer wheels (factor :: waiting) buffer, given := earlier })
    (around : ∀ {next : Walk} {parts : List Word},
      (∀ buffer, Leads wanted
        { walk := .odometer ({ factor, mark, cursor := next } :: wheels) waiting buffer
          given := parts :: earlier }) →
      ∀ buffer, Leads wanted
        (turned ({ factor, mark, cursor := next } :: wheels) (parts :: earlier) buffer waiting))
    (parts : List Word) (buffer : Array Char) :
    Leads wanted
      { walk := .odometer ({ factor, mark, cursor } :: wheels) waiting buffer
        given := parts :: earlier } := by
  induction finishes using Finishes.induction generalizing parts buffer with
  | exhausted stepped =>
      apply Leads.later
      rw [step_odometer_exhausted stepped]
      exact back buffer
  | word _ _ stepped inductionHypothesis =>
      apply Leads.later
      rw [step_odometer_word stepped]
      exact around (inductionHypothesis _) _
  | quiet _ _ stepped quiet inductionHypothesis =>
      apply Leads.later
      rw [step_odometer_quiet stepped quiet]
      exact inductionHypothesis parts buffer

/-- Wheels that come to their end leave the odometer to the wheels before them.  The induction is on
the factors that wait: every part of the latest wheel starts the first of them afresh, and that one
has fewer factors behind it. -/
theorem leads_odometer (waitingFinish : ∀ later ∈ waiting, (Walk.start later).Finishes)
    (finishes : cursor.Finishes)
    (back : ∀ buffer, Leads wanted
      { walk := .odometer wheels (factor :: waiting) buffer, given := earlier })
    (parts : List Word) (buffer : Array Char) :
    Leads wanted
      { walk := .odometer ({ factor, mark, cursor } :: wheels) waiting buffer
        given := parts :: earlier } := by
  induction waiting generalizing factor mark cursor wheels earlier parts buffer with
  | nil => exact leads_wheel finishes back (fun leads => leads) parts buffer
  | cons later waiting inductionHypothesis =>
      obtain ⟨laterFinishes, othersFinish⟩ := List.forall_mem_cons.mp waitingFinish
      refine leads_wheel finishes back ?_ parts buffer
      intro next parts leads buffer
      exact inductionHypothesis othersFinish laterFinishes leads [] buffer

/-- Behind a part of a wheel, the odometer gets back to that wheel. -/
theorem leads_turned (waitingFinish : ∀ later ∈ waiting, (Walk.start later).Finishes)
    (back : ∀ buffer, Leads wanted
      { walk := .odometer wheels waiting buffer, given := earlier })
    (buffer : Array Char) : Leads wanted (turned wheels earlier buffer waiting) := by
  cases waiting with
  | nil => exact back buffer
  | cons later waiting =>
      obtain ⟨laterFinishes, othersFinish⟩ := List.forall_mem_cons.mp waitingFinish
      exact leads_odometer othersFinish laterFinishes back [] buffer

end Odometer

/-- An alternative that comes to its end leads wherever a choice gets from there. -/
theorem leads_choice {current : Walk} {pending : List Expr} {given : List (List Word)}
    (finishes : current.Finishes)
    (atEnd : ∀ {last next : Walk}, last.step = (.exhausted, next) →
      Leads wanted { walk := .choice (some last) pending, given }) :
    Leads wanted { walk := .choice (some current) pending, given } := by
  induction finishes using Finishes.induction with
  | exhausted stepped => exact atEnd stepped
  | word _ _ stepped inductionHypothesis =>
      apply Leads.later
      rwa [step_choice (step_choice_word stepped)]
  | quiet _ _ stepped quiet inductionHypothesis =>
      apply Leads.later
      rwa [step_choice (step_choice_quiet stepped quiet)]

/-- An alternative that comes to its end leaves the choice to the next one. -/
theorem leads_choice_next {current : Walk} {following : Expr} {pending : List Expr}
    {given : List (List Word)} (finishes : current.Finishes)
    (onward : Leads wanted { walk := .choice (some (Walk.start following)) pending, given }) :
    Leads wanted { walk := .choice (some current) (following :: pending), given } := by
  refine leads_choice finishes fun stepped => .later ?_
  rwa [step_choice (step_choice_next stepped following)]

end Recorded

/-! ### Expressions without repetitions -/

namespace Walk

open Recorded

theorem finishes_odometer {wheels : List (Wheel Walk)} {waiting : List Expr}
    (wheelsFinish : ∀ wheel ∈ wheels,
      wheel.cursor.Finishes ∧ (start wheel.factor).Finishes)
    (waitingFinish : ∀ later ∈ waiting, (start later).Finishes) (buffer : Array Char) :
    (odometer wheels waiting buffer).Finishes := by
  suffices leads : Leads (fun reached => reached.walk.step.1 = .exhausted)
      { walk := odometer wheels waiting buffer, given := wheels.map fun _ => [] } from
    leads.finishes
  induction wheels generalizing waiting buffer with
  | nil => exact leads_exhausted (by rw [step])
  | cons wheel wheels inductionHypothesis =>
      obtain ⟨⟨finishes, factorFinishes⟩, earlierFinish⟩ := List.forall_mem_cons.mp wheelsFinish
      have allFinish : ∀ later ∈ wheel.factor :: waiting, (start later).Finishes :=
        List.forall_mem_cons.mpr ⟨factorFinishes, waitingFinish⟩
      exact leads_odometer waitingFinish finishes (inductionHypothesis earlierFinish allFinish) []
        buffer

theorem finishes_choice_some {current : Walk} {pending : List Expr} (finishes : current.Finishes)
    (pendingFinish : ∀ alternative ∈ pending, (start alternative).Finishes) :
    (choice (some current) pending).Finishes := by
  suffices leads : Leads (fun reached => reached.walk.step.1 = .exhausted)
      { walk := choice (some current) pending, given := [] } from leads.finishes
  induction pending generalizing current with
  | nil => exact leads_choice finishes fun stepped => leads_exhausted (step_choice_last stepped)
  | cons following pending inductionHypothesis =>
      obtain ⟨followingFinishes, othersFinish⟩ := List.forall_mem_cons.mp pendingFinish
      exact leads_choice_next finishes (inductionHypothesis followingFinishes othersFinish)

theorem finishes_choice_none {pending : List Expr}
    (pendingFinish : ∀ alternative ∈ pending, (start alternative).Finishes) :
    (choice none pending).Finishes := by
  cases pending with
  | nil => exact .exhausted (by rw [step])
  | cons alternative pending =>
      obtain ⟨firstFinishes, othersFinish⟩ := List.forall_mem_cons.mp pendingFinish
      exact .later (finishes_choice_some firstFinishes othersFinish)

theorem finishes_single (pending : Option Word) : (single pending).Finishes := by
  cases pending with
  | none => exact .exhausted (by rw [step])
  | some word => exact .later (.exhausted (by rw [step, step]))

mutual

/-- A fresh walk through an expression without repetitions comes to its end, with or without
words. -/
theorem finishes_start : ∀ {expr : Expr}, expr.isFinite = true → (start expr).Finishes
  | .literal symbol, _ => by
      rw [start]
      exact finishes_single _
  | .empty, _ => by
      rw [start]
      exact finishes_single _
  | .concat [], _ => by
      rw [start]
      exact finishes_single _
  | .concat (factor :: factors), finite => by
      rw [Expr.isFinite] at finite
      obtain ⟨first, others⟩ := List.forall_mem_cons.mp (finishes_starts finite)
      rw [start]
      exact finishes_odometer (List.forall_mem_singleton.mpr ⟨first, first⟩) others _
  | .union alternatives, finite => by
      rw [Expr.isFinite] at finite
      rw [start]
      exact finishes_choice_none (finishes_starts finite)
  | .star inner, finite => by
      rw [Expr.isFinite] at finite
      cases finite

theorem finishes_starts : ∀ {operands : List Expr}, Expr.areFinite operands = true →
    ∀ operand ∈ operands, (start operand).Finishes
  | [], _ => List.forall_mem_nil _
  | operand :: operands, finite => by
      rw [Expr.areFinite, Bool.and_eq_true] at finite
      exact List.forall_mem_cons.mpr ⟨finishes_start finite.1, finishes_starts finite.2⟩

end

end Walk

/-! ### Endless walks -/

namespace Walk

structure Endless (walk : Walk) : Prop where
  fruitful : walk.Fruitful
  noEnd : ¬ walk.remaining.Terminates

theorem endless_start {expr : Expr} (nonempty : expr.unionsNonempty = true)
    (infinite : expr.isFinite = false) : (start expr).Endless where
  fruitful := fruitful_start nonempty
  noEnd := by
    rw [remaining_start]
    exact Expr.endless_listing nonempty infinite

theorem Endless.step_cases {walk : Walk} (endless : walk.Endless) :
    (∃ word next, walk.step = (.word word, next) ∧ next.Endless) ∨
      ∃ event next, walk.step = (event, next) ∧ event.Quiet ∧ next.Endless := by
  have noEnd := endless.noEnd
  rcases endless.fruitful.step_cases with
    ⟨word, next, stepped, toCome, nextFruitful⟩ | ⟨next, stepped, ended⟩ |
      ⟨event, next, stepped, quiet, same, nextFruitful⟩
  · rw [toCome, Seq.terminates_cons_iff] at noEnd
    exact .inl ⟨word, next, stepped, nextFruitful, noEnd⟩
  · rw [ended] at noEnd
    exact absurd Seq.terminates_nil noEnd
  · rw [← same] at noEnd
    exact .inr ⟨event, next, stepped, quiet, nextFruitful, noEnd⟩

end Walk

end RegularWords
