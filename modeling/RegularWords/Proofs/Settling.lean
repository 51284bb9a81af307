import RegularWords.Proofs.Remaining
import RegularWords.Proofs.Stepping

/-!
Pulls end.

A fresh walk through an expression in which every union has an alternative gives a word before it is
exhausted.  So the wheels of an odometer that wait for a word of theirs come to show one, and so do
the extensions of a stem: no walk can go on for ever without giving a word.  What walks around other
walks do rests on that alone: the walks inside settle, and those to be started show a word.
-/

namespace RegularWords

namespace Walk

inductive Settles : Walk → Prop where
  | word {walk next : Walk} {word : Word} (stepped : walk.step = (.word word, next)) :
      Settles walk
  | exhausted {walk next : Walk} (stepped : walk.step = (.exhausted, next)) : Settles walk
  | working {walk next : Walk} (stepped : walk.step = (.working, next)) (later : Settles next) :
      Settles walk
  | levelStarted {walk next : Walk} {level : LevelStart}
      (stepped : walk.step = (.levelStarted level, next)) (later : Settles next) : Settles walk

/-- Every walk inside, and every walk to be started, is through unions with alternatives. -/
def Fruitful (walk : Walk) : Prop :=
  walk.Sound fun expr => expr.unionsNonempty = true

theorem fruitful_step {walk : Walk} (fruitful : walk.Fruitful) : walk.step.2.Fruitful :=
  sound_step hereditary_unionsNonempty fruitful

theorem fruitful_start {expr : Expr} (nonempty : expr.unionsNonempty = true) :
    (start expr).Fruitful :=
  sound_start hereditary_unionsNonempty expr nonempty

theorem remaining_start_ne_nil {expr : Expr} (nonempty : expr.unionsNonempty = true) :
    (start expr).remaining ≠ .nil := by
  rw [remaining_start]
  exact Expr.listing_ne_nil nonempty

/-! What a step of a fruitful walk does to the words to come. -/

section Fruitful

variable {walk next : Walk}

theorem Fruitful.word {word : Word} (fruitful : walk.Fruitful)
    (stepped : walk.step = (.word word, next)) :
    walk.remaining = .cons word next.remaining ∧ next.Fruitful := by
  have advances := step_advances fruitful
  have nextFruitful := fruitful_step fruitful
  rw [stepped] at advances nextFruitful
  exact ⟨advances, nextFruitful⟩

theorem Fruitful.exhausted (fruitful : walk.Fruitful)
    (stepped : walk.step = (.exhausted, next)) : walk.remaining = .nil := by
  have advances := step_advances fruitful
  rw [stepped] at advances
  exact advances.1

theorem Fruitful.quiet {event : Event} (fruitful : walk.Fruitful)
    (stepped : walk.step = (event, next)) (quiet : event.Quiet) :
    next.remaining = walk.remaining ∧ next.Fruitful := by
  have advances := step_advances fruitful
  have nextFruitful := fruitful_step fruitful
  rw [stepped] at advances nextFruitful
  cases quiet with
  | working => exact ⟨advances.symm, nextFruitful⟩
  | levelStarted level => exact ⟨advances.symm, nextFruitful⟩

theorem Fruitful.step_cases (fruitful : walk.Fruitful) :
    (∃ word next, walk.step = (.word word, next) ∧
      walk.remaining = .cons word next.remaining ∧ next.Fruitful) ∨
      (∃ next, walk.step = (.exhausted, next) ∧ walk.remaining = .nil) ∨
        ∃ event next, walk.step = (event, next) ∧ event.Quiet ∧
          next.remaining = walk.remaining ∧ next.Fruitful := by
  rcases walk.step_cases with
    ⟨word, next, stepped⟩ | ⟨next, stepped⟩ | ⟨event, next, stepped, quiet⟩
  · exact .inl ⟨word, next, stepped, fruitful.word stepped⟩
  · exact .inr (.inl ⟨next, stepped, fruitful.exhausted stepped⟩)
  · exact .inr (.inr ⟨event, next, stepped, quiet, fruitful.quiet stepped quiet⟩)

theorem Settles.quiet {event : Event} (stepped : walk.step = (event, next))
    (quiet : event.Quiet) (later : next.Settles) : walk.Settles := by
  cases quiet with
  | working => exact .working stepped later
  | levelStarted level => exact .levelStarted stepped later

/-- Induction on the steps up to the next word or the end. -/
@[elab_as_elim]
theorem Settles.induction {motive : ∀ walk : Walk, walk.Settles → Prop}
    (word : ∀ {walk next : Walk} {word : Word} (stepped : walk.step = (.word word, next)),
      motive walk (.word stepped))
    (exhausted : ∀ {walk next : Walk} (stepped : walk.step = (.exhausted, next)),
      motive walk (.exhausted stepped))
    (quiet : ∀ {walk next : Walk} {event : Event} (stepped : walk.step = (event, next))
      (isQuiet : event.Quiet) (later : next.Settles), motive next later →
        motive walk (.quiet stepped isQuiet later))
    {walk : Walk} (settles : walk.Settles) : motive walk settles := by
  induction settles with
  | word stepped => exact word stepped
  | exhausted stepped => exact exhausted stepped
  | working stepped later inductionHypothesis =>
      exact quiet stepped .working later inductionHypothesis
  | levelStarted stepped later inductionHypothesis =>
      exact quiet stepped (.levelStarted _) later inductionHypothesis

/-- Induction on the steps up to the next word or the end, along which the words to come stay. -/
theorem Settles.fruitful_induction {motive : Walk → Prop}
    (word : ∀ {walk next : Walk} {word : Word}, walk.step = (.word word, next) →
      walk.remaining = .cons word next.remaining → next.Fruitful → motive walk)
    (exhausted : ∀ {walk next : Walk}, walk.step = (.exhausted, next) → walk.remaining = .nil →
      motive walk)
    (quiet : ∀ {walk next : Walk} {event : Event}, walk.step = (event, next) → event.Quiet →
      next.remaining = walk.remaining → motive next → motive walk)
    {walk : Walk} (settles : walk.Settles) (fruitful : walk.Fruitful) : motive walk := by
  induction settles using Settles.induction with
  | word stepped =>
      obtain ⟨gives, nextFruitful⟩ := fruitful.word stepped
      exact word stepped gives nextFruitful
  | exhausted stepped => exact exhausted stepped (fruitful.exhausted stepped)
  | quiet stepped isQuiet _ inductionHypothesis =>
      obtain ⟨same, nextFruitful⟩ := fruitful.quiet stepped isQuiet
      exact quiet stepped isQuiet same (inductionHypothesis nextFruitful)

end Fruitful

/-! ### Walks that show a word -/

inductive Shows : Walk → Prop where
  | word {walk next : Walk} {word : Word} (stepped : walk.step = (.word word, next)) : Shows walk
  | quiet {walk next : Walk} {event : Event} (stepped : walk.step = (event, next))
      (quiet : event.Quiet) (later : Shows next) : Shows walk

theorem Shows.settles {walk : Walk} (shows : walk.Shows) : walk.Settles := by
  induction shows with
  | word stepped => exact .word stepped
  | quiet stepped quiet _ settles => exact .quiet stepped quiet settles

section Odometer

variable {factor : Expr} {mark : Nat} {cursor : Walk} {wheels : List (Wheel Walk)}
  {waiting : List Expr} {buffer : Array Char}

theorem shows_odometer
    (atWord : ∀ {cursor next : Walk} {part : Word}, cursor.step = (.word part, next) →
      (odometer ({ factor, mark, cursor } :: wheels) waiting buffer).Shows)
    (shows : cursor.Shows) :
    (odometer ({ factor, mark, cursor } :: wheels) waiting buffer).Shows := by
  induction shows with
  | word stepped => exact atWord stepped
  | quiet stepped quiet _ shows => exact .quiet (step_odometer_quiet stepped quiet) quiet shows

/-- When the latest wheel gives a part of the word, the wheels that wait for it start, and each of
them shows a word: so does the odometer. -/
theorem shows_odometer_of_word (ready : ∀ later ∈ waiting, (start later).Shows) {next : Walk}
    {part : Word} (stepped : cursor.step = (.word part, next)) :
    (odometer ({ factor, mark, cursor } :: wheels) waiting buffer).Shows := by
  induction waiting generalizing factor mark cursor next part wheels buffer with
  | nil => exact .word (step_odometer_last stepped)
  | cons later waiting inductionHypothesis =>
      obtain ⟨laterReady, waitingReady⟩ := List.forall_mem_cons.mp ready
      refine .quiet (step_odometer_word stepped later) .working ?_
      exact shows_odometer (inductionHypothesis waitingReady) laterReady

end Odometer

theorem shows_choice_some {current : Walk} {pending : List Expr} (shows : current.Shows) :
    (choice (some current) pending).Shows := by
  induction shows with
  | word stepped => exact .word (step_choice_word stepped)
  | quiet stepped quiet _ shows => exact .quiet (step_choice_quiet stepped quiet) quiet shows

mutual

/-- A fresh walk shows a word if every union has alternatives. -/
theorem shows_start : ∀ {expr : Expr}, expr.unionsNonempty = true → (start expr).Shows
  | .literal symbol, _ => .word (by rw [start, step])
  | .empty, _ => .word (by rw [start, step])
  | .concat [], _ => .word (by rw [start, step])
  | .concat (factor :: factors), nonempty => by
      rw [Expr.unionsNonempty] at nonempty
      obtain ⟨firstReady, laterReady⟩ := List.forall_mem_cons.mp (shows_starts nonempty)
      rw [start]
      exact shows_odometer (shows_odometer_of_word laterReady) firstReady
  | .union [], nonempty => by simp [Expr.unionsNonempty] at nonempty
  | .union (alternative :: alternatives), nonempty => by
      rw [Expr.unionsNonempty, Bool.and_eq_true, Expr.allUnionsNonempty,
        Bool.and_eq_true] at nonempty
      have begins : (start (.union (alternative :: alternatives))).step =
          (.working, choice (some (start alternative)) alternatives) := by rw [start, step]
      exact .quiet begins .working (shows_choice_some (shows_start nonempty.2.1))
  | .star inner, _ => .word (by rw [start, step])

theorem shows_starts : ∀ {operands : List Expr}, Expr.allUnionsNonempty operands = true →
    ∀ operand ∈ operands, (start operand).Shows
  | [], _ => List.forall_mem_nil _
  | operand :: operands, nonempty => by
      rw [Expr.allUnionsNonempty, Bool.and_eq_true] at nonempty
      exact List.forall_mem_cons.mpr ⟨shows_start nonempty.1, shows_starts nonempty.2⟩

end

theorem ready_of_nonempty {operands : List Expr}
    (nonempty : ∀ operand ∈ operands, operand.unionsNonempty = true) :
    ∀ operand ∈ operands, (start operand).Shows :=
  fun operand present => shows_start (nonempty operand present)

/-! ### Walks around other walks -/

theorem settles_wheel {factor : Expr} {mark : Nat} {cursor : Walk} {wheels : List (Wheel Walk)}
    {waiting : List Expr} {buffer : Array Char}
    (ready : ∀ later ∈ waiting, (start later).Shows) (settles : cursor.Settles)
    (back : (odometer wheels (factor :: waiting) buffer).Settles) :
    (odometer ({ factor, mark, cursor } :: wheels) waiting buffer).Settles := by
  induction settles using Settles.induction with
  | word stepped => exact (shows_odometer_of_word ready stepped).settles
  | exhausted stepped => exact .working (step_odometer_exhausted stepped) back
  | quiet stepped quiet _ settles => exact .quiet (step_odometer_quiet stepped quiet) quiet settles

/-- An odometer settles: wheels that have turned through are passed over. -/
theorem settles_odometer {wheels : List (Wheel Walk)} {waiting : List Expr} {buffer : Array Char}
    (wheelsSettle : ∀ wheel ∈ wheels, wheel.cursor.Settles ∧ (start wheel.factor).Shows)
    (ready : ∀ later ∈ waiting, (start later).Shows) :
    (odometer wheels waiting buffer).Settles := by
  induction wheels generalizing waiting with
  | nil => exact .exhausted (by rw [step])
  | cons wheel wheels inductionHypothesis =>
      obtain ⟨⟨settles, factorReady⟩, earlierSettle⟩ := List.forall_mem_cons.mp wheelsSettle
      apply settles_wheel ready settles
      exact inductionHypothesis earlierSettle (List.forall_mem_cons.mpr ⟨factorReady, ready⟩)

section Choice

variable {pending : List Expr}

theorem settles_choice {current : Walk} (settles : current.Settles)
    (atEnd : ∀ {last next : Walk}, last.step = (.exhausted, next) →
      (choice (some last) pending).Settles) : (choice (some current) pending).Settles := by
  induction settles using Settles.induction with
  | word stepped => exact .word (step_choice_word stepped)
  | exhausted stepped => exact atEnd stepped
  | quiet stepped quiet _ settles => exact .quiet (step_choice_quiet stepped quiet) quiet settles

/-- A choice settles: alternatives that are exhausted are passed over, and the last one ends it. -/
theorem settles_choice_some {current : Walk} (settles : current.Settles)
    (ready : ∀ alternative ∈ pending, (start alternative).Settles) :
    (choice (some current) pending).Settles := by
  induction pending generalizing current with
  | nil => exact settles_choice settles fun stepped => .exhausted (step_choice_last stepped)
  | cons following pending inductionHypothesis =>
      obtain ⟨followingReady, pendingReady⟩ := List.forall_mem_cons.mp ready
      refine settles_choice settles fun stepped => .working (step_choice_next stepped following) ?_
      exact inductionHypothesis followingReady pendingReady

theorem settles_choice_none (ready : ∀ alternative ∈ pending, (start alternative).Settles) :
    (choice none pending).Settles := by
  cases pending with
  | nil => exact .exhausted (by rw [step])
  | cons alternative pending =>
      obtain ⟨firstReady, pendingReady⟩ := List.forall_mem_cons.mp ready
      refine .working (by rw [step]) ?_
      exact settles_choice_some firstReady pendingReady

end Choice

section Repetition

variable {inner : Expr} {levels : Levels}

theorem settles_growth {stem : Word} {cursor : Walk} (settles : cursor.Settles)
    (atEnd : (repetition inner levels.turn none).Settles) :
    (repetition inner levels (some { stem, cursor })).Settles := by
  induction settles using Settles.induction with
  | word stepped => exact .word (step_repetition_word stepped)
  | exhausted stepped => exact .working (step_repetition_exhausted stepped) atEnd
  | quiet stepped quiet _ settles =>
      exact .quiet (step_repetition_quiet stepped quiet) quiet settles

theorem shows_growth {stem : Word} {cursor : Walk} (shows : cursor.Shows) :
    (repetition inner levels (some { stem, cursor })).Shows := by
  induction shows with
  | word stepped => exact .word (step_repetition_word stepped)
  | quiet stepped quiet _ shows => exact .quiet (step_repetition_quiet stepped quiet) quiet shows

theorem settles_repetition_of_stem (ready : (start inner).Shows) {stem : Word}
    (atIndex : levels.frontier[levels.index]? = some stem) :
    (repetition inner levels none).Settles :=
  .working (step_repetition_stem atIndex) (shows_growth ready).settles

/-- Between two stems a repetition goes on to the next one, if need be on a new level. -/
theorem settles_repetition_none (ready : (start inner).Shows) :
    (repetition inner levels none).Settles := by
  cases atIndex : levels.frontier[levels.index]? with
  | some stem => exact settles_repetition_of_stem ready atIndex
  | none =>
      cases noneFound : levels.found.isEmpty with
      | true => exact .exhausted (step_repetition_end atIndex noneFound)
      | false =>
        have someStem : 0 < levels.found.size := by
          rw [← Bool.not_eq_true, Array.isEmpty_iff_size_eq_zero] at noneFound
          omega
        refine .levelStarted (step_repetition_level atIndex noneFound) ?_
        exact settles_repetition_of_stem ready (Array.getElem?_eq_some_iff.mpr ⟨someStem, rfl⟩)

end Repetition

/-! ### All walks -/

mutual

/-- Every walk settles if the unions in it have alternatives. -/
theorem settles_of_fruitful : ∀ {walk : Walk}, walk.Fruitful → walk.Settles
  | .single (some word), _ => .word (by rw [step])
  | .single none, _ => .exhausted (by rw [step])
  | .odometer wheels waiting buffer, fruitful => by
      rw [Fruitful, Sound] at fruitful
      exact settles_odometer (wheels_settle fruitful.1) (ready_of_nonempty fruitful.2)
  | .choice none pending, fruitful => by
      rw [Fruitful, Sound] at fruitful
      apply settles_choice_none
      exact fun later present => (ready_of_nonempty fruitful later present).settles
  | .choice (some current) pending, fruitful => by
      rw [Fruitful, Sound] at fruitful
      apply settles_choice_some (settles_of_fruitful fruitful.1)
      exact fun later present => (ready_of_nonempty fruitful.2 later present).settles
  | .unrepeated inner, _ => .word (by rw [step])
  | .repetition inner levels none, fruitful => by
      rw [Fruitful, Sound] at fruitful
      exact settles_repetition_none (shows_start fruitful)
  | .repetition inner levels (some { stem, cursor }), fruitful => by
      rw [Fruitful, Sound] at fruitful
      exact settles_growth (settles_of_fruitful fruitful.2)
        (settles_repetition_none (shows_start fruitful.1))

theorem wheels_settle : ∀ {wheels : List (Wheel Walk)} {filled : Nat},
    SoundWheels (fun expr => expr.unionsNonempty = true) filled wheels →
      ∀ wheel ∈ wheels, wheel.cursor.Settles ∧ (start wheel.factor).Shows
  | [], _, _ => List.forall_mem_nil _
  | { factor, mark, cursor } :: wheels, _, sound => by
      rw [SoundWheels] at sound
      obtain ⟨_, nonempty, cursorFruitful, earlier⟩ := sound
      exact List.forall_mem_cons.mpr
        ⟨⟨settles_of_fruitful cursorFruitful, shows_start nonempty⟩, wheels_settle earlier⟩

end

end Walk

end RegularWords
