import RegularWords.Enumeration.Walk

/-!
Steps of walks around other walks.

What a composite walk does in a step follows from the event of the walk inside it.  It goes on with
a word, passes over a walk that is exhausted, and hands on an event that is neither.
-/

namespace RegularWords

inductive Event.Quiet : Event → Prop where
  | working : Quiet .working
  | levelStarted (level : LevelStart) : Quiet (.levelStarted level)

namespace Walk

theorem step_cases (walk : Walk) :
    (∃ word next, walk.step = (.word word, next)) ∨
      (∃ next, walk.step = (.exhausted, next)) ∨
        ∃ event next, walk.step = (event, next) ∧ event.Quiet := by
  cases stepped : walk.step with
  | mk event next =>
      cases event with
      | word word => exact .inl ⟨word, next, rfl⟩
      | exhausted => exact .inr (.inl ⟨next, rfl⟩)
      | working => exact .inr (.inr ⟨_, next, rfl, .working⟩)
      | levelStarted level => exact .inr (.inr ⟨_, next, rfl, .levelStarted level⟩)

/-- An exhausted walk stays as it is.  Only a choice steps a walk inside it then: the exhausted walk
of its last alternative, which stays as it is by induction. -/
theorem eq_of_exhausted {walk next : Walk} (stepped : walk.step = (.exhausted, next)) :
    next = walk := by
  fun_induction step walk generalizing next with
  | case10 current kept steppedInside inductionHypothesis =>
      obtain rfl : .choice (some kept) [] = next := congrArg Prod.snd stepped
      rw [inductionHypothesis steppedInside]
  | _ => simp_all

section Odometer

variable {factor : Expr} {mark : Nat} {cursor next : Walk} {wheels : List (Wheel Walk)}
  {waiting : List Expr} {buffer : Array Char}

theorem step_odometer_last {part : Word} (stepped : cursor.step = (.word part, next)) :
    (odometer ({ factor, mark, cursor } :: wheels) [] buffer).step =
      (.word (buffer.shrink mark ++ part).toList,
        odometer ({ factor, mark, cursor := next } :: wheels) [] (buffer.shrink mark ++ part)) := by
  rw [step, stepped]

theorem step_odometer_word {part : Word} (stepped : cursor.step = (.word part, next))
    (later : Expr) :
    (odometer ({ factor, mark, cursor } :: wheels) (later :: waiting) buffer).step =
      (.working,
        odometer
          ({ factor := later, mark := (buffer.shrink mark ++ part).size, cursor := start later } ::
            { factor, mark, cursor := next } :: wheels)
          waiting (buffer.shrink mark ++ part)) := by
  rw [step, stepped]

theorem step_odometer_exhausted (stepped : cursor.step = (.exhausted, next)) :
    (odometer ({ factor, mark, cursor } :: wheels) waiting buffer).step =
      (.working, odometer wheels (factor :: waiting) buffer) := by
  rw [step, stepped]

theorem step_odometer_quiet {event : Event} (stepped : cursor.step = (event, next))
    (quiet : event.Quiet) :
    (odometer ({ factor, mark, cursor } :: wheels) waiting buffer).step =
      (event, odometer ({ factor, mark, cursor := next } :: wheels) waiting buffer) := by
  cases quiet <;> rw [step, stepped]

end Odometer

section Choice

variable {current next : Walk} {pending : List Expr}

theorem step_choice_word {word : Word} (stepped : current.step = (.word word, next)) :
    (choice (some current) pending).step = (.word word, choice (some next) pending) := by
  rw [step, stepped]

/-- The walk of the last alternative is kept. -/
theorem step_choice_last (stepped : current.step = (.exhausted, next)) :
    (choice (some current) []).step = (.exhausted, choice (some next) []) := by
  rw [step, stepped]

theorem step_choice_next (stepped : current.step = (.exhausted, next)) (following : Expr) :
    (choice (some current) (following :: pending)).step =
      (.working, choice (some (start following)) pending) := by
  rw [step, stepped]

theorem step_choice_quiet {event : Event} (stepped : current.step = (event, next))
    (quiet : event.Quiet) :
    (choice (some current) pending).step = (event, choice (some next) pending) := by
  cases quiet <;> rw [step, stepped]

end Choice

section Repetition

variable {inner : Expr} {levels : Levels} {stem : Word} {cursor next : Walk}

theorem step_repetition_word {suffix : Word} (stepped : cursor.step = (.word suffix, next)) :
    (repetition inner levels (some { stem, cursor })).step =
      (.word (stem ++ suffix),
        repetition inner (levels.record (stem ++ suffix)) (some { stem, cursor := next })) := by
  rw [step, stepped]

theorem step_repetition_exhausted (stepped : cursor.step = (.exhausted, next)) :
    (repetition inner levels (some { stem, cursor })).step =
      (.working, repetition inner levels.turn none) := by
  rw [step, stepped]

theorem step_repetition_quiet {event : Event} (stepped : cursor.step = (event, next))
    (quiet : event.Quiet) :
    (repetition inner levels (some { stem, cursor })).step =
      (event, repetition inner levels (some { stem, cursor := next })) := by
  cases quiet <;> rw [step, stepped]

theorem step_repetition_stem (atIndex : levels.frontier[levels.index]? = some stem) :
    (repetition inner levels none).step =
      (.working, repetition inner levels (some { stem, cursor := start inner })) := by
  rw [step, atIndex]

/-- The level is complete, and the words found are the next one. -/
theorem step_repetition_level (through : levels.frontier[levels.index]? = none)
    (someFound : levels.found.isEmpty = false) :
    (repetition inner levels none).step =
      (.levelStarted ⟨inner, levels.advance.number, levels.advance.frontier.size⟩,
        repetition inner levels.advance none) := by
  rw [step, through]
  simp only [someFound]
  rfl

theorem step_repetition_end (through : levels.frontier[levels.index]? = none)
    (noneFound : levels.found.isEmpty = true) :
    (repetition inner levels none).step = (.exhausted, repetition inner levels none) := by
  rw [step, through]
  simp only [noneFound]
  rfl

end Repetition

end Walk

end RegularWords
