import RegularWords.Proofs.Visits

/-!
Enumerations that are over stay so.

A call ends without a word only where its walk is exhausted, and an exhausted walk stays as it is.
So no later call finds a word.

The same holds for the walks at work in an enumeration.  Odometers and repetitions drop an exhausted
walk, and so does a choice that has an alternative left.  A choice with nothing pending keeps the
walk and asks it again in every later call.  To say that it never wakes up, a walk inside another
one is followed by its place, for as long as the steps keep it there.
-/

namespace RegularWords

open Walk

namespace Walk

/-! ### Places -/

/-- The wheels of an odometer are numbered from the earliest on, like the factors they turn. -/
inductive Place where
  | top
  | wheel (number : Nat) (place : Place)
  | alternative (place : Place)
  | extension (place : Place)

def at? : Walk → Place → Option Walk
  | walk, .top => some walk
  | .odometer wheels _ _, .wheel number place =>
      wheels.reverse[number]?.bind fun wheel => at? wheel.cursor place
  | .choice (some current) _, .alternative place => at? current place
  | .repetition _ _ (some growth), .extension place => at? growth.cursor place
  | _, _ => none

/-- The next step of the walk takes a step of the walk at the place. -/
def Asks : Walk → Place → Prop
  | _, .top => True
  | .odometer (wheel :: wheels) _ _, .wheel number place =>
      number = wheels.length ∧ Asks wheel.cursor place
  | .choice (some current) _, .alternative place => Asks current place
  | .repetition _ _ (some growth), .extension place => Asks growth.cursor place
  | _, _ => False

/-- The next step of the walk neither drops the walk at the place nor puts a fresh one there. -/
def Keeps : Walk → Place → Prop
  | _, .top => True
  | .odometer (wheel :: wheels) _ _, .wheel number place =>
      number < wheels.length ∨
        number = wheels.length ∧ wheel.cursor.step.1 ≠ .exhausted ∧ Keeps wheel.cursor place
  | .choice (some current) pending, .alternative place =>
      (current.step.1 = .exhausted → pending = []) ∧ Keeps current place
  | .repetition _ _ (some growth), .extension place =>
      growth.cursor.step.1 ≠ .exhausted ∧ Keeps growth.cursor place
  | _, _ => False

theorem asks_top {walk : Walk} : walk.Asks .top := by
  rw [Asks]
  trivial

/-! ### What a step does at a place -/

section Odometer

variable {wheel : Wheel Walk} {wheels : List (Wheel Walk)} {waiting : List Expr}
  {buffer : Array Char} {number : Nat} {place : Place}

theorem reverse_getElem?_earlier (latest : Wheel Walk) (earlier : number < wheels.length) :
    (latest :: wheels).reverse[number]? = wheels.reverse[number]? := by
  rw [← List.length_reverse] at earlier
  rw [List.reverse_cons, List.getElem?_append_left earlier]

theorem reverse_getElem?_latest : (wheel :: wheels).reverse[wheels.length]? = some wheel := by
  rw [List.reverse_cons, ← List.length_reverse, List.getElem?_concat_length]

theorem at?_latest :
    (odometer (wheel :: wheels) waiting buffer).at? (.wheel wheels.length place) =
      wheel.cursor.at? place := by
  rw [at?, reverse_getElem?_latest, Option.bind_some]

/-- The wheels before the latest one are at rest. -/
theorem at?_step_earlier (earlier : number < wheels.length) :
    (odometer (wheel :: wheels) waiting buffer).step.2.at? (.wheel number place) =
      (odometer (wheel :: wheels) waiting buffer).at? (.wheel number place) := by
  have unmoved : ∀ latest, (latest :: wheels).reverse[number]? = wheels.reverse[number]? :=
    fun latest => reverse_getElem?_earlier latest earlier
  rcases wheel.cursor.step_cases with
    ⟨part, next, stepped⟩ | ⟨next, stepped⟩ | ⟨event, next, stepped, quiet⟩
  · cases waiting with
    | nil => rw [step_odometer_last stepped, at?, at?, unmoved, unmoved]
    | cons later waiting =>
        have below : number < ({ wheel with cursor := next } :: wheels).length :=
          Nat.lt_succ_of_lt earlier
        rw [step_odometer_word stepped later, at?, at?, reverse_getElem?_earlier _ below, unmoved,
          unmoved]
  · rw [step_odometer_exhausted stepped, at?, at?, unmoved]
  · rw [step_odometer_quiet stepped quiet, at?, at?, unmoved, unmoved]

theorem at?_step_latest (goesOn : wheel.cursor.step.1 ≠ .exhausted) :
    (odometer (wheel :: wheels) waiting buffer).step.2.at? (.wheel wheels.length place) =
      wheel.cursor.step.2.at? place := by
  rcases wheel.cursor.step_cases with
    ⟨part, next, stepped⟩ | ⟨next, stepped⟩ | ⟨event, next, stepped, quiet⟩
  · cases waiting with
    | nil => rw [step_odometer_last stepped, at?_latest, stepped]
    | cons later waiting =>
        have below : wheels.length < ({ wheel with cursor := next } :: wheels).length :=
          Nat.lt_succ_self _
        rw [step_odometer_word stepped later, at?, reverse_getElem?_earlier _ below,
          reverse_getElem?_latest, Option.bind_some, stepped]
  · exact absurd (congrArg Prod.fst stepped) goesOn
  · rw [step_odometer_quiet stepped quiet, at?_latest, stepped]

end Odometer

theorem at?_step_alternative {current : Walk} {pending : List Expr} {place : Place}
    (lastOne : current.step.1 = .exhausted → pending = []) :
    (choice (some current) pending).step.2.at? (.alternative place) =
      current.step.2.at? place := by
  rcases current.step_cases with
    ⟨word, next, stepped⟩ | ⟨next, stepped⟩ | ⟨event, next, stepped, quiet⟩
  · rw [step_choice_word stepped, stepped, at?]
  · obtain rfl := lastOne (congrArg Prod.fst stepped)
    rw [step_choice_last stepped, stepped, at?]
  · rw [step_choice_quiet stepped quiet, stepped, at?]

theorem at?_step_extension {inner : Expr} {levels : Levels} {growth : Growth Walk} {place : Place}
    (goesOn : growth.cursor.step.1 ≠ .exhausted) :
    (repetition inner levels (some growth)).step.2.at? (.extension place) =
      growth.cursor.step.2.at? place := by
  rcases growth.cursor.step_cases with
    ⟨suffix, next, stepped⟩ | ⟨next, stepped⟩ | ⟨event, next, stepped, quiet⟩
  · rw [step_repetition_word stepped, stepped, at?]
  · exact absurd (congrArg Prod.fst stepped) goesOn
  · rw [step_repetition_quiet stepped quiet, stepped, at?]

/-- A walk that is kept at its place takes a step if it is asked, and rests otherwise. -/
theorem at?_step {walk cursor : Walk} {place : Place} (kept : walk.Keeps place)
    (isThere : walk.at? place = some cursor) :
    (walk.Asks place → walk.step.2.at? place = some cursor.step.2) ∧
      (¬ walk.Asks place → walk.step.2.at? place = some cursor) := by
  induction place generalizing walk with
  | top =>
      obtain rfl : walk = cursor := Option.some.inj isThere
      exact ⟨fun _ => rfl, fun rests => absurd asks_top rests⟩
  | wheel number place inductionHypothesis =>
      match walk, kept with
      | .odometer (wheel :: wheels) waiting buffer, kept =>
          rcases kept with earlier | ⟨rfl, goesOn, kept⟩
          · rw [at?_step_earlier earlier]
            exact ⟨fun asks => absurd asks.1 (Nat.ne_of_lt earlier), fun _ => isThere⟩
          · rw [at?_latest] at isThere
            rw [at?_step_latest goesOn]
            obtain ⟨stepped, rested⟩ := inductionHypothesis kept isThere
            exact ⟨fun asks => stepped asks.2, fun rests => rested fun asks => rests ⟨rfl, asks⟩⟩
  | alternative place inductionHypothesis =>
      match walk, kept with
      | .choice (some current) pending, ⟨lastOne, kept⟩ =>
          rw [at?_step_alternative lastOne]
          exact inductionHypothesis kept isThere
  | extension place inductionHypothesis =>
      match walk, kept with
      | .repetition inner levels (some growth), ⟨goesOn, kept⟩ =>
          rw [at?_step_extension goesOn]
          exact inductionHypothesis kept isThere

/-- An exhausted walk is the same for as long as it is kept, whether it is asked again or not. -/
theorem at?_step_of_exhausted {walk cursor : Walk} {place : Place} (kept : walk.Keeps place)
    (isThere : walk.at? place = some cursor) (exhausted : cursor.step.1 = .exhausted) :
    walk.step.2.at? place = some cursor := by
  have same : cursor.step.2 = cursor := eq_of_exhausted (Prod.ext exhausted rfl)
  obtain ⟨stepped, rested⟩ := at?_step kept isThere
  by_cases asks : walk.Asks place
  · rw [stepped asks, same]
  · exact rested asks

end Walk

theorem Pulling.Ends.exhausted {pulling : Pulling} {pull : Pull} (ends : pulling.Ends pull)
    (noWord : pull.word = none) : pull.walk.step = (.exhausted, pull.walk) := by
  refine ends.end_induction (motive := fun _ last => last.step = (.exhausted, last)) ?_ ?_ noWord
  · intro walk stepped
    exact stepped
  · intro walk next last event _ _ inductionHypothesis
    exact inductionHypothesis

namespace Words

def Over (words : Words) : Prop :=
  ∀ number, (words.after number).Returns ∧ (words.after number).next.1 = none

/-- If calls end and the last of them without a word, every later one ends without a word as
well. -/
def Fused (words : Words) : Prop :=
  ∀ number, (∀ index ≤ number, (words.after index).Returns) →
    (words.after number).next.1 = none → (words.after (number + 1)).Over

/-- The walk at a place was asked in the course of the calls and had no word left.  It has been kept
ever since. -/
inductive HasEnded (words : Words) : Recorded → Place → Prop where
  | now {state : Recorded} {place : Place} {cursor : Walk} (visits : words.Visits state)
      (isThere : state.walk.at? place = some cursor) (asks : state.walk.Asks place)
      (exhausted : cursor.step.1 = .exhausted) (kept : state.walk.Keeps place) :
      HasEnded words state.step place
  | later {state : Recorded} {place : Place} (hasEnded : HasEnded words state place)
      (kept : state.walk.Keeps place) : HasEnded words state.step place

variable {words : Words} {walk : Walk}

theorem next_of_exhausted (stepped : walk.step = (.exhausted, walk)) :
    Returns { walk } ∧ next { walk } = (none, { walk }) := by
  have ends : Pulling.Ends { levels := [], walk } { word := none, levels := [], walk } :=
    .now (Pulling.advance_of_exhausted stepped [])
  exact ⟨⟨_, ends⟩, next_of_ends ends⟩

theorem over_of_exhausted (stepped : walk.step = (.exhausted, walk)) : Over { walk } := by
  obtain ⟨returns, noWord⟩ := next_of_exhausted stepped
  intro number
  induction number with
  | zero => exact ⟨returns, congrArg Prod.fst noWord⟩
  | succ number inductionHypothesis =>
      rw [after, noWord]
      exact inductionHypothesis

theorem after_succ (words : Words) (number : Nat) :
    words.after (number + 1) = (words.after number).next.2 := by
  induction number generalizing words with
  | zero => rfl
  | succ number inductionHypothesis => exact inductionHypothesis words.next.2

/-- Behind a call without a word every call ends without a word. -/
theorem over_next (returns : words.Returns) (noWord : words.next.1 = none) :
    words.next.2.Over := by
  obtain ⟨pull, ends, nextEq⟩ := returns.exists_next
  rw [nextEq] at noWord ⊢
  exact over_of_exhausted (ends.exhausted noWord)

theorem fused (words : Words) : words.Fused := by
  intro number returns noWord
  rw [after_succ]
  exact over_next (returns number (Nat.le_refl number)) noWord

/-- The steps between two calls of a walk inside do not matter, because the walk stays as it is. -/
theorem HasEnded.exhausted {state : Recorded} {place : Place}
    (hasEnded : words.HasEnded state place) :
    ∃ cursor, state.walk.at? place = some cursor ∧ cursor.step.1 = .exhausted := by
  induction hasEnded with
  | now visits isThere asks exhausted kept =>
      exact ⟨_, at?_step_of_exhausted kept isThere exhausted, exhausted⟩
  | later _ kept inductionHypothesis =>
      obtain ⟨cursor, isThere, exhausted⟩ := inductionHypothesis
      exact ⟨cursor, at?_step_of_exhausted kept isThere exhausted, exhausted⟩

/-- Once a call has ended without a word, every later one does.  So does every later call on a walk
inside that has ended without a word in the course of the calls, wherever it is at work and for as
long as it is kept.  The calls may be those on an expression, on what other calls have left behind,
or on a walk inside. -/
theorem words_fused (words : Words) :
    words.Fused ∧
      ∀ state place, words.HasEnded state place →
        ∃ cursor, state.walk.at? place = some cursor ∧ Over { walk := cursor } := by
  refine ⟨fused words, fun state place hasEnded => ?_⟩
  obtain ⟨cursor, isThere, exhausted⟩ := hasEnded.exhausted
  refine ⟨cursor, isThere, over_of_exhausted (Prod.ext exhausted ?_)⟩
  exact eq_of_exhausted (Prod.ext exhausted rfl)

/-- The repetition of a union without alternatives gives the empty word and ends.  A union that ends
in it keeps it and asks it again. -/
theorem words_fused_wordless_repetition :
    let words := (Expr.union [.star (.union [])]).words
    let last := Walk.repetition (.union []) Levels.first.turn none
    (∀ index ≤ 1, (words.after index).Returns) ∧ (words.after 1).next.1 = none ∧
      (words.after 2).Over ∧
        ∃ state, words.HasEnded state (.alternative .top) ∧
          state.walk = .choice (some last) [] ∧ state.walk.Asks (.alternative .top) ∧
            Over { walk := last } := by
  intro words last
  let behind := Walk.choice (some (.repetition (.union []) .first none)) []
  have first : Pulling.EndsIn 2 { levels := [], walk := words.walk }
      { word := some [], levels := [], walk := behind } := .later rfl (.now rfl)
  have second : Pulling.EndsIn 3 { levels := [], walk := behind }
      { word := none, levels := [], walk := .choice (some last) [] } :=
    .later rfl (.later rfl (.now rfl))
  have afterFirst : words.after 1 = { walk := behind } :=
    congrArg Prod.snd (next_of_ends first.ends)
  have returns : ∀ index ≤ 1, (words.after index).Returns := by
    intro index early
    cases index with
    | zero => exact ⟨_, first.ends⟩
    | succ index =>
        obtain rfl : index = 0 := by omega
        rw [afterFirst]
        exact ⟨_, second.ends⟩
  have noWord : (words.after 1).next.1 = none := by
    rw [afterFirst, next_of_ends second.ends]
  -- The last step of the second call asks the repetition, which is exhausted then.
  have visits : words.Visits (Recorded.step^[4] (.fresh words.walk)) :=
    ⟨2, 5, 4, .call first (.call second .none), by decide, rfl⟩
  have hasEnded : words.HasEnded (Recorded.step^[5] (.fresh words.walk)) (.alternative .top) :=
    .now visits rfl trivial rfl ⟨fun _ => rfl, trivial⟩
  obtain ⟨fused, fusedInside⟩ := words_fused words
  obtain ⟨cursor, isThere, isOver⟩ := fusedInside _ _ hasEnded
  obtain rfl : last = cursor := Option.some.inj isThere
  exact ⟨returns, noWord, fused 1 returns noWord, _, hasEnded, rfl, trivial, isOver⟩

end Words

end RegularWords
