import Mathlib.Logic.Function.Iterate
import RegularWords.Proofs.Stepping

/-!
The course of a walk, and a record of it.

What the wheels of an odometer have given cannot be read off the odometer: a wheel remembers where
its own walk stands, not how it came there.  `Recorded` goes along with a walk and notes the parts
of words that its turning wheels give.  The walk itself takes the same steps with and without the
record.
-/

namespace RegularWords

/-! ### Lists that grow at their end -/

theorem getElem?_concat_cases {α : Type} {items : List α} {last found : α} {index : Nat}
    (isFound : (items ++ [last])[index]? = some found) :
    items[index]? = some found ∨ index = items.length ∧ found = last := by
  rcases Nat.lt_trichotomy index items.length with inside | rfl | outside
  · rw [List.getElem?_append_left inside] at isFound
    exact .inl isFound
  · rw [List.getElem?_concat_length] at isFound
    exact .inr ⟨rfl, (Option.some.inj isFound).symm⟩
  · have behind : (items ++ [last]).length ≤ index := by
      rw [List.length_append]
      exact outside
    rw [List.getElem?_eq_none behind] at isFound
    cases isFound

theorem getElem?_append_of_eq_some {α : Type} {items : List α} {found : α} {index : Nat}
    (isFound : items[index]? = some found) (more : List α) :
    (items ++ more)[index]? = some found := by
  rw [List.getElem?_append_left (List.getElem?_eq_some_iff.mp isFound).1, isFound]

/-! ### Walks and what they have given -/

namespace Walk

/-- Steps lead from an origin to a walk, and meanwhile give some words and start some levels. -/
inductive Passes (origin : Walk) : List Word → List LevelStart → Walk → Prop where
  | nothing : Passes origin [] [] origin
  | word {words : List Word} {levels : List LevelStart} {walk next : Walk} {word : Word}
      (passes : Passes origin words levels walk) (stepped : walk.step = (.word word, next)) :
      Passes origin (words ++ [word]) levels next
  | working {words : List Word} {levels : List LevelStart} {walk next : Walk}
      (passes : Passes origin words levels walk) (stepped : walk.step = (.working, next)) :
      Passes origin words levels next
  | levelStarted {words : List Word} {levels : List LevelStart} {walk next : Walk}
      {level : LevelStart} (passes : Passes origin words levels walk)
      (stepped : walk.step = (.levelStarted level, next)) :
      Passes origin words (levels ++ [level]) next

/-- Steps lead from an origin to a walk and give some words meanwhile, latest first. -/
def HasGiven (origin : Walk) (words : List Word) (walk : Walk) : Prop :=
  ∃ levels, origin.Passes words.reverse levels walk

namespace HasGiven

variable {origin walk next : Walk} {words : List Word}

theorem nothing : origin.HasGiven [] origin := ⟨[], .nothing⟩

theorem word {word : Word} (hasGiven : origin.HasGiven words walk)
    (stepped : walk.step = (.word word, next)) : origin.HasGiven (word :: words) next := by
  obtain ⟨levels, passes⟩ := hasGiven
  refine ⟨levels, ?_⟩
  rw [List.reverse_cons]
  exact passes.word stepped

theorem quiet {event : Event} (hasGiven : origin.HasGiven words walk)
    (stepped : walk.step = (event, next)) (quiet : event.Quiet) :
    origin.HasGiven words next := by
  obtain ⟨levels, passes⟩ := hasGiven
  cases quiet with
  | working => exact ⟨levels, passes.working stepped⟩
  | levelStarted level => exact ⟨levels ++ [level], passes.levelStarted stepped⟩

end HasGiven

end Walk

/-! ### Records -/

/-- A walk, and for each of its turning wheels the parts of words it has given.  The latest wheel
and the latest part come first. -/
structure Recorded where
  walk : Walk
  given : List (List Word)

namespace Recorded

open Walk

def blank : Walk → List (List Word)
  | .odometer wheels _ _ => wheels.map fun _ => []
  | _ => []

def fresh (walk : Walk) : Recorded where
  walk := walk
  given := blank walk

/-- The record behind a step.  Only the latest wheel of an odometer steps: a part it gives is noted,
and the wheel that starts behind it has given none. -/
def note : Walk → List (List Word) → List (List Word)
  | .odometer ({ factor := _, mark := _, cursor } :: _) waiting _, parts :: earlier =>
      match cursor.step.1, waiting with
      | .word part, [] => (part :: parts) :: earlier
      | .word part, _ :: _ => [] :: (part :: parts) :: earlier
      | .exhausted, _ => earlier
      | .working, _ => parts :: earlier
      | .levelStarted _, _ => parts :: earlier
  | _, given => given

def step (state : Recorded) : Recorded where
  walk := state.walk.step.2
  given := note state.walk state.given

inductive Leads (wanted : Recorded → Prop) : Recorded → Prop where
  | here {state : Recorded} (reached : wanted state) : Leads wanted state
  | later {state : Recorded} (leads : Leads wanted state.step) : Leads wanted state

theorem Leads.exists_iterate {wanted : Recorded → Prop} {state : Recorded}
    (leads : Leads wanted state) : ∃ steps, wanted (step^[steps] state) := by
  induction leads with
  | here reached => exact ⟨0, reached⟩
  | later _ inductionHypothesis =>
      obtain ⟨steps, reached⟩ := inductionHypothesis
      exact ⟨steps + 1, reached⟩

/-! ### Steps -/

theorem step_eq {walk next : Walk} {event : Event} {given : List (List Word)}
    (stepped : walk.step = (event, next)) :
    step { walk, given } = { walk := next, given := note walk given } := by
  rw [step, stepped]

section Odometer

variable {factor : Expr} {mark : Nat} {cursor next : Walk} {wheels : List (Wheel Walk)}
  {waiting : List Expr} {buffer : Array Char} {parts : List Word} {earlier : List (List Word)}

/-- An odometer whose latest wheel has just given a part of the word: the wheel behind it starts, if
a factor is waiting. -/
def turned (wheels : List (Wheel Walk)) (given : List (List Word)) (buffer : Array Char) :
    List Expr → Recorded
  | [] => { walk := .odometer wheels [] buffer, given := given }
  | later :: waiting =>
      { walk := .odometer ({ factor := later, mark := buffer.size, cursor := Walk.start later } ::
          wheels) waiting buffer
        given := [] :: given }

theorem step_odometer_word {part : Word} (stepped : cursor.step = (.word part, next)) :
    step { walk := .odometer ({ factor, mark, cursor } :: wheels) waiting buffer
           given := parts :: earlier } =
      turned ({ factor, mark, cursor := next } :: wheels) ((part :: parts) :: earlier)
        (buffer.shrink mark ++ part) waiting := by
  cases waiting with
  | nil =>
      simp only [step_eq (step_odometer_last stepped), note, stepped, turned]
  | cons later waiting =>
      simp only [step_eq (Walk.step_odometer_word stepped later), note, stepped, turned]

theorem step_odometer_exhausted (stepped : cursor.step = (.exhausted, next)) :
    step { walk := .odometer ({ factor, mark, cursor } :: wheels) waiting buffer
           given := parts :: earlier } =
      { walk := .odometer wheels (factor :: waiting) buffer, given := earlier } := by
  simp only [step_eq (Walk.step_odometer_exhausted stepped), note, stepped]

theorem step_odometer_quiet {event : Event} (stepped : cursor.step = (event, next))
    (quiet : event.Quiet) :
    step { walk := .odometer ({ factor, mark, cursor } :: wheels) waiting buffer
           given := parts :: earlier } =
      { walk := .odometer ({ factor, mark, cursor := next } :: wheels) waiting buffer
        given := parts :: earlier } := by
  cases quiet with
  | working => simp only [step_eq (Walk.step_odometer_quiet stepped .working), note, stepped]
  | levelStarted level =>
      simp only [step_eq (Walk.step_odometer_quiet stepped (.levelStarted level)), note, stepped]

end Odometer

/-! A walk without wheels has nothing to note. -/

theorem step_choice {current : Option Walk} {pending : List Expr} {event : Event} {next : Walk}
    {given : List (List Word)} (stepped : (choice current pending).step = (event, next)) :
    step { walk := .choice current pending, given } = { walk := next, given } :=
  step_eq stepped

theorem step_repetition {inner : Expr} {levels : Levels} {growth : Option (Growth Walk)}
    {event : Event} {next : Walk} {given : List (List Word)}
    (stepped : (repetition inner levels growth).step = (event, next)) :
    step { walk := .repetition inner levels growth, given } = { walk := next, given } :=
  step_eq stepped

end Recorded

end RegularWords
