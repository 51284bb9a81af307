import Mathlib.Data.List.Forall2
import RegularWords.Proofs.Counting
import RegularWords.Proofs.Exhaustion

/-!
Concatenations whose factors behind the first one come to their end.

Every word of the first factor is then followed by the same number of words of the others.  So calls
on the concatenation end as long as those on the first factor do.
-/

namespace RegularWords

namespace Walk

/-- A walk gives a number of words and then finds itself where it is wanted. -/
inductive Gives (wanted : Walk → Prop) : Nat → Walk → Prop where
  | here {walk : Walk} (reached : wanted walk) : Gives wanted 0 walk
  | word {number : Nat} {walk next : Walk} {word : Word} (stepped : walk.step = (.word word, next))
      (later : Gives wanted number next) : Gives wanted (number + 1) walk
  | quiet {number : Nat} {walk next : Walk} {event : Event} (stepped : walk.step = (event, next))
      (quiet : event.Quiet) (later : Gives wanted number next) : Gives wanted number walk

def Spends (number : Nat) (walk : Walk) : Prop :=
  walk.Gives (fun reached => reached.step = (.exhausted, reached)) number

section Odometer

variable {wanted ready : Walk → Prop} {factor : Expr} {mark : Nat} {cursor : Walk}
  {wheels : List (Wheel Walk)} {waiting : List Expr} {number size behind : Nat}

/-- A wheel gives a number of rounds if every part it gives starts one that leads back to it. -/
theorem gives_wheel (gives : cursor.Gives ready number)
    (onward : ∀ {reached : Walk}, ready reached → ∀ buffer,
      (odometer ({ factor, mark, cursor := reached } :: wheels) waiting buffer).Gives wanted behind)
    (around : ∀ {walk next : Walk} {part : Word} {rest : Nat}, walk.step = (.word part, next) →
      (∀ buffer,
        (odometer ({ factor, mark, cursor := next } :: wheels) waiting buffer).Gives wanted rest) →
      ∀ buffer, (odometer ({ factor, mark, cursor := walk } :: wheels) waiting buffer).Gives wanted
        (size + rest))
    (buffer : Array Char) :
    (odometer ({ factor, mark, cursor } :: wheels) waiting buffer).Gives wanted
      (number * size + behind) := by
  induction gives generalizing buffer with
  | here reached =>
      rw [Nat.zero_mul, Nat.zero_add]
      exact onward reached buffer
  | word stepped _ inductionHypothesis =>
      rw [Nat.succ_mul, Nat.add_comm _ size, Nat.add_assoc]
      exact around stepped inductionHypothesis buffer
  | quiet stepped quiet _ inductionHypothesis =>
      exact .quiet (step_odometer_quiet stepped quiet) quiet (inductionHypothesis buffer)

/-- The induction is on the factors that wait: every part of the latest wheel starts the first of
them afresh, and that one has fewer factors behind it. -/
theorem gives_odometer {counts : List Nat}
    (waitingSpend : List.Forall₂ (fun later count => (start later).Spends count) waiting counts)
    (gives : cursor.Gives ready number)
    (onward : ∀ {reached : Walk}, ready reached → ∀ buffer,
      (odometer ({ factor, mark, cursor := reached } :: wheels) waiting buffer).Gives wanted behind)
    (buffer : Array Char) :
    (odometer ({ factor, mark, cursor } :: wheels) waiting buffer).Gives wanted
      (number * counts.prod + behind) := by
  induction waitingSpend generalizing ready factor mark cursor wheels number behind buffer with
  | nil =>
      refine gives_wheel gives onward ?_ buffer
      intro walk next part rest stepped back buffer
      rw [List.prod_nil, Nat.add_comm]
      exact .word (step_odometer_last stepped) (back _)
  | @cons later count waiting counts spends _ inductionHypothesis =>
      refine gives_wheel gives onward ?_ buffer
      intro walk next part rest stepped back buffer
      refine .quiet (step_odometer_word stepped later) .working ?_
      rw [List.prod_cons]
      refine inductionHypothesis spends ?_ _
      intro reached isEnd buffer
      exact .quiet (step_odometer_exhausted isEnd) .working (back buffer)

theorem spends_odometer_nil (buffer : Array Char) : (odometer [] waiting buffer).Spends 0 :=
  .here (by rw [step])

end Odometer

end Walk

open Walk

theorem Pulling.Ends.gives {wanted : Walk → Prop} {number : Nat} {pulling : Pulling} {pull : Pull}
    (ends : pulling.Ends pull) (someWord : pull.word ≠ none)
    (later : pull.walk.Gives wanted number) : pulling.walk.Gives wanted (number + 1) := by
  refine ends.word_induction (motive := fun walk last =>
    last.Gives wanted number → walk.Gives wanted (number + 1)) ?_ ?_ someWord later
  · intro walk next word stepped later
    exact .word stepped later
  · intro walk next last event stepped quiet inductionHypothesis later
    exact .quiet stepped quiet (inductionHypothesis later)

theorem Pulling.Ends.spends {pulling : Pulling} {pull : Pull} (ends : pulling.Ends pull)
    (noWord : pull.word = none) : pulling.walk.Spends 0 := by
  refine ends.end_induction (motive := fun walk _ => walk.Spends 0) ?_ ?_ noWord
  · intro walk stepped
    exact .here stepped
  · intro walk next last event stepped quiet inductionHypothesis
    exact .quiet stepped quiet inductionHypothesis

namespace Words

variable {words : Words} {number : Nat}

/-- Calls end until a number of words has been given, unless the walk is exhausted before. -/
theorem gives_of_returns (returns : ∀ index < number, (words.after index).Returns) :
    words.walk.Gives (fun _ => True) number ∨ ∃ given < number, words.walk.Spends given := by
  induction number generalizing words with
  | zero => exact .inl (.here trivial)
  | succ number inductionHypothesis =>
      have first : words.Returns := returns 0 (Nat.succ_pos number)
      obtain ⟨pull, ends, nextEq⟩ := first.exists_next
      have later : ∀ index < number, (words.next.2.after index).Returns :=
        fun index within => returns (index + 1) (Nat.succ_lt_succ within)
      rw [nextEq] at later
      cases given : pull.word with
      | none => exact .inr ⟨0, Nat.succ_pos number, ends.spends given⟩
      | some word =>
          have someWord : pull.word ≠ none := given ▸ Option.some_ne_none word
          rcases inductionHypothesis later with gives | ⟨given, within, spends⟩
          · exact .inl (ends.gives someWord gives)
          · exact .inr ⟨given + 1, Nat.succ_lt_succ within, ends.gives someWord spends⟩

theorem Enumerates.spends {listed : List Word} (enumerates : words.Enumerates listed) :
    words.walk.Spends listed.length := by
  induction listed generalizing words with
  | nil =>
      have returns : words.Returns := enumerates.returns 0
      have noWord : words.next.1 = none := enumerates.gives 0
      obtain ⟨pull, ends, nextEq⟩ := returns.exists_next
      rw [nextEq] at noWord
      exact ends.spends noWord
  | cons word listed inductionHypothesis =>
      have returns : words.Returns := enumerates.returns 0
      have someWord : words.next.1 = some word := enumerates.gives 0
      have later : words.next.2.Enumerates listed :=
        ⟨fun index => enumerates.returns (index + 1), fun index => enumerates.gives (index + 1)⟩
      obtain ⟨pull, ends, nextEq⟩ := returns.exists_next
      have given : pull.word = some word := (congrArg Prod.fst nextEq).symm.trans someWord
      rw [nextEq] at later
      exact ends.gives (given ▸ Option.some_ne_none word) (inductionHypothesis later)

/-- Calls end while words are given, and as many more as end where the walk is wanted. -/
theorem returns_of_gives {wanted : Walk → Prop} {walk : Walk} {later : Nat}
    (gives : walk.Gives wanted number)
    (onward : ∀ {reached : Walk}, wanted reached →
      ∀ index < later, (after index { walk := reached }).Returns) :
    ∀ index < number + later, (after index { walk }).Returns := by
  induction gives with
  | here reached =>
      rw [Nat.zero_add]
      exact onward reached
  | @word number walk next word stepped _ inductionHypothesis =>
      have ends := Pulling.Ends.now (Pulling.advance_of_word stepped [])
      intro index within
      cases index with
      | zero => exact ⟨_, ends⟩
      | succ index =>
          rw [after, next_of_ends ends]
          exact inductionHypothesis index (by omega)
  | @quiet number walk next event stepped quiet _ inductionHypothesis =>
      intro index within
      have settles : next.Settles :=
        Returns.settles (inductionHypothesis 0 (Nat.zero_lt_of_lt within))
      cases index with
      | zero => exact (settles.quiet stepped quiet).exists_ends []
      | succ index =>
          have returns := inductionHypothesis (index + 1) within
          rwa [after, next_of_quiet stepped quiet settles]

/-- As many calls end as the words of the first factor, counted once for each round through the
words of the others. -/
theorem returns_concat {first : Expr} {factors : List Expr} {blocks : List (List Word)}
    (enumerate : List.Forall₂ (fun factor listed => factor.words.Enumerates listed) factors blocks)
    (returns : ∀ index < number, (first.words.after index).Returns) :
    ∀ index < number * (blocks.map List.length).prod,
      ((Expr.concat (first :: factors)).words.after index).Returns := by
  have waitingSpend : List.Forall₂ (fun factor count => (Walk.start factor).Spends count) factors
      (blocks.map List.length) :=
    List.forall₂_map_right_iff.mpr (enumerate.imp fun _ _ enumerates => enumerates.spends)
  rcases gives_of_returns returns with gives | ⟨given, _, spends⟩
  · have rounds : (Expr.concat (first :: factors)).words.walk.Gives (fun _ => True) _ :=
      gives_odometer waitingSpend gives (fun _ _ => .here trivial) #[]
    exact returns_of_gives rounds fun _ index within => absurd within (Nat.not_lt_zero index)
  · have rounds : (Expr.concat (first :: factors)).words.walk.Spends _ :=
      gives_odometer waitingSpend spends
        (fun isEnd _ => .quiet (step_odometer_exhausted isEnd) .working (spends_odometer_nil _)) #[]
    intro index within
    exact returns_of_gives rounds (fun isEnd index _ => (over_of_exhausted isEnd index).1) index
      (Nat.lt_add_left _ within)

end Words

end RegularWords
