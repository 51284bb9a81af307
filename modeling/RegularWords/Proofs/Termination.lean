import RegularWords.Proofs.Enumeration
import RegularWords.Proofs.Finishing
import RegularWords.Proofs.ParsedTree
import RegularWords.Request

/-!
Calls end, and so do requests.

Two kinds of expressions have enumerations in which every call ends: those whose unions all have
alternatives, because their wheels and levels never run empty, and those without repetitions,
because their walks come to an end altogether.  A tree that was parsed is of the first kind.  In a
tree of neither kind, with a union without alternatives behind an infinite factor, the first call
does not end.
-/

namespace RegularWords

structure Keeping (kept : Walk → Prop) : Prop where
  settles : ∀ {walk : Walk}, kept walk → walk.Settles
  step : ∀ {walk : Walk}, kept walk → kept walk.step.2

theorem keeping_fruitful : Keeping Walk.Fruitful where
  settles := Walk.settles_of_fruitful
  step := Walk.fruitful_step

theorem keeping_finishes : Keeping Walk.Finishes where
  settles := Walk.Finishes.settles
  step := Walk.finishes_step

namespace Words

/-- Taking a number of words ends: every call ends, and after as many calls, or when there is no
word left, these are the words taken and this is the enumeration behind them. -/
inductive Takes : Nat → Words → List Word → Words → Prop where
  | enough {words : Words} : Takes 0 words [] words
  | noneLeft {number : Nat} {words : Words} {pull : Pull}
      (ends : Pulling.Ends { levels := [], walk := words.walk } pull) (none : pull.word = none) :
      Takes (number + 1) words [] { walk := pull.walk }
  | word {number : Nat} {words rest : Words} {pull : Pull} {word : Word} {taken : List Word}
      (ends : Pulling.Ends { levels := [], walk := words.walk } pull)
      (some : pull.word = some word) (later : Takes number { walk := pull.walk } taken rest) :
      Takes (number + 1) words (word :: taken) rest

variable {number : Nat} {words rest : Words} {taken : List Word}

theorem Takes.collect (takes : words.Takes number taken rest) (before : List Word)
    (levels : List LevelStart) :
    (words.collect before levels number).1 = taken.reverse ++ before ∧
      (words.collect before levels number).2.2 = rest := by
  induction takes generalizing before levels with
  | enough => exact ⟨rfl, rfl⟩
  | @noneLeft number words pull ends none =>
      have pullEq : words.pull = pull := Pulling.repeat_of_ends ends
      simp only [Words.collect, pullEq, none, List.reverse_nil, List.nil_append, and_self]
  | @word number words rest pull word taken ends some later inductionHypothesis =>
      have pullEq : words.pull = pull := Pulling.repeat_of_ends ends
      obtain ⟨wordsEq, restEq⟩ :=
        inductionHypothesis (word :: before) (pull.levels.reverse ++ levels)
      simp only [Words.collect, pullEq, some, wordsEq, restEq, List.reverse_cons,
        List.append_assoc, List.singleton_append, and_self]

theorem Takes.take_eq (takes : words.Takes number taken rest) :
    words.take number = (taken, rest) := by
  obtain ⟨wordsEq, restEq⟩ := takes.collect [] []
  rw [List.append_nil] at wordsEq
  change ((words.collect [] [] number).1.reverse, (words.collect [] [] number).2.2) = _
  rw [wordsEq, restEq, List.reverse_reverse]

end Words

namespace Keeping

variable {kept : Walk → Prop}

theorem exists_ends (keeping : Keeping kept) {walk : Walk} (holds : kept walk) :
    ∃ pull, Pulling.Ends { levels := [], walk := walk } pull ∧ kept pull.walk := by
  obtain ⟨pull, ends⟩ := (keeping.settles holds).exists_ends []
  exact ⟨pull, ends, ends.kept keeping.step holds⟩

variable {words : Words}

theorem next (keeping : Keeping kept) (holds : kept words.walk) :
    words.Returns ∧ kept words.next.2.walk := by
  obtain ⟨pull, ends, atEnd⟩ := keeping.exists_ends holds
  have pullEq : words.pull = pull := Pulling.repeat_of_ends ends
  have nextEq : words.next.2.walk = pull.walk := congrArg Pull.walk pullEq
  exact ⟨⟨pull, ends⟩, nextEq ▸ atEnd⟩

theorem after (keeping : Keeping kept) (holds : kept words.walk) (number : Nat) :
    kept (words.after number).walk := by
  induction number generalizing words with
  | zero => exact holds
  | succ number inductionHypothesis => exact inductionHypothesis (keeping.next holds).2

/-- Every call returns, whatever calls came before. -/
theorem returns (keeping : Keeping kept) (holds : kept words.walk) (number : Nat) :
    (words.after number).Returns :=
  (keeping.next (keeping.after holds number)).1

theorem exists_takes (keeping : Keeping kept) (holds : kept words.walk) (number : Nat) :
    ∃ taken rest, words.Takes number taken rest := by
  induction number generalizing words with
  | zero => exact ⟨[], words, .enough⟩
  | succ number inductionHypothesis =>
      obtain ⟨pull, ends, atEnd⟩ := keeping.exists_ends holds
      cases given : pull.word with
      | none => exact ⟨[], _, .noneLeft ends given⟩
      | some word =>
          obtain ⟨taken, rest, later⟩ := @inductionHypothesis { walk := pull.walk } atEnd
          exact ⟨word :: taken, rest, .word ends given later⟩

theorem takes (keeping : Keeping kept) (holds : kept words.walk) (number : Nat) :
    words.Takes number (words.take number).1 (words.take number).2 := by
  obtain ⟨taken, rest, takes⟩ := keeping.exists_takes holds number
  rwa [takes.take_eq]

end Keeping

/-! ### Requests -/

def Request.arrange (request : Request) (taken : List Word) : List Word :=
  let kept := if request.distinct then Distinct.firsts taken else taken
  if request.sorted then request.alphabet.sort kept else kept

theorem Request.answer_eq_arrange {request : Request} {expr : Expr}
    (parsed : Grammar.parse request.alphabet request.expression = .ok expr) :
    request.answer = .ok (request.arrange (expr.words.take request.count.number).1) := by
  rw [answer, parsed]
  rfl

inductive Request.Answers (request : Request) : Except Failure (List Word) → Prop where
  | refused {error : Grammar.SyntaxError}
      (unreadable : Grammar.parse request.alphabet request.expression = .error error) :
      Answers request (.error (.notAnExpression error))
  | given {expr : Expr} {taken : List Word} {rest : Words}
      (readable : Grammar.parse request.alphabet request.expression = .ok expr)
      (takes : expr.words.Takes request.count.number taken rest) :
      Answers request (.ok (request.arrange taken))

theorem Request.answers_answer (request : Request) : request.Answers request.answer := by
  cases parsed : Grammar.parse request.alphabet request.expression with
  | error error =>
      rw [answer, parsed]
      exact .refused parsed
  | ok expr =>
      have nonempty := Grammar.unionsNonempty_of_parse parsed
      rw [answer_eq_arrange parsed]
      exact .given parsed (keeping_fruitful.takes (Walk.fruitful_start nonempty) _)

namespace Words

theorem exists_keeping {expr : Expr}
    (settled : expr.unionsNonempty = true ∨ expr.isFinite = true) :
    ∃ kept, Keeping kept ∧ kept expr.words.walk := by
  rcases settled with nonempty | finite
  · exact ⟨_, keeping_fruitful, Walk.fruitful_start nonempty⟩
  · exact ⟨_, keeping_finishes, Walk.finishes_start finite⟩

/-- Every call of an enumeration ends, and so does taking any number of words, if all unions have
alternatives or there are no repetitions.  The first is so in every tree that is parsed, so every
request is answered after finitely many steps. -/
theorem calls_end :
    (∀ expr : Expr, expr.unionsNonempty = true ∨ expr.isFinite = true → ∀ number : Nat,
      (expr.words.after number).Returns ∧
        expr.words.Takes number (expr.words.take number).1 (expr.words.take number).2) ∧
      (∀ (alphabet : Alphabet) (text : String) (expr : Expr),
        Grammar.parse alphabet text = .ok expr → expr.unionsNonempty = true) ∧
        ∀ request : Request, request.Answers request.answer := by
  refine ⟨?_, fun alphabet text expr => Grammar.unionsNonempty_of_parse,
    Request.answers_answer⟩
  intro expr settled number
  obtain ⟨kept, keeping, holds⟩ := exists_keeping settled
  exact ⟨keeping.returns holds number, keeping.takes holds number⟩

/-- In `a**` no level but the first is ever complete, and behind `a+b` a union without alternatives
leaves no word at all: the calls end all the same. -/
theorem calls_end_nested_star_and_wordless :
    (Expr.star (.star (.literal 'a'))).unionsNonempty = true ∧
      ((Expr.star (.star (.literal 'a'))).words.after 3).Returns ∧
      (Expr.concat [.union [.literal 'a', .literal 'b'], .union []]).isFinite = true ∧
      ((Expr.concat [.union [.literal 'a', .literal 'b'], .union []]).words.after 1).Returns :=
  ⟨rfl, (calls_end.1 _ (.inl rfl) 3).1, rfl, (calls_end.1 _ (.inr rfl) 1).1⟩

end Words

/-! ### Calls that do not end -/

namespace Walk

/-- Where an odometer stands whose second factor is a union without alternatives: the first wheel
turns for ever and no word is ever complete. -/
inductive TurnsForever : Walk → Prop where
  | first {factor : Expr} {mark : Nat} {cursor : Walk} {buffer : Array Char}
      (noEnd : cursor.Endless) :
      TurnsForever (.odometer [{ factor, mark, cursor }] [.union []] buffer)
  | second {factor : Expr} {mark filled : Nat} {cursor : Walk} {buffer : Array Char}
      (noEnd : cursor.Endless) :
      TurnsForever (.odometer
        [{ factor := .union [], mark := filled, cursor := .choice none [] },
          { factor, mark, cursor }] [] buffer)

theorem TurnsForever.step {walk : Walk} (turns : walk.TurnsForever) :
    ∃ event next, walk.step = (event, next) ∧ event.Quiet ∧ next.TurnsForever := by
  cases turns with
  | first noEnd =>
      rcases noEnd.step_cases with
        ⟨part, next, stepped, nextNoEnd⟩ | ⟨event, next, stepped, quiet, nextNoEnd⟩
      · exact ⟨_, _, step_odometer_word stepped (.union []), .working, .second nextNoEnd⟩
      · exact ⟨_, _, step_odometer_quiet stepped quiet, quiet, .first nextNoEnd⟩
  | second noEnd =>
      have noAlternative : (Walk.choice none []).step = (.exhausted, .choice none []) := by
        rw [Walk.step]
      exact ⟨_, _, step_odometer_exhausted noAlternative, .working, .first noEnd⟩

end Walk

theorem Pulling.Ends.not_turnsForever {pulling : Pulling} {pull : Pull}
    (ends : pulling.Ends pull) : ¬ pulling.walk.TurnsForever := by
  induction ends with
  | @now pulling pull done =>
      intro turns
      obtain ⟨event, next, stepped, quiet, _⟩ := turns.step
      cases quiet <;> simp only [advance, stepped, Id.run_pure] at done <;> cases done
  | later goesOn _ inductionHypothesis =>
      intro turns
      obtain ⟨event, next, stepped, _, nextTurns⟩ := turns.step
      apply inductionHypothesis
      rwa [walk_of_goesOn goesOn, stepped]

namespace Words

/-- A call does not end if a union without alternatives stands behind an infinite factor. -/
theorem not_returns_of_wordless {endless : Expr} (nonempty : endless.unionsNonempty = true)
    (infinite : endless.isFinite = false) :
    ¬ (Expr.concat [endless, .union []]).words.Returns := by
  rintro ⟨pull, ends⟩
  have turns : Walk.TurnsForever (Expr.concat [endless, .union []]).words.walk :=
    .first (Walk.endless_start nonempty infinite)
  exact ends.not_turnsForever turns

end Words

end RegularWords
