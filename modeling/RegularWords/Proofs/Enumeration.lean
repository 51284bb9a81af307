import RegularWords.Proofs.Settling

/-!
The words of an enumeration, call by call.

Every call of an enumeration ends and gives the next word of the listing, or none once the listing
is through.
-/

namespace RegularWords

open Stream' (Seq)

namespace Pulling

inductive Ends : Pulling → Pull → Prop where
  | now {pulling : Pulling} {pull : Pull} (done : pulling.advance.run = .inr pull) :
      Ends pulling pull
  | later {pulling next : Pulling} {pull : Pull} (goesOn : pulling.advance.run = .inl next)
      (ends : Ends next pull) : Ends pulling pull

theorem repeat_of_ends {pulling : Pulling} {pull : Pull} (ends : pulling.Ends pull) :
    (repeatM advance pulling).run = pull := by
  induction ends with
  | @now pulling pull done =>
      have body : advance pulling = pure (.inr pull) := done
      rw [repeatM_eq_of_monadTail, repeatM.body, body]
      rfl
  | @later pulling next pull goesOn ends inductionHypothesis =>
      have body : advance pulling = pure (.inl next) := goesOn
      rw [repeatM_eq_of_monadTail, repeatM.body, body]
      exact inductionHypothesis

section Advance

variable {walk next : Walk}

theorem advance_of_word {word : Word} (stepped : walk.step = (.word word, next))
    (levels : List LevelStart) :
    (advance { levels, walk }).run =
      .inr { word := some word, levels := levels.reverse, walk := next } := by
  simp only [advance, stepped]
  rfl

theorem advance_of_exhausted (stepped : walk.step = (.exhausted, next))
    (levels : List LevelStart) :
    (advance { levels, walk }).run =
      .inr { word := none, levels := levels.reverse, walk := next } := by
  simp only [advance, stepped]
  rfl

theorem exists_advance_of_quiet {event : Event} (stepped : walk.step = (event, next))
    (quiet : event.Quiet) (levels : List LevelStart) :
    ∃ noted, (advance { levels, walk }).run = .inl { levels := noted, walk := next } := by
  cases quiet with
  | working => exact ⟨levels, by simp only [advance, stepped]; rfl⟩
  | levelStarted level => exact ⟨level :: levels, by simp only [advance, stepped]; rfl⟩

end Advance

theorem walk_of_goesOn {pulling next : Pulling} (goesOn : pulling.advance.run = .inl next) :
    next.walk = pulling.walk.step.2 := by
  rcases pulling with ⟨levels, walk⟩
  rcases stepped : walk.step with ⟨event, behind⟩
  cases event <;> simp only [advance, stepped, Id.run_pure] at goesOn <;> cases goesOn <;> rfl

theorem walk_of_done {pulling : Pulling} {pull : Pull} (done : pulling.advance.run = .inr pull) :
    pull.walk = pulling.walk.step.2 := by
  rcases pulling with ⟨levels, walk⟩
  rcases stepped : walk.step with ⟨event, behind⟩
  cases event <;> simp only [advance, stepped, Id.run_pure] at done <;> cases done <;> rfl

/-- What steps keep, a pull keeps. -/
theorem Ends.kept {kept : Walk → Prop} (keeps : ∀ {walk : Walk}, kept walk → kept walk.step.2)
    {pulling : Pulling} {pull : Pull} (ends : pulling.Ends pull) (holds : kept pulling.walk) :
    kept pull.walk := by
  induction ends with
  | now done =>
      rw [walk_of_done done]
      exact keeps holds
  | later goesOn _ inductionHypothesis =>
      apply inductionHypothesis
      rw [walk_of_goesOn goesOn]
      exact keeps holds

/-- Induction on the steps of a pull: quiet ones up to a word or to an exhausted walk. -/
theorem Ends.walk_induction {motive : Walk → Option Word → Walk → Prop}
    (word : ∀ {walk next : Walk} {word : Word}, walk.step = (.word word, next) →
      motive walk (some word) next)
    (exhausted : ∀ {walk : Walk}, walk.step = (.exhausted, walk) → motive walk none walk)
    (quiet : ∀ {walk next last : Walk} {event : Event} {found : Option Word},
      walk.step = (event, next) → event.Quiet → motive next found last → motive walk found last)
    {pulling : Pulling} {pull : Pull} (ends : pulling.Ends pull) :
    motive pulling.walk pull.word pull.walk := by
  induction ends with
  | @now pulling pull done =>
      rcases pulling with ⟨levels, walk⟩
      rcases walk.step_cases with
        ⟨given, next, stepped⟩ | ⟨next, stepped⟩ | ⟨event, next, stepped, isQuiet⟩
      · rw [advance_of_word stepped] at done
        cases done
        exact word stepped
      · rw [advance_of_exhausted stepped] at done
        cases done
        obtain rfl := Walk.eq_of_exhausted stepped
        exact exhausted stepped
      · obtain ⟨noted, goesOn⟩ := exists_advance_of_quiet stepped isQuiet levels
        rw [goesOn] at done
        cases done
  | @later pulling next pull goesOn _ inductionHypothesis =>
      rcases pulling with ⟨levels, walk⟩
      rcases walk.step_cases with
        ⟨given, behind, stepped⟩ | ⟨behind, stepped⟩ | ⟨event, behind, stepped, isQuiet⟩
      · rw [advance_of_word stepped] at goesOn
        cases goesOn
      · rw [advance_of_exhausted stepped] at goesOn
        cases goesOn
      · obtain ⟨noted, stays⟩ := exists_advance_of_quiet stepped isQuiet levels
        rw [stays] at goesOn
        cases goesOn
        exact quiet stepped isQuiet inductionHypothesis

/-- Induction on the steps of a pull that finds a word. -/
theorem Ends.word_induction {motive : Walk → Walk → Prop}
    (word : ∀ {walk next : Walk} {word : Word}, walk.step = (.word word, next) →
      motive walk next)
    (quiet : ∀ {walk next last : Walk} {event : Event}, walk.step = (event, next) →
      event.Quiet → motive next last → motive walk last)
    {pulling : Pulling} {pull : Pull} (ends : pulling.Ends pull) (someWord : pull.word ≠ none) :
    motive pulling.walk pull.walk := by
  refine ends.walk_induction
    (motive := fun walk found last => found ≠ none → motive walk last) ?_ ?_ ?_ someWord
  · intro walk next given stepped _
    exact word stepped
  · intro walk stepped noWord
    exact absurd rfl noWord
  · intro walk next last event found stepped isQuiet inductionHypothesis someWord
    exact quiet stepped isQuiet (inductionHypothesis someWord)

/-- Induction on the steps of a pull that finds no word. -/
theorem Ends.end_induction {motive : Walk → Walk → Prop}
    (exhausted : ∀ {walk : Walk}, walk.step = (.exhausted, walk) → motive walk walk)
    (quiet : ∀ {walk next last : Walk} {event : Event}, walk.step = (event, next) →
      event.Quiet → motive next last → motive walk last)
    {pulling : Pulling} {pull : Pull} (ends : pulling.Ends pull) (noWord : pull.word = none) :
    motive pulling.walk pull.walk := by
  refine ends.walk_induction
    (motive := fun walk found last => found = none → motive walk last) ?_ ?_ ?_ noWord
  · intro walk next given _ noWord
    cases noWord
  · intro walk stepped _
    exact exhausted stepped
  · intro walk next last event found stepped isQuiet inductionHypothesis noWord
    exact quiet stepped isQuiet (inductionHypothesis noWord)

theorem Ends.settles {pulling : Pulling} {pull : Pull} (ends : pulling.Ends pull) :
    pulling.walk.Settles :=
  ends.walk_induction (motive := fun walk _ _ => walk.Settles) .word .exhausted .quiet

end Pulling

structure Pull.Finds (pull : Pull) (allowed : Expr → Prop) (words : Listing) : Prop where
  word : pull.word = words.head
  remaining : pull.walk.remaining = words.tail
  sound : pull.walk.Sound allowed

/-- The steps up to the next word or the end do not depend on the levels noted before. -/
theorem Walk.Settles.exists_outcome {walk : Walk} (settles : walk.Settles) :
    ∃ word last, ∀ levels, ∃ noted,
      Pulling.Ends { levels, walk } { word := word, levels := noted, walk := last } := by
  induction settles using Settles.induction with
  | @word walk next word stepped =>
      exact ⟨some word, next, fun levels => ⟨_, .now (Pulling.advance_of_word stepped levels)⟩⟩
  | @exhausted walk next stepped =>
      exact ⟨none, next, fun levels => ⟨_, .now (Pulling.advance_of_exhausted stepped levels)⟩⟩
  | quiet stepped quiet _ inductionHypothesis =>
      obtain ⟨word, last, ends⟩ := inductionHypothesis
      refine ⟨word, last, fun levels => ?_⟩
      obtain ⟨started, goesOn⟩ := Pulling.exists_advance_of_quiet stepped quiet levels
      obtain ⟨noted, endsLater⟩ := ends started
      exact ⟨noted, .later goesOn endsLater⟩

theorem Walk.Settles.exists_ends {walk : Walk} (settles : walk.Settles)
    (levels : List LevelStart) : ∃ pull, Pulling.Ends { levels, walk } pull := by
  obtain ⟨word, last, ends⟩ := settles.exists_outcome
  obtain ⟨noted, endsHere⟩ := ends levels
  exact ⟨_, endsHere⟩

/-- The loop of a pull ends if the walk settles, and then it has found the next word to come. -/
theorem Walk.Settles.ends {allowed : Expr → Prop} (hereditary : Hereditary allowed) {walk : Walk}
    (settles : walk.Settles) (sound : walk.Sound allowed) (levels : List LevelStart) :
    ∃ pull, Pulling.Ends { levels, walk } pull ∧ pull.Finds allowed walk.remaining := by
  have advances := step_advances sound
  have nextSound := sound_step hereditary sound
  induction settles using Settles.induction generalizing levels with
  | word stepped =>
      rw [stepped] at advances nextSound
      refine ⟨_, .now (Pulling.advance_of_word stepped levels), ?_, ?_, nextSound⟩
      · rw [advances, Seq.head_cons]
      · rw [advances, Seq.tail_cons]
  | exhausted stepped =>
      rw [stepped] at advances nextSound
      refine ⟨_, .now (Pulling.advance_of_exhausted stepped levels), ?_, ?_, nextSound⟩
      · rw [advances.1, Seq.head_nil]
      · rw [advances.1, Seq.tail_nil, advances.2]
  | @quiet walk next event stepped quiet _ inductionHypothesis =>
      rw [stepped] at advances nextSound
      have same : walk.remaining = next.remaining := by
        cases quiet with
        | working => exact advances
        | levelStarted level => exact advances
      obtain ⟨noted, goesOn⟩ := Pulling.exists_advance_of_quiet stepped quiet levels
      obtain ⟨pull, ends, finds⟩ := inductionHypothesis nextSound noted (step_advances nextSound)
        (sound_step hereditary nextSound)
      exact ⟨pull, .later goesOn ends, same ▸ finds⟩

namespace Words

def Returns (words : Words) : Prop :=
  ∃ pull, Pulling.Ends { levels := [], walk := words.walk } pull

def after : Nat → Words → Words
  | 0, words => words
  | number + 1, words => after number words.next.2

theorem next_of_ends {walk : Walk} {pull : Pull} (ends : Pulling.Ends { levels := [], walk } pull) :
    next { walk } = (pull.word, { walk := pull.walk }) := by
  have pullEq : Words.pull { walk } = pull := Pulling.repeat_of_ends ends
  simp only [next, pullEq]

theorem Returns.exists_next {words : Words} (returns : words.Returns) :
    ∃ pull, Pulling.Ends { levels := [], walk := words.walk } pull ∧
      words.next = (pull.word, { walk := pull.walk }) := by
  obtain ⟨pull, ends⟩ := returns
  exact ⟨pull, ends, next_of_ends ends⟩

/-- The words to come of an enumeration in which every call ends. -/
structure Lists (words : Words) (listing : Listing) : Prop where
  fruitful : words.walk.Fruitful
  remaining : words.walk.remaining = listing

theorem lists_words {expr : Expr} (nonempty : expr.unionsNonempty = true) :
    expr.words.Lists expr.listing where
  fruitful := Walk.fruitful_start nonempty
  remaining := Walk.remaining_start expr

variable {words : Words} {listing : Listing}

/-- A call ends with the next word to come if the walk settles. -/
theorem pull_finds {allowed : Expr → Prop} (hereditary : Hereditary allowed)
    (settles : words.walk.Settles) (sound : words.walk.Sound allowed) :
    words.Returns ∧ words.pull.Finds allowed words.walk.remaining := by
  obtain ⟨pull, ends, finds⟩ := settles.ends hereditary sound []
  have pullEq : words.pull = pull := Pulling.repeat_of_ends ends
  rw [pullEq]
  exact ⟨⟨pull, ends⟩, finds⟩

theorem Lists.pull (lists : words.Lists listing) :
    words.Returns ∧
      words.pull.Finds (fun expr => expr.unionsNonempty = true) listing := by
  rw [← lists.remaining]
  exact pull_finds hereditary_unionsNonempty (Walk.settles_of_fruitful lists.fruitful)
    lists.fruitful

/-- A call ends with the first word to come and leaves the others. -/
theorem Lists.next (lists : words.Lists listing) :
    words.Returns ∧ words.next.1 = listing.head ∧ words.next.2.Lists listing.tail := by
  obtain ⟨returns, finds⟩ := lists.pull
  exact ⟨returns, finds.word, finds.sound, finds.remaining⟩

theorem Lists.after (lists : words.Lists listing) (number : Nat) :
    (words.after number).Lists (listing.drop number) := by
  induction number generalizing words listing with
  | zero => exact lists
  | succ number inductionHypothesis =>
      have rest := inductionHypothesis lists.next.2.2
      rwa [Seq.dropn_tail] at rest

theorem Lists.call (lists : words.Lists listing) (number : Nat) :
    (words.after number).Returns ∧ (words.after number).next.1 = listing.get? number := by
  obtain ⟨returns, gives, _⟩ := (lists.after number).next
  rw [Seq.head_dropn] at gives
  exact ⟨returns, gives⟩

theorem Lists.collect (lists : words.Lists listing) (taken : List Word)
    (levels : List LevelStart) (number : Nat) :
    (words.collect taken levels number).1 = (listing.take number).reverse ++ taken := by
  induction number generalizing words listing taken levels with
  | zero => rfl
  | succ number inductionHypothesis =>
      obtain ⟨_, finds⟩ := lists.pull
      have rest : Lists { walk := words.pull.walk } listing.tail := ⟨finds.sound, finds.remaining⟩
      have word := finds.word
      cases listing with
      | nil =>
          rw [Seq.head_nil] at word
          simp only [Words.collect, word, Seq.take_nil]
          rfl
      | cons next listing =>
          rw [Seq.head_cons] at word
          rw [Seq.tail_cons] at rest
          simp only [Words.collect, word, inductionHypothesis rest, Seq.take_succ_cons,
            List.reverse_cons, List.append_assoc, List.singleton_append]

theorem Lists.take (lists : words.Lists listing) (number : Nat) :
    (words.take number).1 = listing.take number := by
  change (words.collect [] [] number).1.reverse = listing.take number
  rw [lists.collect, List.append_nil, List.reverse_reverse]

/-- Call by call, the enumeration of an expression gives its listing: the first calls give its first
items, and the call behind them ends with the next item, or with none exactly if the listing ends
there. -/
theorem words_in_listing_order {expr : Expr} (nonempty : expr.unionsNonempty = true)
    (number : Nat) :
    (expr.words.take number).1 = expr.listing.take number ∧
      (expr.words.after number).Returns ∧
        (expr.words.after number).next.1 = expr.listing.get? number ∧
          ((expr.words.after number).next.1 = none ↔ expr.listing.TerminatedAt number) := by
  have lists := lists_words nonempty
  obtain ⟨returns, gives⟩ := lists.call number
  exact ⟨lists.take number, returns, gives, by rw [gives]; rfl⟩

/-- In `(a+@)*` the word `a` comes three times among the first six. -/
theorem words_in_listing_order_star_union :
    (Expr.star (.union [.literal 'a', .empty])).unionsNonempty = true ∧
      ((Expr.star (.union [.literal 'a', .empty])).words.take 6).1 =
        [[], ['a'], [], ['a', 'a'], ['a'], ['a']] ∧
      ((Expr.star (.union [.literal 'a', .empty])).words.after 6).next.1 = some [] :=
  ⟨rfl, (words_in_listing_order rfl 6).1, (words_in_listing_order rfl 6).2.2.1⟩

end Words

end RegularWords
