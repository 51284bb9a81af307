import Mathlib.Data.List.Indexes
import RegularWords.Proofs.Counting
import RegularWords.Proofs.Visits

/-!
What a repetition remembers of its levels.

The present level of a repetition is all concatenations of as many words of the inside, in order
and with repeats.  What has been found of the next level begins it: every extension of the words
that the repetition is through with, and of the present one those that its cursor has given.  No
word is given that is not found, so the words given are those of all levels up to the present one
and then those found.
-/

namespace RegularWords

open Stream' (Seq)

namespace Listing

/-- All concatenations of a number of words, the first of them in the outermost loop. -/
def power (inner : Listing) : Nat → Listing
  | 0 => single []
  | number + 1 => product (power inner number) inner

theorem power_ne_nil {inner : Listing} (someWord : inner ≠ .nil) (number : Nat) :
    power inner number ≠ .nil := by
  induction number with
  | zero => exact Seq.cons_ne_nil
  | succ number inductionHypothesis =>
      rw [power, ne_eq, product_eq_nil_iff, not_or]
      exact ⟨inductionHypothesis, someWord⟩

end Listing

/-! ### What a walk has given and has still to give -/

namespace Walk

variable {origin walk next : Walk} {words : List Word} {started : List LevelStart}

/-- What every step keeps is so wherever a walk passes. -/
theorem Passes.kept {kept : Walk → Prop} (keeps : ∀ {walk : Walk}, kept walk → kept walk.step.2)
    (passes : origin.Passes words started walk) (holds : kept origin) : kept walk := by
  have goesOn : ∀ {walk next : Walk} {event : Event}, kept walk → walk.step = (event, next) →
      kept next := by
    intro walk next event held stepped
    have behind := keeps held
    rwa [stepped] at behind
  induction passes with
  | nothing => exact holds
  | word _ stepped inductionHypothesis => exact goesOn inductionHypothesis stepped
  | working _ stepped inductionHypothesis => exact goesOn inductionHypothesis stepped
  | levelStarted _ stepped inductionHypothesis => exact goesOn inductionHypothesis stepped

theorem Passes.remaining_eq (passes : origin.Passes words started walk)
    (fruitful : origin.Fruitful) :
    origin.remaining = (Seq.ofList words).append walk.remaining := by
  induction passes with
  | nothing => rw [Seq.ofList_nil, Seq.nil_append]
  | word passes stepped inductionHypothesis =>
      obtain ⟨gives, _⟩ := (passes.kept fruitful_step fruitful).word stepped
      rw [inductionHypothesis, gives, Seq.ofList_append, Seq.ofList_cons, Seq.ofList_nil,
        Seq.append_assoc, Seq.cons_append, Seq.nil_append]
  | working passes stepped inductionHypothesis =>
      obtain ⟨same, _⟩ := (passes.kept fruitful_step fruitful).quiet stepped .working
      rw [inductionHypothesis, same]
  | levelStarted passes stepped inductionHypothesis =>
      obtain ⟨same, _⟩ := (passes.kept fruitful_step fruitful).quiet stepped (.levelStarted _)
      rw [inductionHypothesis, same]

theorem HasGiven.listing_eq {inner : Expr} (nonempty : inner.unionsNonempty = true)
    (hasGiven : (start inner).HasGiven words walk) :
    inner.listing = (Seq.ofList words.reverse).append walk.remaining := by
  obtain ⟨_, passes⟩ := hasGiven
  rw [← remaining_start, passes.remaining_eq (fruitful_start nonempty)]

theorem HasGiven.fruitful {inner : Expr} (nonempty : inner.unionsNonempty = true)
    (hasGiven : (start inner).HasGiven words walk) : walk.Fruitful := by
  obtain ⟨_, passes⟩ := hasGiven
  exact passes.kept fruitful_step (fruitful_start nonempty)

/-! ### Repetitions inside -/

theorem hereditary_smaller (bound : Nat) : Hereditary fun expr => sizeOf expr < bound where
  concat := by
    intro factors small factor isFactor
    have smaller := List.sizeOf_lt_of_mem isFactor
    rw [Expr.concat.sizeOf_spec] at small
    omega
  union := by
    intro alternatives small alternative isAlternative
    have smaller := List.sizeOf_lt_of_mem isAlternative
    rw [Expr.union.sizeOf_spec] at small
    omega
  star := by
    intro inner small
    rw [Expr.star.sizeOf_spec] at small
    omega

/-- A walk through an expression starts smaller ones only. -/
theorem sound_start_smaller (expr : Expr) :
    (start expr).Sound fun part => sizeOf part < sizeOf expr := by
  cases expr with
  | literal symbol => simp [start, Sound]
  | empty => simp [start, Sound]
  | concat factors =>
      cases factors with
      | nil => simp [start, Sound]
      | cons factor factors =>
          have smaller : ∀ operand ∈ factor :: factors,
              sizeOf operand < sizeOf (Expr.concat (factor :: factors)) := by
            intro operand isOperand
            have operandSmaller := List.sizeOf_lt_of_mem isOperand
            rw [Expr.concat.sizeOf_spec]
            omega
          obtain ⟨firstSmaller, laterSmaller⟩ := List.forall_mem_cons.mp smaller
          rw [start, Sound, SoundWheels, SoundWheels]
          exact ⟨⟨Nat.zero_le _, firstSmaller,
            sound_start (hereditary_smaller _) factor firstSmaller, trivial⟩, laterSmaller⟩
  | union alternatives =>
      rw [start, Sound]
      intro alternative isAlternative
      have smaller := List.sizeOf_lt_of_mem isAlternative
      rw [Expr.union.sizeOf_spec]
      omega
  | star inner =>
      rw [start, Sound, Expr.star.sizeOf_spec]
      omega

theorem allowed_of_levelStarted {allowed : Expr → Prop} {level : LevelStart}
    (sound : walk.Sound allowed) (stepped : walk.step = (.levelStarted level, next)) :
    allowed level.inner := by
  fun_induction step walk generalizing next with
  | case8 factor mark cursor wheels waiting buffer inside reached steppedInside
      inductionHypothesis =>
      cases stepped
      rw [Sound, SoundWheels] at sound
      exact inductionHypothesis sound.1.2.2.1 steppedInside
  | case13 current pending inside reached steppedInside inductionHypothesis =>
      cases stepped
      rw [Sound] at sound
      exact inductionHypothesis sound.1 steppedInside
  | case20 inner levels stem cursor inside reached steppedInside inductionHypothesis =>
      cases stepped
      rw [Sound] at sound
      exact inductionHypothesis sound.2 steppedInside
  | case23 inner levels through someFound =>
      cases stepped
      rw [Sound] at sound
      exact sound
  | _ => cases stepped

end Walk

/-! ### Levels -/

/-- What a repetition with some complete levels has found: the extensions of the words it is through
with, and then some of the present one. -/
structure Frontiers (inner : Expr) (complete : List (List Word)) (extensions : List Word)
    (levels : Levels) : Prop where
  level : ∀ {number : Nat} {words : List Word}, complete[number]? = some words →
    Seq.ofList words = Listing.power inner.listing number
  depth : complete.length = levels.number + 1
  present : complete[levels.number]? = some levels.frontier.toList
  found : Seq.ofList levels.found.toList =
    (Listing.product (Seq.ofList (levels.frontier.toList.take levels.index)) inner.listing).append
      (Seq.ofList extensions)

/-- What has been found of the word that is being extended, if there is one: what its cursor has
given, put behind it. -/
inductive Growing (inner : Expr) (levels : Levels) : Option (Growth Walk) → List Word → Prop where
  | none : Growing inner levels none []
  | some {stem : Word} {cursor : Walk} {given : List Word}
      (inRange : levels.frontier[levels.index]? = some stem)
      (hasGiven : (Walk.start inner).HasGiven given cursor) :
      Growing inner levels (some { stem, cursor }) (given.reverse.map (stem ++ ·))

def ownLevels (inner : Expr) (started : List LevelStart) : List LevelStart :=
  started.filter fun level => level.inner = inner

def levelStarts (inner : Expr) (complete : List (List Word)) : List LevelStart :=
  complete.tail.mapIdx fun index level => { inner, number := index + 1, size := level.length }

/-- Where a repetition stands that has given some words and started some levels. -/
inductive Repeats (inner : Expr) : List Word → List LevelStart → Walk → Prop where
  | unrepeated : Repeats inner [] [] (.unrepeated inner)
  | repetition {complete : List (List Word)} {extensions words : List Word} {levels : Levels}
      {growth : Option (Growth Walk)} {started : List LevelStart}
      (frontiers : Frontiers inner complete extensions levels)
      (growing : Growing inner levels growth extensions)
      (given : words = complete.flatten ++ levels.found.toList)
      (own : ownLevels inner started = levelStarts inner complete) :
      Repeats inner words started (.repetition inner levels growth)

section Steps

variable {inner : Expr} {complete : List (List Word)} {extensions : List Word} {levels : Levels}

theorem frontiers_first (inner : Expr) : Frontiers inner [[[]]] [] .first where
  level := by
    intro number words isLevel
    cases number with
    | zero =>
        cases isLevel
        exact (Listing.single_eq_ofList []).symm
    | succ number => cases isLevel
  depth := rfl
  present := rfl
  found := by
    change Seq.ofList [] = (Listing.product (Seq.ofList []) inner.listing).append (Seq.ofList [])
    rw [Seq.ofList_nil, Listing.nil_product, Seq.nil_append]

theorem Frontiers.record (frontiers : Frontiers inner complete extensions levels) (word : Word) :
    Frontiers inner complete (extensions ++ [word]) (levels.record word) where
  level := frontiers.level
  depth := frontiers.depth
  present := frontiers.present
  found := by
    change Seq.ofList (levels.found.push word).toList = _
    rw [Array.toList_push, Seq.ofList_append, frontiers.found, Seq.append_assoc, Seq.ofList_append]
    rfl

/-- The cursor of the present word is exhausted. -/
theorem Frontiers.turn {stem : Word} {given : List Word}
    (frontiers : Frontiers inner complete (given.map (stem ++ ·)) levels)
    (inRange : levels.frontier[levels.index]? = some stem)
    (whole : inner.listing = Seq.ofList given) : Frontiers inner complete [] levels.turn where
  level := frontiers.level
  depth := frontiers.depth
  present := frontiers.present
  found := by
    have atList : levels.frontier.toList[levels.index]? = some stem := by
      rw [Array.getElem?_toList, inRange]
    have extended : Listing.product (Seq.ofList [stem]) inner.listing =
        Seq.ofList (given.map (stem ++ ·)) := by
      rw [← Listing.single_eq_ofList, Listing.product_single, whole, Listing.ofList_map]
    change Seq.ofList levels.found.toList = (Listing.product
      (Seq.ofList (levels.frontier.toList.take (levels.index + 1))) inner.listing).append
        (Seq.ofList [])
    rw [List.take_add_one, atList, Option.toList_some, Seq.ofList_append, Listing.append_product,
      extended, Seq.ofList_nil, Seq.append_nil, frontiers.found]

/-- Through with the present level, a repetition has found the next one. -/
theorem Frontiers.found_eq (frontiers : Frontiers inner complete [] levels)
    (through : levels.frontier[levels.index]? = none) :
    Seq.ofList levels.found.toList = Listing.power inner.listing (levels.number + 1) := by
  have all : levels.frontier.toList.take levels.index = levels.frontier.toList := by
    apply List.take_of_length_le
    rw [Array.length_toList]
    exact Array.getElem?_eq_none_iff.mp through
  rw [frontiers.found, all, Seq.ofList_nil, Seq.append_nil, frontiers.level frontiers.present,
    Listing.power]

theorem Frontiers.advance (frontiers : Frontiers inner complete [] levels)
    (through : levels.frontier[levels.index]? = none) :
    Frontiers inner (complete ++ [levels.found.toList]) [] levels.advance where
  level := by
    intro number words isLevel
    rcases getElem?_concat_cases isLevel with earlier | ⟨rfl, rfl⟩
    · exact frontiers.level earlier
    · rw [frontiers.depth]
      exact frontiers.found_eq through
  depth := by
    rw [List.length_append, frontiers.depth]
    rfl
  present := by
    change (complete ++ [levels.found.toList])[levels.number + 1]? = some levels.found.toList
    rw [← frontiers.depth, List.getElem?_concat_length]
  found := by
    change Seq.ofList [] =
      (Listing.product (Seq.ofList (levels.found.toList.take 0)) inner.listing).append
        (Seq.ofList [])
    rw [List.take_zero, Seq.ofList_nil, Listing.nil_product, Seq.nil_append]

theorem levelStarts_concat (someLevel : complete ≠ []) (words : List Word) :
    levelStarts inner (complete ++ [words]) =
      levelStarts inner complete ++
        [{ inner, number := complete.length, size := words.length }] := by
  obtain ⟨first, later, rfl⟩ := List.exists_cons_of_ne_nil someLevel
  simp [levelStarts, List.mapIdx_append]

/-- What has been found begins the next level. -/
theorem Frontiers.exists_rest (nonempty : inner.unionsNonempty = true)
    (frontiers : Frontiers inner complete extensions levels) {growth : Option (Growth Walk)}
    (growing : Growing inner levels growth extensions) :
    ∃ rest, Listing.power inner.listing (levels.number + 1) =
      (Seq.ofList levels.found.toList).append rest := by
  have next : Listing.power inner.listing (levels.number + 1) =
      (Listing.product (Seq.ofList (levels.frontier.toList.take levels.index))
        inner.listing).append (levels.extensionsFrom levels.index inner.listing) := by
    rw [Listing.power, ← frontiers.level frontiers.present, Levels.extensionsFrom,
      ← Listing.append_product, ← Seq.ofList_append, List.take_append_drop]
  rw [next, frontiers.found]
  cases growing with
  | none =>
      rw [Seq.ofList_nil, Seq.append_nil]
      exact ⟨_, rfl⟩
  | @some stem cursor given inRange hasGiven =>
      have extended : inner.listing.map (stem ++ ·) =
          (Seq.ofList (given.reverse.map (stem ++ ·))).append
            (cursor.remaining.map (stem ++ ·)) := by
        rw [hasGiven.listing_eq nonempty, Seq.map_append, Listing.ofList_map]
      rw [levels.extensionsFrom_of_some _ inRange, extended, Seq.append_assoc, ← Seq.append_assoc]
      exact ⟨_, rfl⟩

theorem Frontiers.complete_ne_nil (frontiers : Frontiers inner complete extensions levels) :
    complete ≠ [] := by
  rintro rfl
  cases frontiers.depth

theorem Frontiers.someFound (nonempty : inner.unionsNonempty = true)
    (frontiers : Frontiers inner complete [] levels)
    (through : levels.frontier[levels.index]? = none) : levels.found.isEmpty = false := by
  rw [← Bool.not_eq_true, Array.isEmpty_iff]
  intro noneFound
  have next := frontiers.found_eq through
  rw [noneFound] at next
  exact Listing.power_ne_nil (Expr.listing_ne_nil nonempty) _ next.symm

theorem ownLevels_concat_own (started : List LevelStart) (number size : Nat) :
    ownLevels inner (started ++ [⟨inner, number, size⟩]) =
      ownLevels inner started ++ [⟨inner, number, size⟩] := by
  simp [ownLevels]

theorem ownLevels_concat_other {level : LevelStart} (other : level.inner ≠ inner)
    (started : List LevelStart) :
    ownLevels inner (started ++ [level]) = ownLevels inner started := by
  simp [ownLevels, other]

/-- The levels that are started inside are of repetitions inside. -/
theorem Walk.HasGiven.other_level {cursor next : Walk} {given : List Word} {level : LevelStart}
    (hasGiven : (Walk.start inner).HasGiven given cursor)
    (stepped : cursor.step = (.levelStarted level, next)) : level.inner ≠ inner := by
  obtain ⟨_, passes⟩ := hasGiven
  have sound := passes.kept (Walk.sound_step (Walk.hereditary_smaller _))
    (Walk.sound_start_smaller inner)
  have smaller := Walk.allowed_of_levelStarted sound stepped
  rintro rfl
  exact Nat.lt_irrefl _ smaller

/-- A repetition is never exhausted, and each other step keeps its levels in order. -/
theorem Repeats.step_cases {words : List Word} {started : List LevelStart} {walk : Walk}
    (nonempty : inner.unionsNonempty = true) (repeats : Repeats inner words started walk) :
    (∃ word next, walk.step = (.word word, next) ∧
      Repeats inner (words ++ [word]) started next) ∨
      (∃ next, walk.step = (.working, next) ∧ Repeats inner words started next) ∨
        ∃ level next, walk.step = (.levelStarted level, next) ∧
          Repeats inner words (started ++ [level]) next := by
  cases repeats with
  | unrepeated =>
      refine .inl ⟨[], .repetition inner .first none, by rw [Walk.step], ?_⟩
      exact .repetition (frontiers_first inner) .none rfl rfl
  | @repetition complete extensions _ levels growth _ frontiers growing given own =>
      subst given
      cases growing with
      | none =>
          cases atIndex : levels.frontier[levels.index]? with
          | some stem =>
              refine .inr (.inl ⟨_, Walk.step_repetition_stem atIndex, ?_⟩)
              exact .repetition frontiers (.some atIndex .nothing) rfl own
          | none =>
              refine .inr (.inr ⟨_, _,
                Walk.step_repetition_level atIndex (frontiers.someFound nonempty atIndex), ?_⟩)
              refine .repetition (frontiers.advance atIndex) .none ?_ ?_
              · rw [List.flatten_append, List.flatten_singleton]
                exact (List.append_nil _).symm
              · rw [ownLevels_concat_own, own, levelStarts_concat frontiers.complete_ne_nil,
                  frontiers.depth]
                rfl
      | @some stem cursor given inRange hasGiven =>
          rcases cursor.step_cases with
            ⟨suffix, next, stepped⟩ | ⟨next, stepped⟩ | ⟨event, next, stepped, quiet⟩
          · have grown : Growing inner (levels.record (stem ++ suffix))
                (some { stem, cursor := next }) ((suffix :: given).reverse.map (stem ++ ·)) :=
              .some inRange (hasGiven.word stepped)
            rw [List.reverse_cons, List.map_append] at grown
            refine .inl ⟨_, _, Walk.step_repetition_word stepped,
              .repetition (frontiers.record _) grown ?_ own⟩
            change _ = complete.flatten ++ (levels.found.push (stem ++ suffix)).toList
            rw [Array.toList_push, List.append_assoc]
          · have whole := hasGiven.listing_eq nonempty
            rw [(hasGiven.fruitful nonempty).exhausted stepped, Seq.append_nil] at whole
            exact .inr (.inl ⟨_, Walk.step_repetition_exhausted stepped,
              .repetition (frontiers.turn inRange whole) .none rfl own⟩)
          · have grown := Growing.some inRange (hasGiven.quiet stepped quiet)
            cases quiet with
            | working =>
                exact .inr (.inl ⟨_, Walk.step_repetition_quiet stepped .working,
                  .repetition frontiers grown rfl own⟩)
            | levelStarted level =>
                refine .inr (.inr ⟨_, _, Walk.step_repetition_quiet stepped (.levelStarted level),
                  .repetition frontiers grown rfl ?_⟩)
                rw [ownLevels_concat_other (hasGiven.other_level stepped), own]

theorem Repeats.frontier {words : List Word} {started : List LevelStart}
    {growth : Option (Growth Walk)} (nonempty : inner.unionsNonempty = true)
    (repeats : Repeats inner words started (.repetition inner levels growth)) :
    Seq.ofList levels.frontier.toList = Listing.power inner.listing levels.number ∧
      ∃ rest, Listing.power inner.listing (levels.number + 1) =
        (Seq.ofList levels.found.toList).append rest := by
  cases repeats with
  | repetition frontiers growing _ _ =>
      exact ⟨frontiers.level frontiers.present, frontiers.exists_rest nonempty growing⟩

theorem Repeats.of_passes {words : List Word} {started : List LevelStart} {walk : Walk}
    (nonempty : inner.unionsNonempty = true)
    (passes : (Walk.start (.star inner)).Passes words started walk) :
    Repeats inner words started walk := by
  induction passes with
  | nothing =>
      rw [Walk.start]
      exact .unrepeated
  | word _ stepped inductionHypothesis =>
      rcases inductionHypothesis.step_cases nonempty with
        ⟨_, _, steppedToo, repeats⟩ | ⟨_, steppedToo, _⟩ | ⟨_, _, steppedToo, _⟩
      all_goals cases stepped.symm.trans steppedToo
      exact repeats
  | working _ stepped inductionHypothesis =>
      rcases inductionHypothesis.step_cases nonempty with
        ⟨_, _, steppedToo, _⟩ | ⟨_, steppedToo, repeats⟩ | ⟨_, _, steppedToo, _⟩
      all_goals cases stepped.symm.trans steppedToo
      exact repeats
  | levelStarted _ stepped inductionHypothesis =>
      rcases inductionHypothesis.step_cases nonempty with
        ⟨_, _, steppedToo, _⟩ | ⟨_, steppedToo, _⟩ | ⟨_, _, steppedToo, repeats⟩
      all_goals cases stepped.symm.trans steppedToo
      exact repeats

end Steps

/-! ### Calls -/

/-- A call passes on by the word it gives, if any, and the levels it notes. -/
theorem Pulling.Ends.passes {origin : Walk} {words : List Word} {started : List LevelStart}
    {pulling : Pulling} {pull : Pull} (ends : pulling.Ends pull)
    (passes : origin.Passes words (started ++ pulling.levels.reverse) pulling.walk) :
    origin.Passes (words ++ pull.word.toList) (started ++ pull.levels) pull.walk := by
  induction ends with
  | @now pulling pull done =>
      rcases pulling with ⟨levels, walk⟩
      rcases walk.step_cases with
        ⟨word, next, stepped⟩ | ⟨next, stepped⟩ | ⟨event, next, stepped, quiet⟩
      · rw [advance_of_word stepped] at done
        cases done
        exact passes.word stepped
      · rw [advance_of_exhausted stepped] at done
        cases done
        obtain rfl := Walk.eq_of_exhausted stepped
        rw [Option.toList_none, List.append_nil]
        exact passes
      · obtain ⟨noted, goesOn⟩ := exists_advance_of_quiet stepped quiet levels
        rw [goesOn] at done
        cases done
  | @later pulling next pull goesOn _ inductionHypothesis =>
      rcases pulling with ⟨levels, walk⟩
      apply inductionHypothesis
      rcases walk.step_cases with
        ⟨word, behind, stepped⟩ | ⟨behind, stepped⟩ | ⟨event, behind, stepped, quiet⟩
      · rw [advance_of_word stepped] at goesOn
        cases goesOn
      · rw [advance_of_exhausted stepped] at goesOn
        cases goesOn
      · cases quiet with
        | working =>
            simp only [advance, stepped] at goesOn
            cases goesOn
            exact passes.working stepped
        | levelStarted level =>
            simp only [advance, stepped] at goesOn
            cases goesOn
            rw [List.reverse_cons, ← List.append_assoc]
            exact passes.levelStarted stepped

namespace Words

variable {rest : Words}

theorem NeverEnds.first (noEnd : rest.NeverEnds) :
    ∃ pull word, Pulling.Ends { levels := [], walk := rest.walk } pull ∧ pull.word = some word ∧
      NeverEnds { walk := pull.walk } := by
  obtain ⟨pull, ends⟩ : rest.Returns := noEnd.returns 0
  have gives : rest.next.1.isSome = true := noEnd.gives 0
  have nextEq : rest.next = (pull.word, { walk := pull.walk }) := next_of_ends ends
  rw [nextEq, Option.isSome_iff_exists] at gives
  obtain ⟨word, given⟩ := gives
  refine ⟨pull, word, ends, given, ?_, ?_⟩
  · intro index
    rw [← after_succ_of_ends ends]
    exact noEnd.returns (index + 1)
  · intro index
    rw [← after_succ_of_ends ends]
    exact noEnd.gives (index + 1)

theorem NeverEnds.passes_collect {origin : Walk} {words : List Word} {levels : List LevelStart}
    (noEnd : rest.NeverEnds) (passes : origin.Passes words.reverse levels.reverse rest.walk)
    (number : Nat) :
    origin.Passes (rest.collect words levels number).1.reverse
        (rest.collect words levels number).2.1.reverse (rest.after number).walk ∧
      (rest.collect words levels number).1.length = words.length + number := by
  induction number generalizing words levels rest with
  | zero => exact ⟨passes, rfl⟩
  | succ number inductionHypothesis =>
      obtain ⟨pull, word, ends, given, laterNoEnd⟩ := noEnd.first
      have pullEq : rest.pull = pull := Pulling.repeat_of_ends ends
      rw [← List.append_nil levels.reverse] at passes
      have onward := ends.passes passes
      rw [given, Option.toList_some, ← List.reverse_cons] at onward
      have behind : levels.reverse ++ pull.levels = (pull.levels.reverse ++ levels).reverse := by
        rw [List.reverse_append, List.reverse_reverse]
      rw [behind] at onward
      obtain ⟨later, length⟩ := inductionHypothesis laterNoEnd onward
      rw [after_succ_of_ends ends]
      simp only [Words.collect, pullEq, given]
      refine ⟨later, ?_⟩
      rw [length, List.length_cons]
      exact Nat.succ_add_eq_add_succ _ _

/-- After any number of calls, each of which gives a word, a repetition stands where its words and
the levels it has started say.  The present level is all concatenations of as many words of the
inside.  What has been found of the next level begins it: the extensions of the words up to the
index, and of the word there those that the cursor has given. -/
theorem repetition_frontiers {inner : Expr} (nonempty : inner.unionsNonempty = true)
    (number : Nat) :
    let words := (Expr.star inner).words
    (words.take number).1.length = number ∧
      Repeats inner (words.take number).1 (words.levelsStarted number) (words.after number).walk ∧
        ∀ levels growth, (words.after number).walk = .repetition inner levels growth →
          Seq.ofList levels.frontier.toList = Listing.power inner.listing levels.number ∧
            ∃ rest, Listing.power inner.listing (levels.number + 1) =
              (Seq.ofList levels.found.toList).append rest := by
  intro words
  have noEnd : words.NeverEnds := neverEnds_of_infinite nonempty rfl
  have atStart : (Walk.start (.star inner)).Passes ([] : List Word).reverse
      ([] : List LevelStart).reverse words.walk := .nothing
  obtain ⟨passes, length⟩ := noEnd.passes_collect atStart number
  have repeats := Repeats.of_passes nonempty passes
  refine ⟨?_, repeats, ?_⟩
  · rw [List.length_nil, Nat.zero_add] at length
    exact List.length_reverse.trans length
  · intro levels growth stands
    rw [stands] at repeats
    exact repeats.frontier nonempty

/-- In `(a+@)*` the second level begins when `a` and the empty word have been found. -/
theorem repetition_frontiers_repeats :
    let inner := Expr.union [.literal 'a', .empty]
    let words := (Expr.star inner).words
    inner.unionsNonempty = true ∧ (words.take 4).1 = [[], ['a'], [], ['a', 'a']] ∧
      Repeats inner [[], ['a'], [], ['a', 'a']] (words.levelsStarted 4) (words.after 4).walk := by
  intro inner words
  have taken : (words.take 4).1 = [[], ['a'], [], ['a', 'a']] := (words_in_listing_order rfl 4).1
  obtain ⟨_, repeats, _⟩ := repetition_frontiers (show inner.unionsNonempty = true from rfl) 4
  rw [taken] at repeats
  exact ⟨rfl, taken, repeats⟩

end Words

end RegularWords
