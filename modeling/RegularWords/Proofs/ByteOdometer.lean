import RegularWords.Proofs.Visits

/-!
Odometers on bytes.

An odometer can keep its word as bytes, with a stack of cursors and a stack of lengths: for each
cursor how many bytes the parts before its own one take.  A turn reads both stacks and the factors
at a depth, and cuts the word back to a length.  Neither is possible everywhere, for there may be no
such place, and a cut may split a character.  Step by step this odometer does what the walk does, so
that none of it ever fails.
-/

namespace RegularWords

/-! ### Cutting texts -/

namespace Text

/-- Cuts a text back to a length in bytes, as it is documented of byte strings: a length beyond the
end has no effect, and one that lies within a character is an error. -/
def cutBack (text : String) (length : Nat) : Option String :=
  if text.utf8ByteSize < length then
    some text
  else if isBoundary : String.Pos.Raw.IsValid text ⟨length⟩ then
    some (text.sliceTo ⟨⟨length⟩, isBoundary⟩).copy
  else
    none

theorem isValid_append (kept behind : String) :
    String.Pos.Raw.IsValid (kept ++ behind) ⟨kept.utf8ByteSize⟩ :=
  String.Pos.Raw.isValid_iff_exists_append.mpr ⟨kept, behind, rfl, rfl⟩

theorem cutBack_append (kept behind : String) :
    cutBack (kept ++ behind) kept.utf8ByteSize = some kept := by
  have notShorter : ¬ (kept ++ behind).utf8ByteSize < kept.utf8ByteSize := by
    rw [String.utf8ByteSize_append]
    exact Nat.not_lt.mpr (Nat.le_add_right _ _)
  let place : (kept ++ behind).Pos := ⟨⟨kept.utf8ByteSize⟩, isValid_append kept behind⟩
  have splits : place.Splits kept behind := ⟨rfl, rfl⟩
  rw [cutBack, if_neg notShorter, dif_pos (isValid_append kept behind)]
  exact congrArg some (place.splits.eq_left splits)

/-- The second byte of `é` starts no character. -/
example : cutBack "aé" 1 = some "a" ∧ cutBack "aé" 2 = none := by decide

end Text

/-! ### Odometers -/

/-- The cursors and the lengths of an odometer, the first one's first, and its word. -/
structure Odometer where
  factors : List Expr
  cursors : List Walk
  ends : List Nat
  word : String

namespace Odometer

def start (first : Expr) (rest : List Expr) : Odometer where
  factors := first :: rest
  cursors := [Walk.start first]
  ends := [0]
  word := ""

/-- One step of the last cursor and what it entails, unless that reads at a place that does not
exist or splits a character. -/
def step (odometer : Odometer) : Option (Event × Odometer) :=
  let { factors, cursors, ends, word } := odometer
  let depth := cursors.length
  match cursors.getLast? with
  | none => some (.exhausted, odometer)
  | some cursor =>
      match cursor.step with
      | (.word part, cursor) => do
          let filled ← ends[depth - 1]?
          let kept ← Text.cutBack word filled
          let word := kept ++ String.ofList part
          let cursors := cursors.dropLast ++ [cursor]
          if depth = factors.length then
            some (.word word.toList, { factors, cursors, ends, word })
          else
            let next ← factors[depth]?
            some (.working,
              { factors
                cursors := cursors ++ [Walk.start next]
                ends := ends ++ [word.utf8ByteSize]
                word })
      | (.exhausted, _) =>
          some (.working, { factors, cursors := cursors.dropLast, ends := ends.dropLast, word })
      | (event, cursor) =>
          some (event, { factors, cursors := cursors.dropLast ++ [cursor], ends, word })

def run : Nat → Odometer → Option Odometer
  | 0, odometer => some odometer
  | steps + 1, odometer => do
      let before ← run steps odometer
      let (_, behind) ← before.step
      some behind

/-! #### Steps -/

section Steps

variable {factors : List Expr} {below : List Walk} {cursor next : Walk} {lower : List Nat}
  {word : String}

theorem step_nil {ends : List Nat} :
    step { factors, cursors := [], ends, word } =
      some (.exhausted, { factors, cursors := [], ends, word }) :=
  rfl

theorem getElem?_top {filled : Nat} (sameHeight : lower.length = below.length) :
    (lower ++ [filled])[below.length + 1 - 1]? = some filled := by
  rw [Nat.add_sub_cancel, ← sameHeight, List.getElem?_concat_length]

theorem step_last (kept behind : String) {part : Word} (stepped : cursor.step = (.word part, next))
    (sameHeight : lower.length = below.length) (isLast : below.length + 1 = factors.length) :
    step { factors, cursors := below ++ [cursor], ends := lower ++ [kept.utf8ByteSize]
           word := kept ++ behind } =
      some (.word (kept ++ String.ofList part).toList,
        { factors, cursors := below ++ [next], ends := lower ++ [kept.utf8ByteSize]
          word := kept ++ String.ofList part }) := by
  simp only [step, List.getLast?_concat, stepped, List.length_append, List.length_singleton,
    getElem?_top sameHeight, Text.cutBack_append, if_pos isLast, List.dropLast_concat,
    Option.bind_eq_bind, Option.bind_some]

theorem step_more (kept behind : String) {part : Word} {later : Expr}
    (stepped : cursor.step = (.word part, next)) (sameHeight : lower.length = below.length)
    (isNext : factors[below.length + 1]? = some later) :
    step { factors, cursors := below ++ [cursor], ends := lower ++ [kept.utf8ByteSize]
           word := kept ++ behind } =
      some (.working,
        { factors
          cursors := below ++ [next] ++ [Walk.start later]
          ends := lower ++ [kept.utf8ByteSize] ++ [(kept ++ String.ofList part).utf8ByteSize]
          word := kept ++ String.ofList part }) := by
  have notLast : ¬ below.length + 1 = factors.length := by
    intro isLast
    rw [isLast, List.getElem?_eq_none (Nat.le_refl _)] at isNext
    cases isNext
  simp only [step, List.getLast?_concat, stepped, List.length_append, List.length_singleton,
    getElem?_top sameHeight, Text.cutBack_append, if_neg notLast, isNext, List.dropLast_concat,
    Option.bind_eq_bind, Option.bind_some]

theorem step_exhausted {filled : Nat} (stepped : cursor.step = (.exhausted, next)) :
    step { factors, cursors := below ++ [cursor], ends := lower ++ [filled], word } =
      some (.working, { factors, cursors := below, ends := lower, word }) := by
  simp only [step, List.getLast?_concat, stepped, List.dropLast_concat]

theorem step_quiet {event : Event} {ends : List Nat} (stepped : cursor.step = (event, next))
    (quiet : event.Quiet) :
    step { factors, cursors := below ++ [cursor], ends, word } =
      some (event, { factors, cursors := below ++ [next], ends, word }) := by
  cases quiet <;> simp only [step, List.getLast?_concat, stepped, List.dropLast_concat]

end Steps

/-! ### Beside a walk -/

/-- The latest part of every wheel, put together.  The latest wheel comes first. -/
def joined : List (List Word) → List Char
  | [] => []
  | parts :: given => joined given ++ parts.headD []

/-- How many bytes stand before the part of each wheel, the first wheel's first. -/
def byteEnds : List (List Word) → List Nat
  | [] => []
  | _ :: given => byteEnds given ++ [(String.ofList (joined given)).utf8ByteSize]

/-- Wheels that turn: each has come from a fresh walk through its factor, is marked behind the parts
before its own one, and has given a part if another wheel turns behind it. -/
inductive Turning : List (Wheel Walk) → List (List Word) → Prop where
  | none : Turning [] []
  | wheel {factor : Expr} {mark : Nat} {cursor : Walk} {wheels : List (Wheel Walk)}
      {parts : List Word} {given : List (List Word)}
      (hasGiven : (Walk.start factor).HasGiven parts cursor) (marked : mark = (joined given).length)
      (complete : ∀ words ∈ given, words ≠ []) (turning : Turning wheels given) :
      Turning ({ factor, mark, cursor } :: wheels) (parts :: given)

inductive Beside (factors : List Expr) : Odometer → Recorded → Prop where
  | intro {wheels : List (Wheel Walk)} {waiting : List Expr} {buffer : Array Char}
      {given : List (List Word)} {behind : List Char} (turning : Turning wheels given)
      (all : (wheels.map Wheel.factor).reverse ++ waiting = factors)
      (filled : buffer.toList = joined given.tail ++ behind) :
      Beside factors
        { factors
          cursors := (wheels.map Wheel.cursor).reverse
          ends := byteEnds given
          word := String.ofList buffer.toList }
        { walk := .odometer wheels waiting buffer, given }

variable {factors : List Expr} {odometer : Odometer} {state : Recorded}

theorem Turning.length_eq {wheels : List (Wheel Walk)} {given : List (List Word)}
    (turning : Turning wheels given) : given.length = wheels.length := by
  induction turning with
  | none => rfl
  | wheel _ _ _ _ inductionHypothesis => exact congrArg Nat.succ inductionHypothesis

theorem length_byteEnds (given : List (List Word)) : (byteEnds given).length = given.length := by
  induction given with
  | nil => rfl
  | cons parts given inductionHypothesis =>
      rw [byteEnds, List.length_append, inductionHypothesis]
      rfl

theorem text_of_filled {buffer : Array Char} {kept behind : List Char}
    (filled : buffer.toList = kept ++ behind) :
    String.ofList buffer.toList = String.ofList kept ++ String.ofList behind := by
  rw [filled, String.ofList_append]

section Top

variable {factor : Expr} {mark : Nat} {cursor : Walk} {wheels : List (Wheel Walk)}
  {parts : List Word} {earlier : List (List Word)}

theorem Turning.height_below
    (turning : Turning ({ factor, mark, cursor } :: wheels) (parts :: earlier)) :
    (byteEnds earlier).length = (wheels.map Wheel.cursor).reverse.length := by
  rw [length_byteEnds, List.length_reverse, List.length_map]
  exact Nat.succ.inj turning.length_eq

/-- A part is put behind those of the wheels before. -/
theorem Turning.written {buffer : Array Char} {behind : List Char}
    (turning : Turning ({ factor, mark, cursor } :: wheels) (parts :: earlier))
    (filled : buffer.toList = joined earlier ++ behind) (part : Word) :
    (buffer.shrink mark ++ part).toList = joined earlier ++ part := by
  cases turning with
  | wheel _ marked _ _ =>
      rw [Array.toList_appendList, Array.toList_shrink, marked, filled, List.take_left]

/-- The next wheel starts behind the part that has been given last. -/
theorem Turning.next_wheel {buffer : Array Char} {part : Word} {later : Expr}
    (turning : Turning ({ factor, mark, cursor } :: wheels) ((part :: parts) :: earlier))
    (written : buffer.toList = joined earlier ++ part) :
    Turning
      ({ factor := later, mark := buffer.size, cursor := Walk.start later } ::
        { factor, mark, cursor } :: wheels)
      ([] :: (part :: parts) :: earlier) := by
  have size : buffer.size = (joined ((part :: parts) :: earlier)).length := by
    rw [← Array.length_toList, written]
    rfl
  refine .wheel .nothing size ?_ turning
  cases turning with
  | wheel _ _ complete _ => exact List.forall_mem_cons.mpr ⟨List.cons_ne_nil _ _, complete⟩

end Top

theorem exists_joined_eq (given : List (List Word)) :
    ∃ part, joined given = joined given.tail ++ part := by
  cases given with
  | nil => exact ⟨[], rfl⟩
  | cons parts given => exact ⟨parts.headD [], rfl⟩

/-- A part is put behind those of the other wheels, and it completes the word or starts the next
wheel. -/
theorem Beside.step_of_word {wheels : List (Wheel Walk)} {waiting : List Expr}
    {buffer : Array Char} {earlier : List (List Word)} {behind : List Char} {factor : Expr}
    {mark : Nat} {cursor next : Walk} {part : Word} {parts : List Word}
    (stepped : cursor.step = (.word part, next))
    (turned : Turning ({ factor, mark, cursor := next } :: wheels) ((part :: parts) :: earlier))
    (all : (({ factor, mark, cursor } :: wheels).map Wheel.factor).reverse ++ waiting = factors)
    (filled : buffer.toList = joined earlier ++ behind) :
    ∃ reached,
      Odometer.step
          { factors
            cursors := (wheels.map Wheel.cursor).reverse ++ [cursor]
            ends := byteEnds (parts :: earlier)
            word := String.ofList buffer.toList } =
        some ((Walk.odometer ({ factor, mark, cursor } :: wheels) waiting buffer).step.1, reached) ∧
      Beside factors reached
        (.step { walk := .odometer ({ factor, mark, cursor } :: wheels) waiting buffer
                 given := parts :: earlier }) := by
  have sameHeight := turned.height_below
  have written := turned.written filled part
  have text := text_of_filled written
  rw [Recorded.step_odometer_word stepped, text_of_filled filled]
  cases waiting with
  | nil =>
      have isLast : (wheels.map Wheel.cursor).reverse.length + 1 = factors.length := by
        rw [← all, List.append_nil, List.length_reverse, List.length_reverse, List.length_map,
          List.length_map, List.length_cons]
      have taken := step_last (String.ofList (joined earlier)) (String.ofList behind) stepped
        sameHeight isLast
      rw [← text, String.toList_ofList] at taken
      refine ⟨_, ?_, .intro turned all written⟩
      rw [Walk.step_odometer_last stepped, List.map_cons, List.reverse_cons]
      exact taken
  | cons later waiting =>
      have isNext : factors[(wheels.map Wheel.cursor).reverse.length + 1]? = some later := by
        rw [← all, List.map_cons, List.reverse_cons, List.length_reverse, List.length_map,
          List.getElem?_append_right (by simp)]
        simp
      have lengths : byteEnds ([] :: (part :: parts) :: earlier) =
          byteEnds (parts :: earlier) ++
            [(String.ofList (buffer.shrink mark ++ part).toList).utf8ByteSize] := by
        rw [written]
        rfl
      have taken := step_more (String.ofList (joined earlier)) (String.ofList behind) stepped
        sameHeight isNext
      rw [← text] at taken
      refine ⟨_, ?_, .intro (turned.next_wheel written) ?_
        (written.trans (List.append_nil _).symm)⟩
      · rw [Walk.step_odometer_word stepped, List.map_cons, List.map_cons, List.reverse_cons,
          List.reverse_cons, lengths]
        exact taken
      · rw [← all, List.map_cons, List.reverse_cons, List.append_assoc]
        rfl

/-- An odometer on bytes does in a step what the walk does. -/
theorem Beside.step (beside : Beside factors odometer state) :
    ∃ next, odometer.step = some (state.walk.step.1, next) ∧ Beside factors next state.step := by
  obtain @⟨wheels, waiting, buffer, given, behind, turning, all, filled⟩ := beside
  cases turning with
  | none => exact ⟨_, step_nil, .intro .none all filled⟩
  | @wheel factor mark cursor wheels parts earlier hasGiven marked complete turning =>
      rw [List.map_cons, List.reverse_cons]
      rcases cursor.step_cases with
        ⟨part, next, stepped⟩ | ⟨next, stepped⟩ | ⟨event, next, stepped, quiet⟩
      · exact step_of_word stepped (.wheel (hasGiven.word stepped) marked complete turning) all
          filled
      · obtain ⟨part, joinedEq⟩ := exists_joined_eq earlier
        rw [List.tail_cons, joinedEq, List.append_assoc] at filled
        rw [Recorded.step_odometer_exhausted stepped]
        refine ⟨_, ?_, .intro turning ?_ filled⟩
        · rw [Walk.step_odometer_exhausted stepped]
          exact step_exhausted stepped
        · rw [← all, List.map_cons, List.reverse_cons, List.append_assoc]
          rfl
      · rw [Recorded.step_odometer_quiet stepped quiet]
        refine ⟨_, ?_, .intro (.wheel (hasGiven.quiet stepped quiet) marked complete turning) all
          filled⟩
        rw [Walk.step_odometer_quiet stepped quiet, List.map_cons, List.reverse_cons]
        exact step_quiet stepped quiet

theorem beside_start (first : Expr) (rest : List Expr) :
    Beside (first :: rest) (start first rest)
      (.fresh (Walk.start (.concat (first :: rest)))) := by
  rw [Walk.start]
  exact .intro (.wheel .nothing rfl (List.forall_mem_nil _) .none) rfl rfl

/-- A word is complete when every factor has given a part, and it is all of these parts. -/
theorem Beside.of_word {word : Word} (beside : Beside factors odometer state)
    (gives : state.walk.step.1 = .word word) :
    state.step.given.length = factors.length ∧ (∀ words ∈ state.step.given, words ≠ []) ∧
      joined state.step.given = word := by
  obtain @⟨wheels, waiting, buffer, given, behind, turning, all, filled⟩ := beside
  cases turning with
  | none =>
      rw [Walk.step] at gives
      cases gives
  | @wheel factor mark cursor wheels parts earlier hasGiven marked complete turning =>
      rcases cursor.step_cases with
        ⟨part, next, stepped⟩ | ⟨next, stepped⟩ | ⟨event, next, stepped, quiet⟩
      · cases waiting with
        | nil =>
            rw [Walk.step_odometer_last stepped] at gives
            cases gives
            rw [Recorded.step_odometer_word stepped]
            refine ⟨?_, List.forall_mem_cons.mpr ⟨List.cons_ne_nil _ _, complete⟩, ?_⟩
            · change earlier.length + 1 = factors.length
              rw [← all, List.append_nil, List.length_reverse, List.length_map, List.length_cons,
                turning.length_eq]
            · exact ((Turning.wheel hasGiven marked complete turning).written filled part).symm
        | cons later waiting =>
            rw [Walk.step_odometer_word stepped] at gives
            cases gives
      · rw [Walk.step_odometer_exhausted stepped] at gives
        cases gives
      · rw [Walk.step_odometer_quiet stepped quiet] at gives
        cases quiet <;> cases gives

/-! ### What holds between steps -/

def LatestWords (given : List (List Word)) (latest : List Word) : Prop :=
  given.map List.head? = latest.map some

structure Sound (odometer : Odometer) (given : List (List Word)) : Prop where
  sameHeight : odometer.ends.length = odometer.cursors.length
  bounded : odometer.cursors.length ≤ odometer.factors.length
  created : ∀ {index : Nat} {cursor : Walk}, odometer.cursors[index]? = some cursor →
    ∃ factor words, odometer.factors[index]? = some factor ∧ given[index]? = some words ∧
      (Walk.start factor).HasGiven words cursor
  marked : ∀ {index length : Nat}, odometer.ends[index]? = some length →
    String.Pos.Raw.IsValid odometer.word ⟨length⟩ ∧ length ≤ odometer.word.utf8ByteSize ∧
      ∃ latest, LatestWords (given.take index) latest ∧
        odometer.word.toByteArray.extract 0 length = (String.ofList latest.flatten).toByteArray

theorem Turning.created {wheels : List (Wheel Walk)} {given : List (List Word)} {index : Nat}
    {cursor : Walk} (turning : Turning wheels given)
    (isCursor : (wheels.map Wheel.cursor).reverse[index]? = some cursor) :
    ∃ factor words, (wheels.map Wheel.factor).reverse[index]? = some factor ∧
      given.reverse[index]? = some words ∧ (Walk.start factor).HasGiven words cursor := by
  induction turning with
  | none => cases isCursor
  | @wheel factor mark current wheels parts earlier hasGiven _ _ turning inductionHypothesis =>
      rw [List.map_cons, List.reverse_cons] at isCursor ⊢
      rw [List.reverse_cons]
      rcases getElem?_concat_cases isCursor with below | ⟨isTop, rfl⟩
      · obtain ⟨created, words, isFactor, areWords, hasGivenBelow⟩ := inductionHypothesis below
        exact ⟨created, words, getElem?_append_of_eq_some isFactor _,
          getElem?_append_of_eq_some areWords _, hasGivenBelow⟩
      · rw [List.length_reverse, List.length_map] at isTop
        refine ⟨factor, parts, ?_, ?_, hasGiven⟩
        · rw [isTop, ← List.length_map Wheel.factor, ← List.length_reverse,
            List.getElem?_concat_length]
        · rw [isTop, ← turning.length_eq, ← List.length_reverse, List.getElem?_concat_length]

/-- A length stands for the parts of the wheels below, and the text that is there starts with
them. -/
theorem exists_below_of_byteEnds {given : List (List Word)} {index length : Nat}
    (isEnd : (byteEnds given)[index]? = some length) :
    ∃ below, below <:+ given.tail ∧ below.reverse = given.reverse.take index ∧
      length = (String.ofList (joined below)).utf8ByteSize := by
  induction given with
  | nil => cases isEnd
  | cons parts given inductionHypothesis =>
      rw [byteEnds] at isEnd
      rw [List.reverse_cons, List.tail_cons]
      rcases getElem?_concat_cases isEnd with lower | ⟨isTop, rfl⟩
      · obtain ⟨below, suffix, taken, rfl⟩ := inductionHypothesis lower
        have inside := (List.getElem?_eq_some_iff.mp lower).1
        rw [length_byteEnds, ← List.length_reverse] at inside
        refine ⟨below, suffix.trans (List.tail_suffix given), ?_, rfl⟩
        rw [taken, List.take_append_of_le_length (Nat.le_of_lt inside)]
      · rw [length_byteEnds, ← List.length_reverse] at isTop
        exact ⟨given, List.suffix_refl given, by rw [isTop, List.take_left], rfl⟩

theorem exists_joined_eq_of_suffix {below given : List (List Word)} (suffix : below <:+ given) :
    ∃ part, joined given = joined below ++ part := by
  obtain ⟨above, rfl⟩ := suffix
  induction above with
  | nil => exact ⟨[], (List.append_nil _).symm⟩
  | cons parts above inductionHypothesis =>
      obtain ⟨part, joinedEq⟩ := inductionHypothesis
      refine ⟨part ++ parts.headD [], ?_⟩
      rw [List.cons_append, joined, joinedEq, List.append_assoc]

theorem exists_latestWords {given : List (List Word)} (complete : ∀ words ∈ given, words ≠ []) :
    ∃ latest, LatestWords given.reverse latest ∧ joined given = latest.flatten := by
  induction given with
  | nil => exact ⟨[], rfl, rfl⟩
  | cons words given inductionHypothesis =>
      obtain ⟨someWords, someLater⟩ := List.forall_mem_cons.mp complete
      obtain ⟨latest, areLatest, joinedEq⟩ := inductionHypothesis someLater
      cases words with
      | nil => exact absurd rfl someWords
      | cons word words =>
          refine ⟨latest ++ [word], ?_, ?_⟩
          · unfold LatestWords at areLatest ⊢
            rw [List.reverse_cons, List.map_append, List.map_append, areLatest]
            rfl
          · rw [joined, joinedEq, List.flatten_append, List.flatten_singleton]
            rfl

theorem Beside.sound (beside : Beside factors odometer state) :
    odometer.Sound state.given.reverse := by
  obtain @⟨wheels, waiting, buffer, given, behind, turning, all, filled⟩ := beside
  refine ⟨?_, ?_, ?_, ?_⟩
  · change (byteEnds given).length = (wheels.map Wheel.cursor).reverse.length
    rw [length_byteEnds, turning.length_eq, List.length_reverse, List.length_map]
  · change (wheels.map Wheel.cursor).reverse.length ≤ factors.length
    rw [← all, List.length_append, List.length_reverse, List.length_reverse, List.length_map,
      List.length_map]
    exact Nat.le_add_right _ _
  · intro index cursor isCursor
    obtain ⟨factor, words, isFactor, areWords, hasGiven⟩ := turning.created isCursor
    refine ⟨factor, words, ?_, areWords, hasGiven⟩
    change factors[index]? = some factor
    rw [← all]
    exact getElem?_append_of_eq_some isFactor waiting
  · intro index length isEnd
    obtain ⟨below, suffix, taken, rfl⟩ := exists_below_of_byteEnds isEnd
    obtain ⟨part, joinedEq⟩ := exists_joined_eq_of_suffix suffix
    have complete : ∀ words ∈ below, words ≠ [] := by
      cases turning with
      | none => cases isEnd
      | wheel _ _ complete _ => exact fun words isBelow => complete words (suffix.subset isBelow)
    obtain ⟨latest, areLatest, latestEq⟩ := exists_latestWords complete
    rw [joinedEq, List.append_assoc] at filled
    change String.Pos.Raw.IsValid (String.ofList buffer.toList) _ ∧
      _ ≤ (String.ofList buffer.toList).utf8ByteSize ∧
        ∃ latest, LatestWords (given.reverse.take index) latest ∧
          (String.ofList buffer.toList).toByteArray.extract 0 _ = _
    rw [text_of_filled filled]
    refine ⟨Text.isValid_append _ _, ?_, latest, taken ▸ areLatest, ?_⟩
    · rw [String.utf8ByteSize_append]
      exact Nat.le_add_right _ _
    · rw [String.toByteArray_append, ← latestEq,
        ByteArray.extract_append_eq_left String.size_toByteArray.symm]

theorem word_of_step {word : Word} {next : Odometer}
    (stepped : odometer.step = some (.word word, next)) : next.word = String.ofList word := by
  rcases odometer with ⟨factors, cursors, ends, text⟩
  unfold step at stepped
  dsimp only at stepped
  split at stepped
  · cases stepped
  · split at stepped
    · simp only [Option.bind_eq_bind, Option.bind_eq_some_iff] at stepped
      obtain ⟨filled, _, kept, _, stepped⟩ := stepped
      split at stepped
      · cases stepped
        exact String.ofList_toList.symm
      · obtain ⟨later, _, impossible⟩ := Option.bind_eq_some_iff.mp stepped
        cases impossible
    · cases stepped
    · cases stepped
      rename_i notWord _ _
      exact (notWord word rfl).elim

structure Completes (odometer : Odometer) (given : List (List Word)) (word : Word) : Prop where
  depth : odometer.cursors.length = odometer.factors.length
  text : odometer.word = String.ofList word
  parts : ∃ latest, LatestWords given latest ∧ latest.length = odometer.factors.length ∧
    latest.flatten = word

theorem Beside.length_cursors (beside : Beside factors odometer state) :
    odometer.factors = factors ∧ odometer.cursors.length = state.given.length := by
  obtain @⟨wheels, waiting, buffer, given, behind, turning, all, filled⟩ := beside
  refine ⟨rfl, ?_⟩
  change (wheels.map Wheel.cursor).reverse.length = given.length
  rw [List.length_reverse, List.length_map, turning.length_eq]

theorem Beside.completes {next : Odometer} {word : Word} (beside : Beside factors odometer state)
    (besideNext : Beside factors next state.step)
    (stepped : odometer.step = some (state.walk.step.1, next))
    (gives : state.walk.step.1 = .word word) : next.Completes state.step.given.reverse word := by
  obtain ⟨sameFactors, depth⟩ := besideNext.length_cursors
  obtain ⟨all, complete, joinedEq⟩ := beside.of_word gives
  obtain ⟨latest, areLatest, latestEq⟩ := exists_latestWords complete
  rw [gives] at stepped
  refine ⟨?_, word_of_step stepped, latest, areLatest, ?_, ?_⟩
  · rw [depth, sameFactors, all]
  · have lengths := congrArg List.length areLatest
    rw [List.length_map, List.length_map, List.length_reverse] at lengths
    rw [sameFactors, ← all, lengths]
  · rw [← latestEq, joinedEq]

theorem run_succ {next : Odometer} {steps : Nat} {origin : Odometer} {event : Event}
    (runs : run steps origin = some odometer) (stepped : odometer.step = some (event, next)) :
    run (steps + 1) origin = some next := by
  rw [run, runs, Option.bind_eq_bind, Option.bind_some, stepped]
  rfl

/-- No step fails, however many there are. -/
theorem exists_run (first : Expr) (rest : List Expr) (steps : Nat) :
    ∃ odometer, run steps (start first rest) = some odometer ∧
      Beside (first :: rest) odometer
        (Recorded.step^[steps] (.fresh (Expr.concat (first :: rest)).words.walk)) := by
  induction steps with
  | zero => exact ⟨_, rfl, beside_start first rest⟩
  | succ steps inductionHypothesis =>
      obtain ⟨odometer, runs, beside⟩ := inductionHypothesis
      obtain ⟨next, stepped, besideNext⟩ := beside.step
      rw [Function.iterate_succ_apply']
      exact ⟨next, run_succ runs stepped, besideNext⟩

/-- Through any number of steps an odometer on bytes does what the walk through its concatenation
does, and none of them fails.  Between the steps each cursor has come from its own factor, and each
length is where a character ends and covers what the cursors before it have given latest.  A word is
what all cursors have given latest, and so is a word that a call gives. -/
theorem run_keeps_sound (first : Expr) (rest : List Expr) :
    let words := (Expr.concat (first :: rest)).words
    let after := fun steps => Recorded.step^[steps] (.fresh words.walk)
    (∀ steps, ∃ odometer next, run steps (start first rest) = some odometer ∧
      run (steps + 1) (start first rest) = some next ∧
        Beside (first :: rest) odometer (after steps) ∧
          odometer.Sound (after steps).given.reverse ∧
            odometer.step = some ((after steps).walk.step.1, next) ∧
              ∀ word, (after steps).walk.step.1 = .word word →
                next.Completes (after (steps + 1)).given.reverse word) ∧
      ∀ calls rounds word, words.Lasts (calls + 1) rounds →
        (words.after calls).next.1 = some word →
          ∃ odometer, run rounds (start first rest) = some odometer ∧
            odometer.Completes (after rounds).given.reverse word := by
  intro words after
  have goesOn : ∀ steps, ∃ odometer next, run steps (start first rest) = some odometer ∧
      run (steps + 1) (start first rest) = some next ∧
        Beside (first :: rest) odometer (after steps) ∧
          odometer.step = some ((after steps).walk.step.1, next) ∧
            ∀ word, (after steps).walk.step.1 = .word word →
              next.Completes (after (steps + 1)).given.reverse word := by
    intro steps
    obtain ⟨odometer, runs, beside⟩ := exists_run first rest steps
    obtain ⟨next, stepped, besideNext⟩ := beside.step
    have behind : after (steps + 1) = (after steps).step := Function.iterate_succ_apply' _ _ _
    rw [behind]
    exact ⟨odometer, next, runs, run_succ runs stepped, beside, stepped, fun word gives =>
      beside.completes besideNext stepped gives⟩
  constructor
  · intro steps
    obtain ⟨odometer, next, runs, runsNext, beside, stepped, completes⟩ := goesOn steps
    exact ⟨odometer, next, runs, runsNext, beside, beside.sound, stepped, completes⟩
  · intro calls rounds word lasts gives
    have atStart : (Recorded.fresh words.walk).walk = words.walk := rfl
    obtain ⟨steps, rfl, last⟩ := lasts.exists_step gives atStart
    obtain ⟨_, odometer, _, runs, _, _, completes⟩ := goesOn steps
    exact ⟨odometer, runs, completes word last⟩

/-- In `(é+@)b` the second cursor puts its part behind two bytes. -/
theorem run_keeps_sound_accented :
    let first := Expr.union [.literal 'é', .empty]
    let after := fun steps =>
      Recorded.step^[steps] (.fresh (Expr.concat [first, .literal 'b']).words.walk)
    ∃ odometer, run 3 (start first [.literal 'b']) = some odometer ∧
      odometer.ends = [0, 2] ∧ odometer.word = "éb" ∧
        odometer.Sound (after 3).given.reverse := by
  intro first after
  obtain ⟨odometer, _, runs, _, _, sound, _⟩ := (run_keeps_sound first [.literal 'b']).1 3
  have read : (run 3 (start first [.literal 'b'])).map
      (fun odometer => (odometer.ends, odometer.word)) = some ([0, 2], "éb") := by
    decide +kernel
  rw [runs] at read
  obtain ⟨ends, word⟩ := Prod.mk.inj (Option.some.inj read)
  exact ⟨odometer, runs, ends, word, sound⟩

end Odometer

end RegularWords
