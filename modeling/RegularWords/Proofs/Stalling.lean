import RegularWords.Proofs.Losses

/-!
Factors before an endless one.

The wheels below an endless wheel give one part each and never turn again.  A wheel behind which all
others come to their end gives one part after the other.
-/

namespace RegularWords

open Stream' (Seq)

theorem Listing.exists_eq_cons {listing : Listing} {index : Nat}
    (someWord : listing.get? index ≠ none) : ∃ word words, listing = .cons word words := by
  cases listing with
  | nil => exact absurd (Seq.get?_nil index) someWord
  | cons word words => exact ⟨word, words, rfl⟩

namespace Recorded

open Walk

/-! ### What is stalled -/

/-- Where an odometer stands that never gets past an endless factor.  Until the wheel for that
factor starts, the wheels below have given one part each, and afterwards they do not move. -/
inductive StaysStalled (endless : Expr) (place : Nat) : Recorded → Prop where
  | rising {factor : Expr} {mark : Nat} {cursor : Walk} {wheels : List (Wheel Walk)}
      {before behind : List Expr} {buffer : Array Char} {singles : List (List Word)}
      (fruitful : cursor.Fruitful) (someWord : cursor.remaining ≠ .nil)
      (nonempty : ∀ later ∈ before, later.unionsNonempty = true)
      (single : ∀ parts ∈ singles, parts.length = 1)
      (below : singles.length + 1 + before.length = place) :
      StaysStalled endless place
        { walk := .odometer ({ factor, mark, cursor } :: wheels) (before ++ endless :: behind)
            buffer
          given := [] :: singles }
  | pinned (upper : List (Wheel Walk)) (above : List (List Word)) {lower : List (Wheel Walk)}
      {factor : Expr} {mark : Nat} {cursor : Walk} {waiting : List Expr} {buffer : Array Char}
      {singles : List (List Word)} {parts : List Word} (noEnd : cursor.Endless)
      (aligned : above.length = upper.length)
      (single : ∀ parts ∈ singles, parts.length = 1) (below : singles.length = place) :
      StaysStalled endless place
        { walk := .odometer (upper ++ { factor, mark, cursor } :: lower) waiting buffer
          given := above ++ parts :: singles }

section Stalled

variable {endless : Expr} {place : Nat}

theorem staysStalled_rising {factor : Expr} {mark : Nat} {cursor : Walk}
    {wheels : List (Wheel Walk)} {before behind : List Expr} {buffer : Array Char}
    {singles : List (List Word)} (endlessStart : (start endless).Endless)
    (fruitful : cursor.Fruitful) (someWord : cursor.remaining ≠ .nil)
    (nonempty : ∀ later ∈ before, later.unionsNonempty = true)
    (single : ∀ parts ∈ singles, parts.length = 1)
    (below : singles.length + 1 + before.length = place) :
    StaysStalled endless place
      (step { walk := .odometer ({ factor, mark, cursor } :: wheels)
                (before ++ endless :: behind) buffer
              given := [] :: singles }) := by
  rcases fruitful.step_cases with
    ⟨part, next, stepped, _, _⟩ | ⟨next, stepped, ended⟩ |
      ⟨event, next, stepped, quiet, same, nextFruitful⟩
  · have allSingle : ∀ parts ∈ [part] :: singles, parts.length = 1 :=
      List.forall_mem_cons.mpr ⟨rfl, single⟩
    rw [step_odometer_word stepped]
    cases before with
    | nil => exact .pinned [] [] endlessStart rfl allSingle below
    | cons later before =>
        obtain ⟨laterNonempty, othersNonempty⟩ := List.forall_mem_cons.mp nonempty
        refine .rising (fruitful_start laterNonempty) (remaining_start_ne_nil laterNonempty)
          othersNonempty allSingle ?_
        rw [List.length_cons] at below ⊢
        omega
  · exact absurd ended someWord
  · rw [step_odometer_quiet stepped quiet]
    exact .rising nextFruitful (same ▸ someWord) nonempty single below

theorem staysStalled_pinned {upper lower : List (Wheel Walk)} {factor : Expr} {mark : Nat}
    {cursor : Walk} {waiting : List Expr} {buffer : Array Char} {above singles : List (List Word)}
    {parts : List Word} (noEnd : cursor.Endless) (aligned : above.length = upper.length)
    (single : ∀ parts ∈ singles, parts.length = 1) (below : singles.length = place) :
    StaysStalled endless place
      (step { walk := .odometer (upper ++ { factor, mark, cursor } :: lower) waiting buffer
              given := above ++ parts :: singles }) := by
  cases upper with
  | nil =>
      rw [List.length_nil, List.length_eq_zero_iff] at aligned
      subst aligned
      rw [List.nil_append, List.nil_append]
      rcases noEnd.step_cases with
        ⟨part, next, stepped, nextNoEnd⟩ | ⟨event, next, stepped, quiet, nextNoEnd⟩
      · rw [step_odometer_word stepped]
        cases waiting with
        | nil => exact .pinned [] [] nextNoEnd rfl single below
        | cons later waiting =>
            exact .pinned [_] [_] nextNoEnd rfl single below
      · rw [step_odometer_quiet stepped quiet]
        exact .pinned [] [] nextNoEnd rfl single below
  | cons top upper =>
      obtain ⟨topParts, above, rfl⟩ := List.exists_cons_of_length_eq_add_one aligned
      rw [List.length_cons, List.length_cons, Nat.add_right_cancel_iff] at aligned
      obtain ⟨topFactor, topMark, topCursor⟩ := top
      rw [List.cons_append, List.cons_append]
      rcases topCursor.step_cases with
        ⟨part, next, stepped⟩ | ⟨next, stepped⟩ | ⟨event, next, stepped, quiet⟩
      · rw [step_odometer_word stepped]
        cases waiting with
        | nil =>
            exact .pinned (_ :: upper) (_ :: above) noEnd
              (congrArg (· + 1) aligned) single below
        | cons later waiting =>
            exact .pinned (_ :: _ :: upper) (_ :: _ :: above) noEnd
              (congrArg (· + 2) aligned) single below
      · rw [step_odometer_exhausted stepped]
        exact .pinned upper above noEnd aligned single below
      · rw [step_odometer_quiet stepped quiet]
        exact .pinned (_ :: upper) (_ :: above) noEnd
          (congrArg (· + 1) aligned) single below

theorem staysStalled_step {state : Recorded} (endlessStart : (start endless).Endless)
    (stays : StaysStalled endless place state) : StaysStalled endless place state.step := by
  cases stays with
  | rising fruitful someWord nonempty single below =>
      exact staysStalled_rising endlessStart fruitful someWord nonempty single below
  | pinned upper above noEnd aligned single below =>
      exact staysStalled_pinned noEnd aligned single below

theorem staysStalled_fresh {before behind : List Expr} (someFactor : before ≠ [])
    (nonempty : ∀ factor ∈ before, factor.unionsNonempty = true) :
    StaysStalled endless before.length
      (fresh (Expr.concat (before ++ endless :: behind)).words.walk) := by
  cases before with
  | nil => exact absurd rfl someFactor
  | cons factor before =>
      obtain ⟨firstNonempty, othersNonempty⟩ := List.forall_mem_cons.mp nonempty
      exact .rising (fruitful_start firstNonempty) (remaining_start_ne_nil firstNonempty)
        othersNonempty (List.forall_mem_nil _) (Nat.add_comm 1 before.length)

/-- Below an endless factor no wheel shows a second part. -/
theorem not_shows_of_staysStalled {state : Recorded} (stays : StaysStalled endless place state)
    {lower : Nat} (below : lower < place) : ¬ state.Shows lower 1 := by
  rintro ⟨parts, atPlace, several⟩
  cases stays with
  | rising fruitful someWord nonempty single _ =>
      have noted := List.mem_of_getElem? atPlace
      rw [List.mem_reverse] at noted
      rcases List.mem_cons.mp noted with rfl | below
      · exact absurd several (by decide)
      · rw [single parts below] at several
        exact absurd several (by decide)
  | pinned upper above noEnd aligned single enough =>
      rw [List.reverse_append, List.reverse_cons, List.append_assoc, List.getElem?_append_left
        (by rw [List.length_reverse, enough]; exact below)] at atPlace
      have noted := List.mem_of_getElem? atPlace
      rw [List.mem_reverse] at noted
      rw [single parts noted] at several
      exact absurd several (by decide)

end Stalled

/-! ### What is shown -/

section Shown

variable {wanted : Recorded → Prop} {later : List Expr} {target : Expr} {place : Nat}

/-- A wheel with words to come gives the first of them. -/
theorem leads_part {factor : Expr} {mark : Nat} {cursor : Walk} {wheels : List (Wheel Walk)}
    {waiting : List Expr} {buffer : Array Char} {parts : List Word} {earlier : List (List Word)}
    {part : Word} {others : Listing} (fruitful : cursor.Fruitful)
    (toCome : cursor.remaining = .cons part others)
    (onward : ∀ {next : Walk} {buffer : Array Char}, next.Fruitful → next.remaining = others →
      Leads wanted
        (turned ({ factor, mark, cursor := next } :: wheels) ((part :: parts) :: earlier) buffer
          waiting)) :
    Leads wanted
      { walk := .odometer ({ factor, mark, cursor } :: wheels) waiting buffer
        given := parts :: earlier } := by
  refine Settles.fruitful_induction
    (motive := fun cursor => cursor.remaining = .cons part others → Leads wanted
      { walk := .odometer ({ factor, mark, cursor } :: wheels) waiting buffer
        given := parts :: earlier })
    ?_ ?_ ?_ (settles_of_fruitful fruitful) fruitful toCome
  · intro cursor next word stepped gives nextFruitful toCome
    obtain ⟨rfl, same⟩ := Seq.cons_eq_cons.mp (toCome.symm.trans gives)
    apply Leads.later
    rw [step_odometer_word stepped]
    exact onward nextFruitful same.symm
  · intro cursor next stepped ended toCome
    exact absurd (toCome.symm.trans ended) Seq.cons_ne_nil
  · intro cursor next event stepped quiet same leads toCome
    apply Leads.later
    rw [step_odometer_quiet stepped quiet]
    exact leads (same.trans toCome)

/-- Each wheel gives a first part, so the wheel behind it starts. -/
theorem leads_rise {before : List Expr} {first : Expr} {mark : Nat} {wheels : List (Wheel Walk)}
    {buffer : Array Char} {given : List (List Word)} (nonempty : first.unionsNonempty = true)
    (othersNonempty : ∀ factor ∈ before, factor.unionsNonempty = true)
    (below : given.length + 1 + before.length = place)
    (onward : ∀ {wheels : List (Wheel Walk)} {mark : Nat} {buffer : Array Char}
      {given : List (List Word)}, given.length = place →
        Leads wanted
          { walk := .odometer ({ factor := target, mark, cursor := start target } :: wheels) later
              buffer
            given := [] :: given }) :
    Leads wanted
      { walk := .odometer ({ factor := first, mark, cursor := start first } :: wheels)
          (before ++ target :: later) buffer
        given := [] :: given } := by
  induction before generalizing first mark wheels buffer given with
  | nil =>
      refine leads_part (fruitful_start nonempty)
        ((remaining_start first).trans (Seq.head_eq_some (Expr.head_listing nonempty))) ?_
      intro next buffer _ _
      exact onward below
  | cons factor before inductionHypothesis =>
      obtain ⟨factorNonempty, beforeNonempty⟩ := List.forall_mem_cons.mp othersNonempty
      refine leads_part (fruitful_start nonempty)
        ((remaining_start first).trans (Seq.head_eq_some (Expr.head_listing nonempty))) ?_
      intro next buffer _ _
      refine inductionHypothesis factorNonempty beforeNonempty ?_
      rw [List.length_cons] at below ⊢
      omega

theorem shows_of_turned {wheels : List (Wheel Walk)} {buffer : Array Char} {parts : List Word}
    {given : List (List Word)} {index : Nat} (below : given.length = place)
    (enough : index < parts.length) (waiting : List Expr) :
    (turned wheels (parts :: given) buffer waiting).Shows place index := by
  refine ⟨parts, ?_, enough⟩
  cases waiting with
  | nil => simp [turned, ← below]
  | cons next waiting => simp [turned, ← below]

/-- The wheel of a factor gives one part after the other, if the wheels behind it come to their end
in between. -/
theorem leads_shows (parts : List Word) {mark : Nat} {cursor : Walk}
    {wheels : List (Wheel Walk)} {buffer : Array Char} {given : List (List Word)} {number : Nat}
    (fruitful : cursor.Fruitful) (someWord : cursor.remaining.get? number ≠ none)
    (below : given.length = place)
    (through : number = 0 ∨ ∀ factor ∈ later, (start factor).Finishes) :
    Leads (fun state => state.Shows place (parts.length + number))
      { walk := .odometer ({ factor := target, mark, cursor } :: wheels) later buffer
        given := parts :: given } := by
  induction number generalizing cursor buffer parts with
  | zero =>
      obtain ⟨part, others, toCome⟩ := Listing.exists_eq_cons someWord
      refine leads_part fruitful toCome ?_
      intro next buffer _ _
      exact .here (shows_of_turned below (Nat.lt_succ_self _) later)
  | succ number inductionHypothesis =>
      obtain ⟨part, others, toCome⟩ := Listing.exists_eq_cons someWord
      rw [toCome, Seq.get?_cons_succ] at someWord
      refine leads_part fruitful toCome ?_
      intro next buffer nextFruitful same
      have finish := through.resolve_left (Nat.succ_ne_zero number)
      refine leads_turned finish ?_ buffer
      intro buffer
      have onePartMore : parts.length + (number + 1) = (part :: parts).length + number := by
        rw [List.length_cons]
        omega
      rw [onePartMore]
      exact inductionHypothesis (part :: parts) nextFruitful (same ▸ someWord) (.inr finish)

theorem leads_shows_of_fresh {earlier : List Expr} {number : Nat}
    (nonempty : ∀ factor ∈ earlier ++ target :: later, factor.unionsNonempty = true)
    (someWord : target.listing.get? number ≠ none)
    (through : number = 0 ∨ ∀ factor ∈ later, (start factor).Finishes) :
    Leads (fun state => state.Shows earlier.length number)
      (fresh (Expr.concat (earlier ++ target :: later)).words.walk) := by
  have targetNonempty : target.unionsNonempty = true := nonempty target (by simp)
  have fromTarget : ∀ {wheels : List (Wheel Walk)} {mark : Nat} {buffer : Array Char}
      {given : List (List Word)}, given.length = earlier.length →
        Leads (fun state => state.Shows earlier.length number)
          { walk := .odometer ({ factor := target, mark, cursor := start target } :: wheels) later
              buffer
            given := [] :: given } := by
    intro wheels mark buffer given below
    rw [← remaining_start] at someWord
    rw [← Nat.zero_add number]
    exact leads_shows [] (fruitful_start targetNonempty) someWord below through
  cases earlier with
  | nil => exact fromTarget rfl
  | cons first before =>
      have firstNonempty : first.unionsNonempty = true := nonempty first (by simp)
      refine leads_rise firstNonempty ?_ ?_ fromTarget
      · intro factor isBefore
        exact nonempty factor (by simp [isBefore])
      · exact Nat.add_comm 1 before.length

end Shown

end Recorded

end RegularWords
