import RegularWords.Enumeration.Words
import RegularWords.Proofs.Listing

/-!
What a walk has still to give.

`Walk.remaining` reads the words to come off the state of a walk: those of the walk inside it first,
then those of whatever it will start afterwards.  A step that gives a word takes the first of them
and any other step keeps them all, so a walk through an expression gives the words of its listing in
order.
-/

namespace RegularWords

open Stream' (Seq)

/-- The words to come of a repetition when `rest` is to come of the level being built.  The levels
behind it extend that level as a whole, whatever has been found of it so far. -/
def Levels.remaining (levels : Levels) (inner rest : Listing) : Listing :=
  rest.append
    (Listing.levelled inner
      (Listing.product ((Seq.ofList levels.found.toList).append rest) inner))

def Levels.extensionsFrom (levels : Levels) (index : Nat) (inner : Listing) : Listing :=
  Listing.product (Seq.ofList (levels.frontier.toList.drop index)) inner

namespace Walk

mutual

def remaining : Walk → Listing
  | .single none => .nil
  | .single (some word) => .single word
  | .odometer wheels waiting buffer => remainingWheels buffer waiting wheels
  | .choice none pending => Expr.alternativeListing pending
  | .choice (some current) pending =>
      (remaining current).append (Expr.alternativeListing pending)
  | .unrepeated inner => .closure inner.listing
  | .repetition inner levels none =>
      levels.remaining inner.listing (levels.extensionsFrom levels.index inner.listing)
  | .repetition inner levels (some { stem, cursor }) =>
      levels.remaining inner.listing
        (((remaining cursor).map (stem ++ ·)).append
          (levels.extensionsFrom (levels.index + 1) inner.listing))

/-- The latest wheel turns fastest.  When it has turned through, its factor waits again. -/
def remainingWheels (buffer : Array Char) (waiting : List Expr) : List (Wheel Walk) → Listing
  | [] => .nil
  | { factor, mark, cursor } :: wheels =>
      ((Listing.product (remaining cursor) (Expr.factorListing waiting)).map
          (buffer.toList.take mark ++ ·)).append
        (remainingWheels buffer (factor :: waiting) wheels)

end

/-! ### Sound walks -/

mutual

/-- The marks of an odometer lie in order within its buffer, and whatever a walk will start is
`allowed`. -/
def Sound (allowed : Expr → Prop) : Walk → Prop
  | .single _ => True
  | .odometer wheels waiting buffer =>
      SoundWheels allowed buffer.size wheels ∧ ∀ factor ∈ waiting, allowed factor
  | .choice none pending => ∀ alternative ∈ pending, allowed alternative
  | .choice (some current) pending =>
      Sound allowed current ∧ ∀ alternative ∈ pending, allowed alternative
  | .unrepeated inner => allowed inner
  | .repetition inner _ none => allowed inner
  | .repetition inner _ (some { stem := _, cursor }) => allowed inner ∧ Sound allowed cursor

def SoundWheels (allowed : Expr → Prop) (filled : Nat) : List (Wheel Walk) → Prop
  | [] => True
  | { factor, mark, cursor } :: wheels =>
      mark ≤ filled ∧ allowed factor ∧ Sound allowed cursor ∧ SoundWheels allowed mark wheels

end

end Walk

structure Hereditary (allowed : Expr → Prop) : Prop where
  concat : ∀ {factors}, allowed (.concat factors) → ∀ factor ∈ factors, allowed factor
  union : ∀ {alternatives}, allowed (.union alternatives) →
    ∀ alternative ∈ alternatives, allowed alternative
  star : ∀ {inner}, allowed (.star inner) → allowed inner

theorem hereditary_unionsNonempty : Hereditary fun expr => expr.unionsNonempty = true where
  concat := fun nonempty => by
    rw [Expr.unionsNonempty] at nonempty
    exact Expr.allUnionsNonempty_iff.mp nonempty
  union := fun nonempty => by
    rw [Expr.unionsNonempty, Bool.and_eq_true] at nonempty
    exact Expr.allUnionsNonempty_iff.mp nonempty.2
  star := fun nonempty => by rwa [Expr.unionsNonempty] at nonempty

namespace Walk

variable {allowed : Expr → Prop}

theorem SoundWheels.mono {filled more : Nat} (enough : filled ≤ more) :
    ∀ {wheels : List (Wheel Walk)},
      SoundWheels allowed filled wheels → SoundWheels allowed more wheels
  | [], _ => by simp [SoundWheels]
  | { factor, mark, cursor } :: wheels, sound => by
      rw [SoundWheels] at sound ⊢
      exact ⟨sound.1.trans enough, sound.2⟩

theorem sound_start (hereditary : Hereditary allowed) (expr : Expr) (permitted : allowed expr) :
    (start expr).Sound allowed := by
  fun_induction start expr with
  | case1 symbol => simp [Sound]
  | case2 => simp [Sound]
  | case3 => simp [Sound]
  | case4 factor factors inductionHypothesis =>
      have factorsPermitted := hereditary.concat permitted
      have firstPermitted := factorsPermitted factor List.mem_cons_self
      rw [Sound, SoundWheels, SoundWheels]
      exact ⟨⟨Nat.zero_le _, firstPermitted, inductionHypothesis firstPermitted, trivial⟩,
        fun later present => factorsPermitted later (List.mem_cons_of_mem _ present)⟩
  | case5 alternatives =>
      rw [Sound]
      exact hereditary.union permitted
  | case6 inner =>
      rw [Sound]
      exact hereditary.star permitted

/-- The words of a fresh walk are those of its expression. -/
theorem remaining_start (expr : Expr) : (start expr).remaining = expr.listing := by
  fun_induction start expr with
  | case1 symbol => simp [remaining, Expr.listing]
  | case2 => simp [remaining, Expr.listing]
  | case3 => simp [remaining, Expr.listing, Expr.factorListing]
  | case4 factor factors inductionHypothesis =>
      rw [remaining, remainingWheels, remainingWheels, inductionHypothesis, Expr.listing,
        Expr.factorListing, List.take_zero, Listing.map_nil_append, Seq.append_nil]
  | case5 alternatives => simp [remaining, Expr.listing]
  | case6 inner => simp [remaining, Expr.listing]

end Walk

/-! ### Levels of a repetition -/

namespace Levels

variable (levels : Levels) (inner : Listing)

theorem remaining_cons (word : Word) (rest : Listing) :
    levels.remaining inner (.cons word rest) =
      .cons word ((levels.record word).remaining inner rest) := by
  have foundEq : (Seq.ofList (levels.record word).found.toList).append rest =
      (Seq.ofList levels.found.toList).append (.cons word rest) := by
    rw [record, Array.toList_push, Seq.ofList_append, Seq.append_assoc, Seq.ofList_cons,
      Seq.ofList_nil, Seq.cons_append, Seq.nil_append]
  rw [remaining, remaining, foundEq, Seq.cons_append]

theorem extensionsFrom_of_some {stem : Word} {index : Nat}
    (atIndex : levels.frontier[index]? = some stem) :
    levels.extensionsFrom index inner =
      (inner.map (stem ++ ·)).append (levels.extensionsFrom (index + 1) inner) := by
  have atList : levels.frontier.toList[index]? = some stem := by
    rw [Array.getElem?_toList, atIndex]
  obtain ⟨inside, stemEq⟩ := List.getElem?_eq_some_iff.mp atList
  rw [extensionsFrom, List.drop_eq_getElem_cons inside, stemEq, Seq.ofList_cons,
    Listing.cons_product]
  rfl

theorem extensionsFrom_of_none {index : Nat} (atIndex : levels.frontier[index]? = none) :
    levels.extensionsFrom index inner = .nil := by
  have outside : levels.frontier.size ≤ index := Array.getElem?_eq_none_iff.mp atIndex
  rw [extensionsFrom, List.drop_eq_nil_of_le outside, Seq.ofList_nil, Listing.nil_product]

/-- When a level is complete and had no words, nothing is left. -/
theorem remaining_nil_of_isEmpty (noneFound : levels.found.isEmpty = true) :
    levels.remaining inner .nil = .nil := by
  have foundEq : levels.found.toList = [] := by
    rw [Array.isEmpty_iff.mp noneFound]
  rw [remaining, foundEq, Seq.ofList_nil, Seq.nil_append, Seq.nil_append, Listing.nil_product,
    Listing.levelled_nil]

/-- When a level is complete, the next one is started on the words found. -/
theorem remaining_nil :
    levels.remaining inner .nil =
      levels.advance.remaining inner (levels.advance.extensionsFrom 0 inner) := by
  have restEq : levels.advance.extensionsFrom 0 inner =
      Listing.product (Seq.ofList levels.found.toList) inner := rfl
  have noneFound : Seq.ofList levels.advance.found.toList = (.nil : Listing) := Seq.ofList_nil
  rw [restEq, remaining, remaining, noneFound, Seq.nil_append, Seq.nil_append, Seq.append_nil,
    Listing.levelled_eq]

/-- Behind the empty word, a repetition goes on with the extensions of level zero. -/
theorem closure_eq :
    Listing.closure inner =
      .cons [] (first.remaining inner (first.extensionsFrom first.index inner)) := by
  have restEq : first.extensionsFrom first.index inner = Listing.product (.single []) inner := by
    rw [extensionsFrom]
    simp [first, Listing.single]
  have noneFound : Seq.ofList first.found.toList = (.nil : Listing) := Seq.ofList_nil
  rw [restEq, remaining, noneFound, Seq.nil_append, ← Listing.levelled_eq, Listing.closure,
    Listing.levelled_eq, Listing.single, Seq.cons_append, Seq.nil_append]

end Levels

/-! ### Steps -/

def Event.Advances (before after : Listing) : Event → Prop
  | .word given => before = .cons given after
  | .exhausted => before = .nil ∧ after = .nil
  | .working => before = after
  | .levelStarted _ => before = after

namespace Walk

variable {allowed : Expr → Prop}

/-- Only the part of the buffer below the latest mark counts. -/
theorem remainingWheels_congr {buffer other : Array Char} :
    ∀ {wheels : List (Wheel Walk)} {filled : Nat} {waiting : List Expr},
      SoundWheels allowed filled wheels →
        other.toList.take filled = buffer.toList.take filled →
          remainingWheels other waiting wheels = remainingWheels buffer waiting wheels
  | [], _, _, _, _ => by simp [remainingWheels]
  | { factor, mark, cursor } :: wheels, filled, waiting, sound, same => by
      rw [SoundWheels] at sound
      have belowMark : other.toList.take mark = buffer.toList.take mark := by
        have cut := congrArg (List.take mark) same
        rwa [List.take_take, List.take_take, Nat.min_eq_left sound.1] at cut
      rw [remainingWheels, remainingWheels, belowMark,
        remainingWheels_congr sound.2.2.2 belowMark]

theorem le_size_shrink_append {buffer : Array Char} {mark : Nat} {part : Word}
    (inside : mark ≤ buffer.size) : mark ≤ (buffer.shrink mark ++ part).size := by
  rw [← Array.length_toList, Array.toList_appendList, Array.toList_shrink, List.length_append,
    List.length_take, Array.length_toList]
  omega

/-- The latest wheel gives a part of the word: all words that go on with it come next. -/
theorem remainingWheels_turn {factor : Expr} {mark : Nat} {cursor next : Walk} {part : Word}
    {wheels : List (Wheel Walk)} (buffer : Array Char) (waiting : List Expr)
    (gives : cursor.remaining = .cons part next.remaining)
    (inside : mark ≤ buffer.size) (sound : SoundWheels allowed mark wheels) :
    remainingWheels buffer waiting ({ factor, mark, cursor } :: wheels) =
      ((Expr.factorListing waiting).map ((buffer.shrink mark ++ part).toList ++ ·)).append
        (remainingWheels (buffer.shrink mark ++ part) waiting
          ({ factor, mark, cursor := next } :: wheels)) := by
  have contents : (buffer.shrink mark ++ part).toList = buffer.toList.take mark ++ part := by
    rw [Array.toList_appendList, Array.toList_shrink]
  have belowMark : (buffer.shrink mark ++ part).toList.take mark = buffer.toList.take mark := by
    have markLength : (buffer.toList.take mark).length = mark := by
      rw [List.length_take, Array.length_toList, Nat.min_eq_left inside]
    rw [contents, List.take_append_of_le_length (Nat.le_of_eq markLength.symm), List.take_take,
      Nat.min_self]
  rw [remainingWheels, remainingWheels, gives, Listing.cons_product, Seq.map_append,
    Listing.map_append_map, Seq.append_assoc, belowMark, contents,
    remainingWheels_congr sound belowMark]

theorem sound_step (hereditary : Hereditary allowed) {walk : Walk} (sound : walk.Sound allowed) :
    walk.step.2.Sound allowed := by
  fun_induction step walk with
  | case3 waiting buffer => exact sound
  | case4 factor mark cursor wheels buffer part next stepped filled turned inductionHypothesis =>
      simp only [Sound, SoundWheels, stepped] at sound inductionHypothesis ⊢
      obtain ⟨⟨inside, permitted, cursorSound, wheelsSound⟩, waitingSound⟩ := sound
      exact ⟨⟨le_size_shrink_append inside, permitted, inductionHypothesis cursorSound,
        wheelsSound⟩, waitingSound⟩
  | case5 factor mark cursor wheels buffer part next stepped filled turned following waiting wheel
      inductionHypothesis =>
      simp only [Sound, SoundWheels, stepped] at sound inductionHypothesis ⊢
      obtain ⟨⟨inside, permitted, cursorSound, wheelsSound⟩, waitingSound⟩ := sound
      have followingPermitted := waitingSound following List.mem_cons_self
      refine ⟨⟨Nat.le_refl _, followingPermitted, sound_start hereditary _ followingPermitted,
        le_size_shrink_append inside, permitted, inductionHypothesis cursorSound, wheelsSound⟩, ?_⟩
      exact fun later present => waitingSound later (List.mem_cons_of_mem _ present)
  | case6 factor mark cursor wheels waiting buffer next stepped inductionHypothesis =>
      simp only [Sound, SoundWheels] at sound ⊢
      obtain ⟨⟨inside, permitted, _, wheelsSound⟩, waitingSound⟩ := sound
      exact ⟨wheelsSound.mono inside, List.forall_mem_cons.mpr ⟨permitted, waitingSound⟩⟩
  | case11 current next stepped following pending inductionHypothesis =>
      simp only [Sound] at sound ⊢
      obtain ⟨followingPermitted, pendingSound⟩ := List.forall_mem_cons.mp sound.2
      exact ⟨sound_start hereditary _ followingPermitted, pendingSound⟩
  | case15 following pending =>
      simp only [Sound] at sound ⊢
      obtain ⟨followingPermitted, pendingSound⟩ := List.forall_mem_cons.mp sound
      exact ⟨sound_start hereditary _ followingPermitted, pendingSound⟩
  | case21 inner levels stem atIndex =>
      simp only [Sound] at sound ⊢
      exact ⟨sound, sound_start hereditary inner sound⟩
  | _ => simp_all [Sound, SoundWheels]

/-! A walk inside that keeps its words keeps those of the walk around it. -/

theorem remaining_odometer_congr {factor : Expr} {mark : Nat} {cursor next : Walk}
    {wheels : List (Wheel Walk)} {waiting : List Expr} {buffer : Array Char}
    (same : cursor.remaining = next.remaining) :
    (odometer ({ factor, mark, cursor } :: wheels) waiting buffer).remaining =
      (odometer ({ factor, mark, cursor := next } :: wheels) waiting buffer).remaining := by
  rw [remaining, remaining, remainingWheels, remainingWheels, same]

theorem remaining_choice_congr {current next : Walk} {pending : List Expr}
    (same : current.remaining = next.remaining) :
    (choice (some current) pending).remaining = (choice (some next) pending).remaining := by
  rw [remaining, remaining, same]

theorem remaining_repetition_congr {inner : Expr} {levels : Levels} {stem : Word}
    {cursor next : Walk} (same : cursor.remaining = next.remaining) :
    (repetition inner levels (some { stem, cursor })).remaining =
      (repetition inner levels (some { stem, cursor := next })).remaining := by
  rw [remaining, remaining, same]

/-- A step of a sound walk does to the words to come what its event says. -/
theorem step_advances {walk : Walk} (sound : walk.Sound allowed) :
    walk.step.1.Advances walk.remaining walk.step.2.remaining := by
  fun_induction step walk with
  | case1 word => rfl
  | case2 => exact ⟨rfl, rfl⟩
  | case3 waiting buffer =>
      rw [remaining, remainingWheels]
      exact ⟨rfl, rfl⟩
  | case4 factor mark cursor wheels buffer part next stepped filled turned inductionHypothesis =>
      rw [Sound, SoundWheels] at sound
      obtain ⟨⟨inside, _, cursorSound, wheelsSound⟩, _⟩ := sound
      have gives : cursor.remaining = .cons part next.remaining := by
        simpa only [stepped, Event.Advances] using inductionHypothesis cursorSound
      change remainingWheels buffer [] ({ factor, mark, cursor } :: wheels) =
        .cons filled.toList (remainingWheels filled [] turned)
      rw [remainingWheels_turn buffer [] gives inside wheelsSound, Expr.factorListing,
        Listing.single, Seq.map_cons, Seq.map_nil, List.append_nil, Seq.cons_append,
        Seq.nil_append]
  | case5 factor mark cursor wheels buffer part next stepped filled turned following waiting wheel
      inductionHypothesis =>
      rw [Sound, SoundWheels] at sound
      obtain ⟨⟨inside, _, cursorSound, wheelsSound⟩, _⟩ := sound
      have gives : cursor.remaining = .cons part next.remaining := by
        simpa only [stepped, Event.Advances] using inductionHypothesis cursorSound
      have full : filled.toList.take filled.size = filled.toList :=
        List.take_of_length_le (Nat.le_of_eq Array.length_toList)
      change remainingWheels buffer (following :: waiting) ({ factor, mark, cursor } :: wheels) =
        remainingWheels filled waiting (wheel :: turned)
      rw [remainingWheels_turn buffer _ gives inside wheelsSound]
      change _ = ((Listing.product (start following).remaining (Expr.factorListing waiting)).map
        (filled.toList.take filled.size ++ ·)).append
          (remainingWheels filled (following :: waiting) turned)
      rw [full, remaining_start, Expr.factorListing]
  | case6 factor mark cursor wheels waiting buffer next stepped inductionHypothesis =>
      rw [Sound, SoundWheels] at sound
      obtain ⟨ended, _⟩ : cursor.remaining = .nil ∧ next.remaining = .nil := by
        simpa only [stepped, Event.Advances] using inductionHypothesis sound.1.2.2.1
      change remainingWheels buffer waiting ({ factor, mark, cursor } :: wheels) =
        remainingWheels buffer (factor :: waiting) wheels
      rw [remainingWheels, ended, Listing.nil_product, Seq.map_nil, Seq.nil_append]
  | case7 factor mark cursor wheels waiting buffer next stepped inductionHypothesis =>
      rw [Sound, SoundWheels] at sound
      have same : cursor.remaining = next.remaining := by
        simpa only [stepped, Event.Advances] using inductionHypothesis sound.1.2.2.1
      exact remaining_odometer_congr same
  | case8 factor mark cursor wheels waiting buffer level next stepped inductionHypothesis =>
      rw [Sound, SoundWheels] at sound
      have same : cursor.remaining = next.remaining := by
        simpa only [stepped, Event.Advances] using inductionHypothesis sound.1.2.2.1
      exact remaining_odometer_congr same
  | case9 current pending word next stepped inductionHypothesis =>
      rw [Sound] at sound
      have gives : current.remaining = .cons word next.remaining := by
        simpa only [stepped, Event.Advances] using inductionHypothesis sound.1
      change (choice (some current) pending).remaining =
        .cons word (choice (some next) pending).remaining
      rw [remaining, remaining, gives, Seq.cons_append]
  | case10 current next stepped inductionHypothesis =>
      rw [Sound] at sound
      obtain ⟨ended, nextEnded⟩ : current.remaining = .nil ∧ next.remaining = .nil := by
        simpa only [stepped, Event.Advances] using inductionHypothesis sound.1
      change (choice (some current) []).remaining = .nil ∧ (choice (some next) []).remaining = .nil
      rw [remaining, remaining, Expr.alternativeListing, ended, nextEnded, Seq.nil_append]
      exact ⟨rfl, rfl⟩
  | case11 current next stepped following pending inductionHypothesis =>
      rw [Sound] at sound
      obtain ⟨ended, _⟩ : current.remaining = .nil ∧ next.remaining = .nil := by
        simpa only [stepped, Event.Advances] using inductionHypothesis sound.1
      change (choice (some current) (following :: pending)).remaining =
        (choice (some (start following)) pending).remaining
      rw [remaining, remaining, ended, Seq.nil_append, remaining_start, Expr.alternativeListing]
  | case12 current pending next stepped inductionHypothesis =>
      rw [Sound] at sound
      have same : current.remaining = next.remaining := by
        simpa only [stepped, Event.Advances] using inductionHypothesis sound.1
      exact remaining_choice_congr same
  | case13 current pending level next stepped inductionHypothesis =>
      rw [Sound] at sound
      have same : current.remaining = next.remaining := by
        simpa only [stepped, Event.Advances] using inductionHypothesis sound.1
      exact remaining_choice_congr same
  | case14 =>
      rw [remaining, Expr.alternativeListing]
      exact ⟨rfl, rfl⟩
  | case15 following pending =>
      change (choice none (following :: pending)).remaining =
        (choice (some (start following)) pending).remaining
      rw [remaining, remaining, remaining_start, Expr.alternativeListing]
  | case16 inner =>
      change (unrepeated inner).remaining = .cons [] (repetition inner .first none).remaining
      rw [remaining, remaining, ← Levels.closure_eq]
  | case17 inner levels stem cursor suffix next stepped word inductionHypothesis =>
      rw [Sound] at sound
      have gives : cursor.remaining = .cons suffix next.remaining := by
        simpa only [stepped, Event.Advances] using inductionHypothesis sound.2
      change (repetition inner levels (some { stem, cursor })).remaining =
        .cons word (repetition inner (levels.record word) (some { stem, cursor := next })).remaining
      rw [remaining, remaining, gives, Seq.map_cons, Seq.cons_append, Levels.remaining_cons]
      rfl
  | case18 inner levels stem cursor next stepped inductionHypothesis =>
      rw [Sound] at sound
      obtain ⟨ended, _⟩ : cursor.remaining = .nil ∧ next.remaining = .nil := by
        simpa only [stepped, Event.Advances] using inductionHypothesis sound.2
      change (repetition inner levels (some { stem, cursor })).remaining =
        (repetition inner levels.turn none).remaining
      rw [remaining, remaining, ended, Seq.map_nil, Seq.nil_append]
      rfl
  | case19 inner levels stem cursor next stepped inductionHypothesis =>
      rw [Sound] at sound
      have same : cursor.remaining = next.remaining := by
        simpa only [stepped, Event.Advances] using inductionHypothesis sound.2
      exact remaining_repetition_congr same
  | case20 inner levels stem cursor level next stepped inductionHypothesis =>
      rw [Sound] at sound
      have same : cursor.remaining = next.remaining := by
        simpa only [stepped, Event.Advances] using inductionHypothesis sound.2
      exact remaining_repetition_congr same
  | case21 inner levels stem atIndex =>
      change (repetition inner levels none).remaining =
        (repetition inner levels (some { stem, cursor := start inner })).remaining
      rw [remaining, remaining, remaining_start, levels.extensionsFrom_of_some _ atIndex]
  | case22 inner levels atIndex noneFound =>
      have ended : (repetition inner levels none).remaining = .nil := by
        rw [remaining, levels.extensionsFrom_of_none _ atIndex,
          levels.remaining_nil_of_isEmpty _ noneFound]
      exact ⟨ended, ended⟩
  | case23 inner levels atIndex someFound advanced =>
      change (repetition inner levels none).remaining = (repetition inner advanced none).remaining
      rw [remaining, remaining, levels.extensionsFrom_of_none _ atIndex, levels.remaining_nil]
      rfl

end Walk

end RegularWords
