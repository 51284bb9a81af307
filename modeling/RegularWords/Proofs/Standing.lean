import RegularWords.Proofs.Breaks

/-!
What a text leaves open, seen from the left.

Reading character by character, it is enough to know whether a factor ends where the reader stands
and which groups are still open.  Whether a character is an operator or starts a factor depends on
that alone, not on the alphabet.  No tree is built and no limit of depth is kept.  A complete
derivation leaves the groups around it as they were, and where a derivation breaks off the reader is
stuck in a way that its error tells.
-/

namespace RegularWords.Grammar

/-- Where a reader stands: the place, whether a factor ends there, and where the groups were opened
that are still open, innermost first. -/
structure Standing where
  position : Position
  behindFactor : Bool
  opened : List Position
  deriving DecidableEq

namespace Standing

def start : Standing :=
  { position := { offset := 0 }, behindFactor := false, opened := [] }

def past (standing : Standing) (length : Nat) : Standing :=
  { position := { offset := standing.position.offset + length }
    behindFactor := true
    opened := standing.opened }

def insideGroup (standing : Standing) : Standing :=
  { position := standing.position.next
    behindFactor := false
    opened := standing.position :: standing.opened }

def behindPlus (standing : Standing) : Standing :=
  { position := standing.position.next, behindFactor := false, opened := standing.opened }

/-- A factor has to start where none has ended before, and behind a factor if the text goes on
without an operator. -/
def AtFactor (standing : Standing) (next : Option Char) : Prop :=
  standing.behindFactor = true →
    ∃ character ∈ next, character ≠ '+' ∧ character ≠ '*' ∧ character ≠ ')'

instance (standing : Standing) (next : Option Char) : Decidable (standing.AtFactor next) :=
  have : Decidable (∃ character ∈ next, character ≠ '+' ∧ character ≠ '*' ∧ character ≠ ')') :=
    Option.decidableExistsMem next
  inferInstanceAs (Decidable (_ → _))

/-- Reads a character, unless it starts no factor where one has to start or closes nothing. -/
def read (alphabet : Alphabet) (standing : Standing) (character : Char) : Option Standing :=
  if standing.AtFactor (some character) then
    if character = '(' then
      some standing.insideGroup
    else if character = '@' ∨ character ∈ alphabet.symbols then
      some (standing.past 1)
    else
      none
  else if character = '*' then
    some (standing.past 1)
  else if character = '+' then
    some standing.behindPlus
  else
    -- Behind a factor only a closing parenthesis is left.
    match standing.opened with
    | [] => none
    | _ :: outer => some { standing.past 1 with opened := outer }

def readAll (alphabet : Alphabet) (standing : Standing) (text : List Char) : Option Standing :=
  text.foldlM (read alphabet) standing

variable {alphabet : Alphabet} {standing : Standing}

/-! ### One character -/

theorem atFactor_insideGroup (next : Option Char) : standing.insideGroup.AtFactor next :=
  fun impossible => absurd impossible Bool.false_ne_true

theorem atFactor_behindPlus (next : Option Char) : standing.behindPlus.AtFactor next :=
  fun impossible => absurd impossible Bool.false_ne_true

theorem past_past (first second : Nat) :
    (standing.past first).past second = standing.past (first + second) :=
  congrArg (fun offset => Standing.mk { offset } true standing.opened) (Nat.add_assoc _ _ _)

theorem position_insideGroup_past (length : Nat) :
    (standing.insideGroup.past length).position = (standing.past (length + 1)).position := by
  simp only [past, insideGroup, Position.next]
  congr 1
  omega

theorem past_behindPlus_past (first second : Nat) :
    (standing.past first).behindPlus.past second = standing.past (first + (second + 1)) := by
  simp only [past, behindPlus, Position.next]
  congr 2
  omega

theorem read_opening (atFactor : standing.AtFactor (some '(')) :
    standing.read alphabet '(' = some standing.insideGroup := by
  rw [read, if_pos atFactor, if_pos rfl]

theorem read_leaf {character : Char} (atFactor : standing.AtFactor (some character))
    (notOpening : character ≠ '(') (isLeaf : character = '@' ∨ character ∈ alphabet.symbols) :
    standing.read alphabet character = some (standing.past 1) := by
  rw [read, if_pos atFactor, if_neg notOpening, if_pos isLeaf]

theorem not_atFactor_past {length : Nat} {character : Char}
    (isOperator : character = '+' ∨ character = '*' ∨ character = ')') :
    ¬ (standing.past length).AtFactor (some character) := by
  intro atFactor
  obtain ⟨other, isNext, notPlus, notStar, notClosing⟩ := atFactor rfl
  cases Option.some.inj isNext
  rcases isOperator with isPlus | isStar | isClosing
  · exact notPlus isPlus
  · exact notStar isStar
  · exact notClosing isClosing

theorem read_past_star (length : Nat) :
    (standing.past length).read alphabet '*' = some (standing.past (length + 1)) := by
  rw [read, if_neg (not_atFactor_past (.inr (.inl rfl))), if_pos rfl, past_past]

theorem read_past_plus (length : Nat) :
    (standing.past length).read alphabet '+' = some (standing.past length).behindPlus := by
  rw [read, if_neg (not_atFactor_past (.inl rfl)), if_neg (by decide), if_pos rfl]

/-- A closing parenthesis makes a factor of the group and what is inside. -/
theorem read_insideGroup_past_closing (length : Nat) :
    (standing.insideGroup.past length).read alphabet ')' = some (standing.past (length + 2)) := by
  rw [read, if_neg (not_atFactor_past (.inr (.inr rfl))), if_neg (by decide), if_neg (by decide)]
  simp only [past, insideGroup, Position.next]
  congr 3
  omega

/-! ### Texts -/

theorem readAll_nil : standing.readAll alphabet [] = some standing := rfl

theorem readAll_cons {character : Char} {next : Standing} {text : List Char}
    (reads : standing.read alphabet character = some next) :
    standing.readAll alphabet (character :: text) = next.readAll alphabet text := by
  rw [readAll, List.foldlM_cons, reads]
  rfl

theorem readAll_append {first second : List Char} {next : Standing}
    (reads : standing.readAll alphabet first = some next) :
    standing.readAll alphabet (first ++ second) = next.readAll alphabet second := by
  rw [readAll] at reads
  rw [readAll, List.foldlM_append, reads]
  rfl

theorem readAll_stars (length stars : Nat) :
    (standing.past length).readAll alphabet (List.replicate stars '*') =
      some (standing.past (length + stars)) := by
  induction stars generalizing length with
  | zero => rfl
  | succ stars inductionHypothesis =>
      rw [List.replicate_succ, readAll_cons (read_past_star length), inductionHypothesis]
      congr 2
      omega

/-! ### Open groups -/

theorem opened_of_read {character : Char} {next : Standing}
    (reads : standing.read alphabet character = some next) :
    next.position = standing.position.next ∧ ∀ opened ∈ next.opened,
      opened ∈ standing.opened ∨ (opened = standing.position ∧ character = '(') := by
  unfold read at reads
  split at reads
  · split at reads
    · rename_i isOpening
      cases reads
      refine ⟨rfl, ?_⟩
      intro opened isOpened
      rcases List.mem_cons.mp isOpened with isLast | before
      · exact .inr ⟨isLast, isOpening⟩
      · exact .inl before
    · split at reads
      · cases reads
        exact ⟨rfl, fun _ before => .inl before⟩
      · cases reads
  · split at reads
    · cases reads
      exact ⟨rfl, fun _ before => .inl before⟩
    · split at reads
      · cases reads
        exact ⟨rfl, fun _ before => .inl before⟩
      · split at reads
        · cases reads
        · rename_i innermost outer groups
          cases reads
          refine ⟨rfl, ?_⟩
          intro opened isOuter
          rw [groups]
          exact .inl (.tail innermost isOuter)

/-- Groups are opened by opening parentheses alone. -/
theorem opened_of_readAll {text : List Char} {reached : Standing}
    (reads : standing.readAll alphabet text = some reached) :
    ∀ opened ∈ reached.opened, opened ∈ standing.opened ∨
      ∃ index, text[index]? = some '(' ∧ opened.offset = standing.position.offset + index := by
  induction text generalizing standing with
  | nil =>
      cases reads
      exact fun _ before => .inl before
  | cons character text inductionHypothesis =>
      intro opened isOpened
      cases readsFirst : standing.read alphabet character with
      | none =>
          rw [readAll, List.foldlM_cons, readsFirst] at reads
          cases reads
      | some next =>
          obtain ⟨position, openedFirst⟩ := opened_of_read readsFirst
          rw [readAll_cons readsFirst] at reads
          rcases inductionHypothesis reads opened isOpened with isNext | ⟨index, isOpening, offset⟩
          · rcases openedFirst opened isNext with before | ⟨isHere, isOpening⟩
            · exact .inl before
            · exact .inr ⟨0, congrArg some isOpening, congrArg Position.offset isHere⟩
          · refine .inr ⟨index + 1, isOpening, ?_⟩
            rw [offset, position]
            exact Nat.succ_add_eq_add_succ _ _

example : (start.readAll ⟨['a', '+'], by decide, by decide⟩ "((a)+(+".toList).map opened =
    some [⟨5⟩, ⟨0⟩] := by decide

end Standing

/-! ### Derivations -/

theorem head?_append_of_cons {text : List Char} (starts : ∃ initial rest, text = initial :: rest)
    (behind : List Char) : (text ++ behind).head? = text.head? := by
  obtain ⟨initial, rest, rfl⟩ := starts
  rfl

theorem head?_or_of_cons {text : List Char} (starts : ∃ initial rest, text = initial :: rest)
    (next : Option Char) : text.head?.or next = text.head? := by
  obtain ⟨initial, rest, rfl⟩ := starts
  rfl

theorem Standing.atFactor_of_startsFactor {standing : Standing} {later : ConcatDerivation}
    (starts : StartsFactor later.text) : standing.AtFactor later.text.head? := by
  intro _
  obtain ⟨initial, rest, text⟩ := later.exists_text_eq_cons
  have isInitial : initial ∈ later.text.head? := by rw [text, List.head?_cons, Option.mem_some]
  exact ⟨initial, isInitial, starts initial isInitial⟩

variable {alphabet : Alphabet}

mutual

/-- A complete derivation is one factor more, and leaves no group open. -/
theorem PrimaryDerivation.readAll_text : ∀ {derivation : PrimaryDerivation} {standing : Standing},
    derivation.Valid alphabet → standing.AtFactor derivation.text.head? →
      standing.readAll alphabet derivation.text = some (standing.past derivation.text.length)
  | .group inside, standing, valid, atFactor => by
      have readInside : standing.insideGroup.readAll alphabet inside.text =
          some (standing.insideGroup.past inside.text.length) :=
        UnionDerivation.readAll_text valid (standing.atFactor_insideGroup _)
      rw [PrimaryDerivation.text, Standing.readAll_cons (Standing.read_opening atFactor),
        Standing.readAll_append readInside,
        Standing.readAll_cons (Standing.read_insideGroup_past_closing _), Standing.readAll_nil,
        List.length_cons, List.length_append, List.length_singleton]
  | .emptyWord, standing, _, atFactor =>
      Standing.readAll_cons (Standing.read_leaf atFactor (by decide) (.inl rfl))
  | .symbol character, standing, valid, atFactor =>
      Standing.readAll_cons (Standing.read_leaf atFactor valid.2.1 (.inr valid.1))

theorem StarDerivation.readAll_text : ∀ {derivation : StarDerivation} {standing : Standing},
    derivation.Valid alphabet → standing.AtFactor derivation.text.head? →
      standing.readAll alphabet derivation.text = some (standing.past derivation.text.length)
  | .starred primary stars, standing, valid, atFactor => by
      rw [StarDerivation.text, head?_append_of_cons primary.exists_text_eq_cons] at atFactor
      rw [StarDerivation.text,
        Standing.readAll_append (PrimaryDerivation.readAll_text valid atFactor),
        Standing.readAll_stars, List.length_append, List.length_replicate]

theorem ConcatDerivation.readAll_text : ∀ {derivation : ConcatDerivation} {standing : Standing},
    derivation.Valid alphabet → standing.AtFactor derivation.text.head? →
      standing.readAll alphabet derivation.text = some (standing.past derivation.text.length)
  | .last _, _, valid, atFactor => StarDerivation.readAll_text valid atFactor
  | .more factor later, standing, valid, atFactor => by
      obtain ⟨factorValid, laterValid, starts⟩ := valid
      rw [ConcatDerivation.text, head?_append_of_cons factor.exists_text_eq_cons] at atFactor
      rw [ConcatDerivation.text,
        Standing.readAll_append (StarDerivation.readAll_text factorValid atFactor),
        ConcatDerivation.readAll_text laterValid (Standing.atFactor_of_startsFactor starts),
        Standing.past_past, List.length_append]

theorem UnionDerivation.readAll_text : ∀ {derivation : UnionDerivation} {standing : Standing},
    derivation.Valid alphabet → standing.AtFactor derivation.text.head? →
      standing.readAll alphabet derivation.text = some (standing.past derivation.text.length)
  | .last _, _, valid, atFactor => ConcatDerivation.readAll_text valid atFactor
  | .more alternative later, standing, valid, atFactor => by
      rw [UnionDerivation.text, head?_append_of_cons alternative.exists_text_eq_cons] at atFactor
      have readLater := UnionDerivation.readAll_text valid.2
        ((standing.past alternative.text.length).atFactor_behindPlus later.text.head?)
      rw [UnionDerivation.text,
        Standing.readAll_append (ConcatDerivation.readAll_text valid.1 atFactor),
        Standing.readAll_cons (Standing.read_past_plus _), readLater, Standing.past_behindPlus_past,
        List.length_append, List.length_cons]

end

/-! ### Breaks -/

/-- How reading can come to a standstill before the next character, or at the end: no factor starts
where one has to, or the innermost open group is not closed. -/
inductive Standing.Stuck (alphabet : Alphabet) (standing : Standing) :
    Option Char → SyntaxError → Prop where
  | ended (atFactor : standing.AtFactor none) :
      Stuck alphabet standing none (.unexpectedEnd standing.position)
  | unreadable {character : Char} (atFactor : standing.AtFactor (some character))
      (notOpening : character ≠ '(') (notEmptyWord : character ≠ '@')
      (noSymbol : character ∉ alphabet.symbols) :
      Stuck alphabet standing (some character) (.unexpectedChar standing.position character)
  | unclosed {opened : Position} {outer : List Position}
      (innermost : standing.opened = opened :: outer) :
      Stuck alphabet standing none (.unmatchedParen opened standing.position none)

namespace Standing.Stuck

variable {standing : Standing} {next : Option Char} {position : Position}

theorem not_unmatchedCloseParen :
    ¬ standing.Stuck alphabet next (.unmatchedCloseParen position) := by
  intro stuck
  cases stuck

theorem of_unexpectedEnd (stuck : standing.Stuck alphabet next (.unexpectedEnd position)) :
    next = none ∧ standing.AtFactor next := by
  cases stuck with
  | ended atFactor => exact ⟨rfl, atFactor⟩

theorem of_unexpectedChar {character : Char}
    (stuck : standing.Stuck alphabet next (.unexpectedChar position character)) :
    next = some character ∧ standing.AtFactor next ∧
      character ∉ alphabet.symbols ∧ character ≠ '(' ∧ character ≠ '@' := by
  cases stuck with
  | unreadable atFactor notOpening notEmptyWord noSymbol =>
      exact ⟨rfl, atFactor, noSymbol, notOpening, notEmptyWord⟩

theorem of_unmatchedParen {opened : Position} {found : Option Char}
    (stuck : standing.Stuck alphabet next (.unmatchedParen opened position found)) :
    next = none ∧ found = none ∧ standing.opened.head? = some opened := by
  cases stuck with
  | unclosed innermost => exact ⟨rfl, rfl, congrArg List.head? innermost⟩

end Standing.Stuck

variable {next : Option Char}

mutual

/-- Where a derivation breaks off a reader is stuck, with its error. -/
theorem PrimaryBreak.stuck : ∀ {brk : PrimaryBreak} {room : Nat} {standing : Standing},
    brk.Fits alphabet room next → standing.AtFactor (brk.text.head?.or next) →
      ∃ reached, standing.readAll alphabet brk.text = some reached ∧
        reached.Stuck alphabet next (brk.error next (standing.past brk.text.length).position)
  | .missing, _, standing, fits, atFactor => by
      refine ⟨standing, rfl, ?_⟩
      cases next with
      | none => exact .ended atFactor
      | some character =>
          obtain ⟨notOpening, notEmptyWord, noSymbol⟩ := fits character rfl
          exact .unreadable atFactor notOpening notEmptyWord noSymbol
  | .group inside, _, standing, fits, atFactor => by
      obtain ⟨reached, readInside, stuck⟩ := GroupBreak.stuck fits
      rw [Standing.position_insideGroup_past] at stuck
      refine ⟨reached, ?_, stuck⟩
      rw [PrimaryBreak.text, Standing.readAll_cons (Standing.read_opening atFactor), readInside]

/-- The group was opened where the reader stood before. -/
theorem GroupBreak.stuck : ∀ {brk : GroupBreak} {room : Nat} {standing : Standing},
    brk.Fits alphabet room next →
      ∃ reached, standing.insideGroup.readAll alphabet brk.text = some reached ∧
        reached.Stuck alphabet next
          (brk.error next (standing.insideGroup.past brk.text.length).position)
  | .inside _, _, standing, fits => UnionBreak.stuck fits.2 (standing.atFactor_insideGroup _)
  | .unclosed union, _, standing, fits => by
      obtain ⟨unionFits, rfl⟩ := fits
      refine ⟨_, UnionDerivation.readAll_text unionFits.valid (standing.atFactor_insideGroup _), ?_⟩
      have opened : standing.position =
          { offset := (standing.insideGroup.past union.text.length).position.offset -
              (union.text.length + 1) } := by
        rw [Standing.position_insideGroup_past]
        exact congrArg Position.mk (Nat.add_sub_cancel _ _).symm
      rw [GroupBreak.error, GroupBreak.text, ← opened]
      exact .unclosed rfl

theorem ConcatBreak.stuck : ∀ {brk : ConcatBreak} {room : Nat} {standing : Standing},
    brk.Fits alphabet room next → standing.AtFactor (brk.text.head?.or next) →
      ∃ reached, standing.readAll alphabet brk.text = some reached ∧
        reached.Stuck alphabet next (brk.error next (standing.past brk.text.length).position)
  | .here _, _, _, fits, atFactor => PrimaryBreak.stuck fits atFactor
  | .behind factor later, _, standing, fits, atFactor => by
      obtain ⟨factorFits, laterFits, follows⟩ := fits
      have laterAtFactor : (standing.past factor.text.length).AtFactor
          (later.text.head?.or next) := fun _ => follows.exists_character
      obtain ⟨reached, readLater, stuck⟩ := ConcatBreak.stuck laterFits laterAtFactor
      rw [Standing.past_past, ← List.length_append] at stuck
      rw [ConcatBreak.text, head?_append_of_cons factor.exists_text_eq_cons,
        head?_or_of_cons factor.exists_text_eq_cons] at atFactor
      refine ⟨reached, ?_, stuck⟩
      rw [ConcatBreak.text,
        Standing.readAll_append (StarDerivation.readAll_text factorFits.valid atFactor), readLater]

theorem UnionBreak.stuck : ∀ {brk : UnionBreak} {room : Nat} {standing : Standing},
    brk.Fits alphabet room next → standing.AtFactor (brk.text.head?.or next) →
      ∃ reached, standing.readAll alphabet brk.text = some reached ∧
        reached.Stuck alphabet next (brk.error next (standing.past brk.text.length).position)
  | .here _, _, _, fits, atFactor => ConcatBreak.stuck fits atFactor
  | .behind alternative later, _, standing, fits, atFactor => by
      obtain ⟨reached, readLater, stuck⟩ := UnionBreak.stuck fits.2
        ((standing.past alternative.text.length).atFactor_behindPlus (later.text.head?.or next))
      rw [Standing.past_behindPlus_past] at stuck
      rw [UnionBreak.text, head?_append_of_cons alternative.exists_text_eq_cons,
        head?_or_of_cons alternative.exists_text_eq_cons] at atFactor
      refine ⟨reached, ?_, ?_⟩
      · rw [UnionBreak.text,
          Standing.readAll_append (ConcatDerivation.readAll_text fits.1.valid atFactor),
          Standing.readAll_cons (Standing.read_past_plus _), readLater]
      · rw [UnionBreak.text, List.length_append, List.length_cons]
        exact stuck

end

theorem UnionBreak.stuck_from_start {brk : UnionBreak} {room : Nat}
    (fits : brk.Fits alphabet room next) :
    ∃ reached, Standing.start.readAll alphabet brk.text = some reached ∧
      reached.Stuck alphabet next (brk.error next { offset := brk.text.length }) := by
  have atStart : Standing.start.AtFactor (brk.text.head?.or next) :=
    fun impossible => absurd impossible Bool.false_ne_true
  obtain ⟨reached, reads, stuck⟩ := UnionBreak.stuck fits atStart
  have position : (Standing.start.past brk.text.length).position = { offset := brk.text.length } :=
    congrArg Position.mk (Nat.zero_add _)
  rw [position] at stuck
  exact ⟨reached, reads, stuck⟩

end RegularWords.Grammar
