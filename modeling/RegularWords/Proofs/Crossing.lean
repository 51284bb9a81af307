import RegularWords.Proofs.EarliestError
import RegularWords.Proofs.ParsedLeaves

/-!
Where a text crosses the limit of depth.

The limit is crossed at a parenthesis that opens one group more than may be open, at a star behind a
factor that is as high as a tree may be, or by a chain with such an operand.  Parentheses and stars
are blamed themselves.  A chain is blamed at its first character, which is part of its first
operand, whichever operand is so high: often that character is no parenthesis and no star at all.
-/

namespace RegularWords.Grammar

variable {alphabet : Alphabet} {text : List Char} {room : Nat} {error : SyntaxError}

/-! ### Readers in a text -/

structure Standing.Reaches (alphabet : Alphabet) (text : List Char) (standing : Standing)
    (cursor : Cursor) : Prop where
  inText : cursor.In text
  reads : start.readAll alphabet (text.take cursor.position.offset) = some standing

theorem Cursor.In.take_eq {start stop : Cursor} {read : List Char} (inText : start.In text)
    (spans : start.Spans read stop) :
    text.take stop.position.offset = text.take start.position.offset ++ read := by
  have ahead : (text.drop start.position.offset).take read.length = read := by
    rw [← inText, spans.rest, List.take_left]
  rw [spans.offset, List.take_add, ahead]

theorem Cursor.In.of_spans {start stop : Cursor} {read : List Char} (inText : start.In text)
    (spans : start.Spans read stop) : stop.In text := by
  unfold Cursor.In at inText ⊢
  rw [spans.offset, ← List.drop_drop, ← inText, spans.rest, List.drop_left]

theorem Cursor.In.getElem?_eq {cursor : Cursor} (inText : cursor.In text) :
    text[cursor.position.offset]? = cursor.peek := by
  rw [← List.head?_drop, ← inText, Cursor.peek]

theorem Standing.Reaches.onward {standing reached : Standing} {start stop : Cursor}
    {read : List Char} (reaches : standing.Reaches alphabet text start)
    (spans : start.Spans read stop) (reads : standing.readAll alphabet read = some reached) :
    reached.Reaches alphabet text stop where
  inText := reaches.inText.of_spans spans
  reads := by
    rw [reaches.inText.take_eq spans, Standing.readAll_append reaches.reads, reads]

/-- A reader stands where an alternative starts: nothing of it has been read. -/
def Standing.AtAlternative (standing : Standing) : Prop :=
  standing.behindFactor = false

/-- A reader stands where a union starts, which is behind the innermost parenthesis that is open. -/
structure Standing.AtUnion (standing : Standing) : Prop where
  atAlternative : standing.AtAlternative
  position : standing.position =
    match standing.opened with
    | [] => { offset := 0 }
    | innermost :: _ => innermost.next

theorem Standing.AtAlternative.atFactor {standing : Standing}
    (atAlternative : standing.AtAlternative) (next : Option Char) : standing.AtFactor next := by
  intro behindFactor
  rw [atAlternative] at behindFactor
  cases behindFactor

theorem Standing.atUnion_start : Standing.start.AtUnion := ⟨rfl, rfl⟩

theorem Standing.atUnion_insideGroup (standing : Standing) : standing.insideGroup.AtUnion :=
  ⟨rfl, rfl⟩

/-! ### Crossings -/

inductive Culprit where
  | opening
  | star
  | chain
  deriving DecidableEq

/-- A chain whose operands are within the limit, one of them just so. -/
structure Form.TooHigh (form : Form) (operands : form.Derivation → List Subtree) (room : Nat)
    (derivation : form.Derivation) : Prop where
  valid : form.Valid derivation
  groups : form.groups derivation ≤ room
  low : ∀ operand ∈ operands derivation, operand.height ≤ depthLimit
  high : (form.subtree derivation).height = depthLimit + 1

/-- A text starts with a chain that is too high, and the chain ends there. -/
def Form.Overflows (form : Form) (operands : form.Derivation → List Subtree) (room : Nat)
    (text : List Char) : Prop :=
  ∃ derivation behind, form.TooHigh operands room derivation ∧
    text = form.text derivation ++ behind ∧ form.EndsBefore behind.head?

/-- How a text crosses the limit at a position, and what a reader has found before it. -/
inductive Crosses (alphabet : Alphabet) (text : List Char) (position : Position) :
    Culprit → Prop where
  | opening {standing : Standing}
      (reads : Standing.start.readAll alphabet (text.take position.offset) = some standing)
      (atFactor : standing.AtFactor text[position.offset]?)
      (isOpening : text[position.offset]? = some '(')
      (full : standing.opened.length = depthLimit) : Crosses alphabet text position .opening
  | star {standing outside : Standing} {factor : StarDerivation} {before : List Char}
      (reads : Standing.start.readAll alphabet (text.take position.offset) = some standing)
      (behindFactor : ¬ standing.AtFactor text[position.offset]?)
      (isStar : text[position.offset]? = some '*')
      (split : text.take position.offset = before ++ factor.text)
      (readsBefore : Standing.start.readAll alphabet before = some outside)
      (startsFactor : outside.AtFactor factor.text.head?)
      (valid : factor.Valid alphabet) (high : factor.subtree.height = depthLimit) :
      Crosses alphabet text position .star
  | chain {standing : Standing} {room : Nat}
      (reads : Standing.start.readAll alphabet (text.take position.offset) = some standing)
      (atAlternative : standing.AtAlternative)
      (left : standing.opened.length + room = depthLimit)
      (high :
        (concatForm alphabet).Overflows ConcatDerivation.factors room
            (text.drop position.offset) ∨
          standing.AtUnion ∧ (unionForm alphabet).Overflows UnionDerivation.alternatives room
            (text.drop position.offset)) : Crosses alphabet text position .chain

/-! ### A position is crossed in one way -/

mutual

theorem PrimaryDerivation.groups_pos : ∀ {derivation : PrimaryDerivation},
    derivation.Valid alphabet → derivation.text.head? = some '(' → 0 < derivation.groups
  | .group _, _, _ => Nat.succ_pos _
  | .emptyWord, _, isOpening => by cases isOpening
  | .symbol _, valid, isOpening => absurd (Option.some.inj isOpening) valid.2.1

theorem StarDerivation.groups_pos : ∀ {derivation : StarDerivation},
    derivation.Valid alphabet → derivation.text.head? = some '(' → 0 < derivation.groups
  | .starred primary _, valid, isOpening => by
      rw [StarDerivation.text, head?_append_of_cons primary.exists_text_eq_cons] at isOpening
      exact PrimaryDerivation.groups_pos valid isOpening

theorem ConcatDerivation.groups_pos : ∀ {derivation : ConcatDerivation},
    derivation.Valid alphabet → derivation.text.head? = some '(' → 0 < derivation.groups
  | .last _, valid, isOpening => StarDerivation.groups_pos valid isOpening
  | .more factor _, valid, isOpening => by
      rw [ConcatDerivation.text, head?_append_of_cons factor.exists_text_eq_cons] at isOpening
      exact Nat.lt_of_lt_of_le (StarDerivation.groups_pos valid.1 isOpening) (Nat.le_max_left _ _)

theorem UnionDerivation.groups_pos : ∀ {derivation : UnionDerivation},
    derivation.Valid alphabet → derivation.text.head? = some '(' → 0 < derivation.groups
  | .last _, valid, isOpening => ConcatDerivation.groups_pos valid isOpening
  | .more alternative _, valid, isOpening => by
      rw [UnionDerivation.text, head?_append_of_cons alternative.exists_text_eq_cons] at isOpening
      exact Nat.lt_of_lt_of_le (ConcatDerivation.groups_pos valid.1 isOpening)
        (Nat.le_max_left _ _)

end

theorem UnionDerivation.exists_text_eq_cons (derivation : UnionDerivation) :
    ∃ initial rest, derivation.text = initial :: rest := by
  cases derivation with
  | last alternative =>
      rw [text]
      exact alternative.exists_text_eq_cons
  | more alternative later =>
      obtain ⟨initial, rest, starts⟩ := alternative.exists_text_eq_cons
      exact ⟨initial, rest ++ '+' :: later.text, by rw [text, starts, List.cons_append]⟩

/-- There is room for the groups that a chain which is too high starts with. -/
theorem room_pos_of_overflows {standing : Standing} {position : Position}
    (high : (concatForm alphabet).Overflows ConcatDerivation.factors room
        (text.drop position.offset) ∨
      standing.AtUnion ∧ (unionForm alphabet).Overflows UnionDerivation.alternatives room
        (text.drop position.offset))
    (isOpening : text[position.offset]? = some '(') : 0 < room := by
  rw [← List.head?_drop] at isOpening
  rcases high with ⟨derivation, behind, tooHigh, split, _⟩ |
    ⟨_, derivation, behind, tooHigh, split, _⟩
  · have starts := ConcatDerivation.exists_text_eq_cons derivation
    rw [split] at isOpening
    exact Nat.lt_of_lt_of_le (ConcatDerivation.groups_pos tooHigh.valid
      ((head?_append_of_cons starts behind).symm.trans isOpening)) tooHigh.groups
  · have starts := UnionDerivation.exists_text_eq_cons derivation
    rw [split] at isOpening
    exact Nat.lt_of_lt_of_le (UnionDerivation.groups_pos tooHigh.valid
      ((head?_append_of_cons starts behind).symm.trans isOpening)) tooHigh.groups

theorem Crosses.unique {position : Position} {culprit other : Culprit}
    (crosses : Crosses alphabet text position culprit)
    (crossesToo : Crosses alphabet text position other) : culprit = other := by
  cases crosses with
  | opening reads atFactor isOpening full =>
      cases crossesToo with
      | opening => rfl
      | star _ _ isStar => cases isOpening.symm.trans isStar
      | chain readsToo _ left high =>
          cases reads.symm.trans readsToo
          have someRoom := room_pos_of_overflows high isOpening
          omega
  | star reads behindFactor isStar =>
      cases crossesToo with
      | opening _ _ isOpening _ => cases isStar.symm.trans isOpening
      | star => rfl
      | chain readsToo atAlternative =>
          cases reads.symm.trans readsToo
          exact absurd (atAlternative.atFactor _) behindFactor
  | chain reads atAlternative left high =>
      cases crossesToo with
      | opening readsToo _ isOpening full =>
          cases reads.symm.trans readsToo
          have someRoom := room_pos_of_overflows high isOpening
          omega
      | star readsToo behindFactor =>
          cases reads.symm.trans readsToo
          exact absurd (atAlternative.atFactor _) behindFactor
      | chain => rfl

/-! ### Primaries and repetitions -/

def Blamed (alphabet : Alphabet) (text : List Char) (error : SyntaxError) : Prop :=
  ∀ position limit, error = .nestingTooDeep position limit →
    limit = depthLimit ∧ ∃ culprit, Crosses alphabet text position culprit

theorem Crosses.blamed {position : Position} {culprit : Culprit}
    (crosses : Crosses alphabet text position culprit) :
    Blamed alphabet text (.nestingTooDeep position depthLimit) := by
  intro other limit same
  cases same
  exact ⟨rfl, culprit, crosses⟩

def Rule.Blames (rule : Rule) (alphabet : Alphabet) (text : List Char) (room : Nat)
    (starts : Standing → Option Char → Prop) : Prop :=
  ∀ {start : Cursor} {standing : Standing} {error : SyntaxError},
    standing.Reaches alphabet text start → starts standing start.peek →
      standing.opened.length + room = depthLimit → (rule start).outcome = .error error →
        Blamed alphabet text error

abbrev Rule.BlamesFactor (rule : Rule) (alphabet : Alphabet) (text : List Char)
    (room : Nat) : Prop :=
  rule.Blames alphabet text room Standing.AtFactor

abbrev Rule.BlamesAlternative (rule : Rule) (alphabet : Alphabet) (text : List Char)
    (room : Nat) : Prop :=
  rule.Blames alphabet text room fun standing _ => standing.AtAlternative

abbrev Rule.BlamesUnion (rule : Rule) (alphabet : Alphabet) (text : List Char)
    (room : Nat) : Prop :=
  rule.Blames alphabet text room fun standing _ => standing.AtUnion

def GroupsBlame (group : Position → Rule) (alphabet : Alphabet) (text : List Char)
    (room : Nat) : Prop :=
  ∀ {rest : List Char} {position : Position} {standing : Standing} {error : SyntaxError},
    standing.Reaches alphabet text { rest := '(' :: rest, position } →
      standing.AtFactor (some '(') → standing.opened.length + room = depthLimit →
        (group position { rest, position := position.next }).outcome = .error error →
          Blamed alphabet text error

theorem primary_blames {group : Position → Rule}
    (groupsBlame : GroupsBlame group alphabet text room) :
    (primary alphabet group).BlamesFactor alphabet text room := by
  rintro ⟨_ | ⟨character, rest⟩, position⟩ standing error reaches atFactor left failed
  · cases failed
    intro _ _ impossible
    cases impossible
  · rw [outcome_primary_cons] at failed
    split at failed
    · rename_i isOpening
      subst isOpening
      exact groupsBlame reaches atFactor left failed
    · split at failed
      · cases failed
      · split at failed
        · cases failed
        · cases failed
          intro _ _ impossible
          cases impossible

/-- Stars fail at the first of them behind a tree that is at the limit. -/
theorem exists_star_of_outcome_stars {start here : Cursor} {subtree : Subtree}
    {visits : List Visit} {closer : here.remaining < start.remaining}
    (shallow : subtree.height ≤ depthLimit)
    (failed : (stars subtree visits here closer).outcome = .error error) :
    ∃ number stop, here.Spans (List.replicate number '*') stop ∧ stop.peek = some '*' ∧
      subtree.height + number = depthLimit ∧
        error = .nestingTooDeep stop.position depthLimit := by
  fun_induction stars subtree visits here closer with
  | case1 => cases failed
  | case2 subtree here closer next eaten other tooHigh =>
      cases failed
      unfold deepen at tooHigh
      split at tooHigh
      · cases tooHigh
      · rename_i high
        cases tooHigh
        refine ⟨0, here, Cursor.spans_nil_iff.mpr rfl, (Cursor.eat_eq_some_iff.mp eaten).peek, ?_,
          rfl⟩
        omega
  | case3 subtree here closer next eaten height deeper shorter inductionHypothesis =>
      obtain ⟨low, rfl⟩ := deepen_eq_ok_iff.mp deeper
      obtain ⟨number, stop, spans, isStar, high, rfl⟩ := inductionHypothesis low failed
      refine ⟨number + 1, stop, ?_, isStar, ?_, rfl⟩
      · exact Cursor.spans_append_iff.mpr ⟨next, Cursor.eat_eq_some_iff.mp eaten, spans⟩
      · rw [← high]
        exact (Nat.succ_add_eq_add_succ _ _).symm

theorem repeated_blames {part : Rule} (partReads : part.Reads (primaryForm alphabet) room)
    (partBlames : part.BlamesFactor alphabet text room) :
    (repeated part).BlamesFactor alphabet text room := by
  intro start standing error reaches atFactor left failed
  unfold repeated at failed
  cases read : part start with
  | failed other visits =>
      rw [read] at failed
      refine partBlames reaches atFactor left ?_
      rw [read]
      exact failed
  | read subtree visits next closer =>
      have partRead : (part start).outcome = .ok (subtree, next) := by
        rw [read]
        rfl
      obtain ⟨primary, fits, spans, _, rfl⟩ := partReads.mp partRead
      rw [read] at failed
      obtain ⟨number, stop, spansStars, isStar, high, rfl⟩ :=
        exists_star_of_outcome_stars fits.height failed
      -- The factor is what was read up to the star that is one too many.
      let factor : StarDerivation := .starred primary number
      have spansFactor : start.Spans factor.text stop :=
        Cursor.spans_append_iff.mpr ⟨next, spans, spansStars⟩
      have starts : start.peek = factor.text.head? := by
        obtain ⟨initial, rest, text⟩ := factor.exists_text_eq_cons
        rw [text] at spansFactor ⊢
        exact spansFactor.peek
      rw [starts] at atFactor
      have valid : factor.Valid alphabet := fits.valid
      have stops := reaches.onward spansFactor (StarDerivation.readAll_text valid atFactor)
      have atStar : text[stop.position.offset]? = some '*' :=
        stops.inText.getElem?_eq.trans isStar
      refine (Crosses.star stops.reads ?_ atStar
        (reaches.inText.take_eq spansFactor) reaches.reads atFactor valid ?_).blamed
      · rw [atStar]
        exact Standing.not_atFactor_past (.inr (.inl rfl))
      · rw [← high]
        exact Subtree.height_starred number primary.subtree

/-! ### Chains -/

theorem height_chain_eq {build : List Expr → Expr} {operands : List Subtree}
    (low : ∀ operand ∈ operands, operand.height ≤ depthLimit)
    (tooHigh : ¬ (operands.length ≤ 1 ∨ (Subtree.chain build operands).height ≤ depthLimit)) :
    (Subtree.chain build operands).height = depthLimit + 1 := by
  obtain ⟨several, high⟩ := not_or.mp tooHigh
  have highest : (operands.map Subtree.height).foldr max 0 ≤ depthLimit := by
    rw [foldr_max_le_iff, List.forall_mem_map]
    exact low
  simp only [Subtree.chain, if_neg several] at high ⊢
  omega

/-- A chain whose operands are read fails for its height at its start. -/
theorem tooHigh_of_assemble {operator : ChainOperator} {position : Position}
    {operands : List Subtree} (low : ∀ operand ∈ operands, operand.height ≤ depthLimit)
    (failed : operator.assemble position operands.reverse = .error error) :
    (Subtree.chain operator.build operands).height = depthLimit + 1 ∧
      error = .nestingTooDeep position depthLimit := by
  rw [assemble_reverse] at failed
  split at failed
  · cases failed
  · rename_i tooHigh
    cases failed
    exact ⟨height_chain_eq low tooHigh, rfl⟩

theorem blamed_of_fails_concatenation {factor : Rule} {start : Cursor} {standing : Standing}
    (factorReads : factor.Reads (starForm alphabet) room)
    (factorBlames : factor.BlamesFactor alphabet text room)
    (reaches : standing.Reaches alphabet text start) (atFactor : standing.AtFactor start.peek)
    (left : standing.opened.length + room = depthLimit)
    (fails : concatenation.Fails factor error start) : Blamed alphabet text error := by
  induction fails generalizing standing with
  | here failed => exact factorBlames reaches atFactor left failed
  | @behind start here subtree there read goesOn later inductionHypothesis =>
      obtain ⟨first, fits, spans, starEnds, rfl⟩ := factorReads.mp read
      obtain ⟨sameCursor, notEnd⟩ := follow_concatenation_eq_some_iff.mp goesOn
      have starts : start.peek = first.text.head? := by
        obtain ⟨initial, rest, text⟩ := first.exists_text_eq_cons
        change start.Spans first.text here at spans
        rw [text] at spans ⊢
        exact spans.peek
      rw [starts] at atFactor
      have stops := reaches.onward spans (StarDerivation.readAll_text fits.valid atFactor)
      rw [← sameCursor] at stops starEnds notEnd
      have follows : FollowsFactor there.val.peek := ⟨starEnds, notEnd⟩
      exact inductionHypothesis stops (fun _ => follows.exists_character) left

theorem chain_concatenation_blames {factor : Rule}
    (factorReads : factor.Reads (starForm alphabet) room)
    (factorBlames : factor.BlamesFactor alphabet text room) :
    (chain concatenation factor).BlamesAlternative alphabet text room := by
  intro start standing error reaches atAlternative left failed
  rcases outcome_chain_eq_error_iff.mp failed with fails | ⟨subtrees, stop, chains, tooHigh⟩
  · exact blamed_of_fails_concatenation factorReads factorBlames reaches
      (atAlternative.atFactor _) left fails
  · have low := chains.shallow factorReads.height_le
    obtain ⟨derivation, valid, groups, spans, ends, rfl⟩ :=
      exists_derivation_of_chains_concatenation factorReads chains
    obtain ⟨high, rfl⟩ := tooHigh_of_assemble low tooHigh
    refine (Crosses.chain reaches.reads atAlternative left (.inl ?_)).blamed
    exact ⟨derivation, stop.rest, ⟨valid, groups, low, high⟩,
      reaches.inText.symm.trans spans.rest, ends⟩

theorem blamed_of_fails_alternation {alternative : Rule} {start : Cursor} {standing : Standing}
    (alternativeReads : alternative.Reads (concatForm alphabet) room)
    (alternativeBlames : alternative.BlamesAlternative alphabet text room)
    (reaches : standing.Reaches alphabet text start) (atAlternative : standing.AtAlternative)
    (left : standing.opened.length + room = depthLimit)
    (fails : alternation.Fails alternative error start) : Blamed alphabet text error := by
  induction fails generalizing standing with
  | here failed => exact alternativeBlames reaches atAlternative left failed
  | @behind start here subtree there read goesOn later inductionHypothesis =>
      obtain ⟨first, fits, spans, _, rfl⟩ := alternativeReads.mp read
      have plusSpans := follow_alternation_eq_some_iff.mp goesOn
      have stops := reaches.onward spans
        (ConcatDerivation.readAll_text fits.valid (atAlternative.atFactor _))
      have behindPlus := stops.onward plusSpans (Standing.readAll_cons (Standing.read_past_plus _))
      exact inductionHypothesis behindPlus rfl left

theorem chain_alternation_blames {alternative : Rule}
    (alternativeReads : alternative.Reads (concatForm alphabet) room)
    (alternativeBlames : alternative.BlamesAlternative alphabet text room) :
    (chain alternation alternative).BlamesUnion alphabet text room := by
  intro start standing error reaches atUnion left failed
  rcases outcome_chain_eq_error_iff.mp failed with fails | ⟨subtrees, stop, chains, tooHigh⟩
  · exact blamed_of_fails_alternation alternativeReads alternativeBlames reaches
      atUnion.atAlternative left fails
  · have low := chains.shallow alternativeReads.height_le
    obtain ⟨derivation, valid, groups, spans, ends, rfl⟩ :=
      exists_derivation_of_chains_alternation alternativeReads chains
    obtain ⟨high, rfl⟩ := tooHigh_of_assemble low tooHigh
    refine (Crosses.chain reaches.reads atUnion.atAlternative left (.inr ?_)).blamed
    exact ⟨atUnion, derivation, stop.rest, ⟨valid, groups, low, high⟩,
      reaches.inText.symm.trans spans.rest, ends⟩

/-! ### Groups and whole texts -/

theorem union_blames {group : Position → Rule}
    (groupReads : ∀ opened, (group opened).Reads (groupForm alphabet) room)
    (groupsBlame : GroupsBlame group alphabet text room) :
    (union alphabet group).BlamesUnion alphabet text room := by
  have factorReads : (repeated (primary alphabet group)).Reads (starForm alphabet) room :=
    repeated_reads (primary_reads groupReads)
  have factorBlames : (repeated (primary alphabet group)).BlamesFactor alphabet text room :=
    repeated_blames (primary_reads groupReads) (primary_blames groupsBlame)
  intro start standing error
  exact chain_alternation_blames (chain_concatenation_reads factorReads)
    (chain_concatenation_blames factorReads factorBlames)

theorem group_blames : GroupsBlame (group alphabet room) alphabet text room := by
  induction room with
  | zero =>
      intro rest position standing error reaches atFactor full failed
      cases failed
      have isOpening : text[position.offset]? = some '(' := reaches.inText.getElem?_eq
      rw [← isOpening] at atFactor
      exact (Crosses.opening reaches.reads atFactor isOpening full).blamed
  | succ room inductionHypothesis =>
      intro rest position standing error reaches atFactor left failed
      rw [group, outcome_closeGroup_eq_error_iff] at failed
      rcases failed with failed | ⟨_, here, _, _, rfl⟩
      · have opens : Cursor.Spans { rest := '(' :: rest, position } ['(']
            { rest, position := position.next } :=
          Cursor.cons_spans_cons_iff.mpr ⟨rfl, Cursor.spans_nil_iff.mpr rfl⟩
        have inside := reaches.onward opens (Standing.readAll_cons (Standing.read_opening atFactor))
        refine union_blames group_reads inductionHypothesis inside
          (Standing.atUnion_insideGroup _) ?_ failed
        rw [← left, Standing.insideGroup, List.length_cons]
        exact Nat.succ_add_eq_add_succ _ _
      · intro _ _ impossible
        cases impossible

theorem Standing.start_reaches (text : List Char) :
    Standing.start.Reaches alphabet text (Cursor.ofList text) where
  inText := rfl
  reads := rfl

theorem blamed_of_parse {text : String} (failed : parse alphabet text = .error error) :
    Blamed alphabet text.toList error := by
  rw [parse_eq_error_iff, parsing, outcome_ofReading_eq_error_iff] at failed
  rcases failed with failed | ⟨_, stop, character, _, _, rfl⟩
  · exact union_blames group_reads group_blames (Standing.start_reaches _) Standing.atUnion_start
      rfl failed
  · intro _ _ impossible
    split at impossible <;> cases impossible

/-! ### Chains at the start of a text -/

theorem assemble_eq_error_of_high {operator : ChainOperator} {position : Position}
    {operands : List Subtree} (low : ∀ operand ∈ operands, operand.height ≤ depthLimit)
    (high : (Subtree.chain operator.build operands).height = depthLimit + 1) :
    operator.assemble position operands.reverse = .error (.nestingTooDeep position depthLimit) := by
  rw [assemble_reverse, if_neg]
  intro within
  have notHigh : (Subtree.chain operator.build operands).height ≤ depthLimit :=
    within.elim (fun short => height_chain_le_of_short short low) id
  rw [high] at notHigh
  exact Nat.not_succ_le_self _ notHigh

theorem Cursor.exists_spans {start : Cursor} {read behind : List Char}
    (split : start.rest = read ++ behind) : ∃ stop, start.Spans read stop ∧ stop.rest = behind :=
  ⟨{ rest := behind, position := { offset := start.position.offset + read.length } },
    ⟨split, rfl⟩, rfl⟩

theorem outcome_concatenation_of_overflows {factor : Rule} {start : Cursor}
    (factorReads : factor.Reads (starForm alphabet) room)
    (overflows : (concatForm alphabet).Overflows ConcatDerivation.factors room start.rest) :
    (chain concatenation factor start).outcome =
      .error (.nestingTooDeep start.position depthLimit) := by
  obtain ⟨derivation, behind, tooHigh, split, ends⟩ := overflows
  obtain ⟨stop, spans, rfl⟩ := Cursor.exists_spans split
  rw [outcome_chain_eq_error_iff]
  exact .inr ⟨derivation.factors, stop,
    chains_concatenation_of_derivation factorReads tooHigh.valid tooHigh.groups tooHigh.low spans
      ends,
    assemble_eq_error_of_high tooHigh.low tooHigh.high⟩

theorem outcome_alternation_of_overflows {alternative : Rule} {start : Cursor}
    (alternativeReads : alternative.Reads (concatForm alphabet) room)
    (overflows : (unionForm alphabet).Overflows UnionDerivation.alternatives room start.rest) :
    (chain alternation alternative start).outcome =
      .error (.nestingTooDeep start.position depthLimit) := by
  obtain ⟨derivation, behind, tooHigh, split, ends⟩ := overflows
  obtain ⟨stop, spans, rfl⟩ := Cursor.exists_spans split
  rw [outcome_chain_eq_error_iff]
  exact .inr ⟨derivation.alternatives, stop,
    chains_alternation_of_derivation alternativeReads tooHigh.valid tooHigh.groups tooHigh.low spans
      ends,
    assemble_eq_error_of_high tooHigh.low tooHigh.high⟩

/-- A text that starts with a chain which is too high fails at its first character. -/
theorem Crosses.parse_eq_error {text : String}
    (crosses : Crosses alphabet text.toList { offset := 0 } .chain) :
    parse alphabet text = .error (.nestingTooDeep { offset := 0 } depthLimit) := by
  cases crosses with
  | @chain standing room reads _ left high =>
      cases reads
      have allRoom : room = depthLimit := (Nat.zero_add room).symm.trans left
      subst allRoom
      have factorReads :
          (repeated (primary alphabet (group alphabet depthLimit))).Reads (starForm alphabet)
            depthLimit :=
        repeated_reads (primary_reads group_reads)
      rw [parse_eq_error_iff, parsing, outcome_ofReading_eq_error_iff]
      refine .inl ?_
      rcases high with concatHigh | ⟨_, unionHigh⟩
      · exact outcome_chain_eq_error_iff.mpr
          (.inl (.here (outcome_concatenation_of_overflows factorReads concatHigh)))
      · exact outcome_alternation_of_overflows (chain_concatenation_reads factorReads) unionHigh

/-- A parenthesis at the start of a text is the first one, and nothing stands before a star there,
so that only a chain is blamed for its height at the first character. -/
theorem too_deep_at_start_iff {text : String} :
    parse alphabet text = .error (.nestingTooDeep { offset := 0 } depthLimit) ↔
      Crosses alphabet text.toList { offset := 0 } .chain := by
  refine ⟨fun failed => ?_, Crosses.parse_eq_error⟩
  obtain ⟨_, culprit, crosses⟩ := blamed_of_parse failed _ _ rfl
  cases crosses with
  | opening reads _ _ full =>
      cases reads
      cases full
  | @star standing outside factor before reads _ _ split =>
      obtain ⟨initial, rest, starts⟩ := factor.exists_text_eq_cons
      rw [starts] at split
      cases (List.append_eq_nil_iff.mp split.symm).2
  | chain reads atAlternative left high => exact .chain reads atAlternative left high

/-! ### A letter beside a factor that is as high as can be -/

/-- `a` with as many stars as a tree may have levels. -/
def highest : StarDerivation :=
  .starred (.symbol 'a') depthLimit

def letterB : StarDerivation :=
  .starred (.symbol 'b') 0

theorem height_highest : highest.subtree.height = depthLimit := by
  change ((Subtree.mk (.literal 'a') 0).starred depthLimit).height = depthLimit
  rw [Subtree.height_starred, Nat.zero_add]

theorem height_letterB : letterB.subtree.height = 0 := rfl

theorem valid_highest (symbol : 'a' ∈ alphabet.symbols) : highest.Valid alphabet :=
  ⟨symbol, by decide, by decide⟩

theorem valid_letterB (symbol : 'b' ∈ alphabet.symbols) : letterB.Valid alphabet :=
  ⟨symbol, by decide, by decide⟩

theorem tooHigh_concatenation (symbols : 'a' ∈ alphabet.symbols ∧ 'b' ∈ alphabet.symbols) :
    (concatForm alphabet).TooHigh ConcatDerivation.factors depthLimit
      (.more highest (.last letterB)) where
  valid := ⟨valid_highest symbols.1, valid_letterB symbols.2, by rintro _ ⟨⟩; decide⟩
  groups := Nat.zero_le _
  low := by
    change ∀ operand ∈ [highest.subtree, letterB.subtree], operand.height ≤ depthLimit
    simp [height_highest, height_letterB]
  high := by
    change (Subtree.chain Expr.concatAll [highest.subtree, letterB.subtree]).height =
      depthLimit + 1
    simp [Subtree.chain, height_highest, height_letterB]

theorem tooHigh_alternation (symbols : 'a' ∈ alphabet.symbols ∧ 'b' ∈ alphabet.symbols) :
    (unionForm alphabet).TooHigh UnionDerivation.alternatives depthLimit
      (.more (.last letterB) (.last (.last highest))) where
  valid := ⟨valid_letterB symbols.2, valid_highest symbols.1⟩
  groups := Nat.zero_le _
  low := by
    change ∀ operand ∈ [Subtree.chain Expr.concatAll [letterB.subtree],
      Subtree.chain Expr.concatAll [highest.subtree]], operand.height ≤ depthLimit
    simp [Subtree.chain, height_highest, height_letterB]
  high := by
    change (Subtree.chain Expr.unionAll [Subtree.chain Expr.concatAll [letterB.subtree],
      Subtree.chain Expr.concatAll [highest.subtree]]).height = depthLimit + 1
    simp [Subtree.chain, height_highest, height_letterB]

/-- A text that is a chain which is too high crosses the limit by it. -/
theorem crosses_of_concatenation {derivation : ConcatDerivation}
    (tooHigh : (concatForm alphabet).TooHigh ConcatDerivation.factors depthLimit derivation) :
    Crosses alphabet derivation.text { offset := 0 } .chain :=
  .chain rfl rfl (Nat.zero_add _)
    (.inl ⟨derivation, [], tooHigh, (List.append_nil _).symm,
      UnionDerivation.endsBefore_nil.concat⟩)

theorem crosses_of_alternation {derivation : UnionDerivation}
    (tooHigh : (unionForm alphabet).TooHigh UnionDerivation.alternatives depthLimit derivation) :
    Crosses alphabet derivation.text { offset := 0 } .chain :=
  .chain rfl rfl (Nat.zero_add _)
    (.inr ⟨Standing.atUnion_start, derivation, [], tooHigh, (List.append_nil _).symm,
      UnionDerivation.endsBefore_nil⟩)

/-! ### The place of the error -/

/-- The limit is crossed where the error shows, in one way: by a parenthesis or a star that stands
there, or by a chain that starts there.  So the character there crosses the limit unless a chain is
to blame, and at the start of a text that is always so. -/
theorem too_deep_crossings {text : String} {position : Position} {limit : Nat}
    (failed : parse alphabet text = .error (.nestingTooDeep position limit)) :
    limit = depthLimit ∧ (∃! culprit, Crosses alphabet text.toList position culprit) ∧
      (text.toList[position.offset]? = some '(' ∧ Crosses alphabet text.toList position .opening ∨
          text.toList[position.offset]? = some '*' ∧ Crosses alphabet text.toList position .star ↔
        ¬ Crosses alphabet text.toList position .chain) ∧
        (position.offset = 0 → Crosses alphabet text.toList position .chain) := by
  obtain ⟨rfl, culprit, crosses⟩ := blamed_of_parse failed _ _ rfl
  refine ⟨rfl, ⟨culprit, crosses, fun other crossesToo => crossesToo.unique crosses⟩, ?_, ?_⟩
  · constructor
    · intro character chain
      rcases character with ⟨_, opening⟩ | ⟨_, star⟩
      · cases opening.unique chain
      · cases star.unique chain
    · intro noChain
      cases crosses with
      | opening reads atFactor isOpening full =>
          exact .inl ⟨isOpening, .opening reads atFactor isOpening full⟩
      | star reads behindFactor isStar split readsBefore startsFactor valid high =>
          exact .inr ⟨isStar, .star reads behindFactor isStar split readsBefore startsFactor valid
            high⟩
      | chain reads atAlternative left high =>
          exact absurd (.chain reads atAlternative left high) noChain
  · intro atStart
    obtain ⟨offset⟩ := position
    cases atStart
    exact too_deep_at_start_iff.mp failed

/-- The union of `b` and of `a` with 256 stars is blamed at `b`. -/
theorem too_deep_crossings_alternatives :
    let alphabet : Alphabet := ⟨['a', 'b'], by decide, by decide⟩
    let text := String.ofList ('b' :: '+' :: 'a' :: List.replicate 256 '*')
    parse alphabet text = .error (.nestingTooDeep ⟨0⟩ 256) ∧ text.toList[0]? = some 'b' ∧
      Crosses alphabet text.toList ⟨0⟩ .chain ∧
        ∃! culprit, Crosses alphabet text.toList ⟨0⟩ culprit := by
  intro alphabet text
  have written : text.toList =
      UnionDerivation.text (.more (.last letterB) (.last (.last highest))) :=
    String.toList_ofList
  have crosses : Crosses alphabet text.toList ⟨0⟩ .chain := by
    rw [written]
    exact crosses_of_alternation (tooHigh_alternation (by decide))
  have failed : parse alphabet text = .error (.nestingTooDeep ⟨0⟩ 256) := crosses.parse_eq_error
  obtain ⟨_, oneCulprit, _, atStart⟩ := too_deep_crossings failed
  exact ⟨failed, by rw [written]; rfl, atStart rfl, oneCulprit⟩

/-- In `a` with 256 stars and `b` behind them, `a` is blamed. -/
theorem parse_blames_literal :
    let alphabet : Alphabet := ⟨['a', 'b'], by decide, by decide⟩
    let text := String.ofList ('a' :: (List.replicate 256 '*' ++ ['b']))
    parse alphabet text = .error (.nestingTooDeep ⟨0⟩ 256) ∧ text.toList[0]? = some 'a' := by
  intro alphabet text
  have written : text.toList = ConcatDerivation.text (.more highest (.last letterB)) :=
    String.toList_ofList
  have crosses : Crosses alphabet text.toList ⟨0⟩ .chain := by
    rw [written]
    exact crosses_of_concatenation (tooHigh_concatenation (by decide))
  exact ⟨crosses.parse_eq_error, by rw [written]; rfl⟩

end RegularWords.Grammar
