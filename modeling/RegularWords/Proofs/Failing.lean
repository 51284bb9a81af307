import RegularWords.Proofs.Breaks

/-!
Where the parser fails.

A rule that fails, but not for depth, stops where a derivation of its form breaks off, with the
error that belongs to the break, and every break of the form makes it fail so.  Whole texts fail
there too, or behind a union at a closing parenthesis that closes nothing.
-/

namespace RegularWords.Grammar

def SyntaxError.TooDeep (error : SyntaxError) : Prop :=
  ∃ position limit, error = .nestingTooDeep position limit

variable {alphabet : Alphabet} {room : Nat} {error : SyntaxError} {start here : Cursor}

/-! ### Repetitions -/

theorem tooDeep_of_deepen {height : Nat} {position : Position}
    (failed : deepen height position = .error error) : error.TooDeep := by
  unfold deepen at failed
  split at failed
  · cases failed
  · cases failed
    exact ⟨_, _, rfl⟩

theorem tooDeep_of_stars {subtree : Subtree} {visits : List Visit}
    {closer : here.remaining < start.remaining}
    (failed : (stars subtree visits here closer).outcome = .error error) : error.TooDeep := by
  fun_induction stars subtree visits here closer with
  | case1 => cases failed
  | case2 subtree here closer next eaten other tooHigh =>
      cases failed
      exact tooDeep_of_deepen tooHigh
  | case3 subtree here closer next eaten height deeper shorter inductionHypothesis =>
      exact inductionHypothesis failed

/-- Repetitions fail for depth only. -/
theorem outcome_repeated_eq_error_iff {part : Rule} (shallow : ¬ error.TooDeep) :
    (repeated part start).outcome = .error error ↔ (part start).outcome = .error error := by
  unfold repeated
  cases part start with
  | failed other visits => rfl
  | read subtree visits next closer =>
      constructor
      · intro failed
        exact absurd (tooDeep_of_stars failed) shallow
      · intro failed
        cases failed

/-! ### Chains -/

theorem tooDeep_of_assemble {operator : ChainOperator} {position : Position}
    {operands : List Subtree} (failed : operator.assemble position operands = .error error) :
    error.TooDeep := by
  unfold ChainOperator.assemble at failed
  simp only at failed
  split at failed
  · cases failed
  · split at failed
    · rename_i tooHigh
      cases failed
      exact tooDeep_of_deepen tooHigh
    · cases failed

/-- A chain fails in one of its operands, behind others that are read. -/
inductive ChainOperator.Fails (operator : ChainOperator) (operand : Rule) (error : SyntaxError) :
    Cursor → Prop where
  | here {start : Cursor} (failed : (operand start).outcome = .error error) :
      Fails operator operand error start
  | behind {start here : Cursor} {subtree : Subtree}
      {there : { next : Cursor // next.remaining ≤ here.remaining }}
      (read : (operand start).outcome = .ok (subtree, here))
      (goesOn : operator.follow here = some there)
      (later : Fails operator operand error there) : Fails operator operand error start

variable {operator : ChainOperator} {operand : Rule}

/-- A chain that goes on at a cursor fails in a later operand, or all of them are read and it cannot
be put together. -/
theorem outcome_operandsFrom_eq_error_iff {operands : List Subtree} {visits : List Visit}
    {closer : here.remaining < start.remaining} :
    (operandsFrom operator operand operands visits here closer).outcome = .error error ↔
      (operator.follow here = none ∧ operator.assemble start.position operands = .error error) ∨
        ∃ there, operator.follow here = some there ∧
          (operator.Fails operand error there ∨
            ∃ subtrees stop, operator.Chains operand there subtrees stop ∧
              operator.assemble start.position (subtrees.reverse ++ operands) = .error error) := by
  fun_induction operandsFrom operator operand operands visits here closer with
  | case1 operands visits here closer ends other failed =>
      simp [Reading.outcome, ends, failed]
  | case2 operands visits here closer ends subtree assembled =>
      simp [Reading.outcome, ends, assembled]
  | case3 operands visits here closer there notFarther goesOn other inside failed =>
      have failedThere : (operand there).outcome = .error other := by
        rw [failed]
        rfl
      constructor
      · intro same
        cases same
        exact .inr ⟨_, goesOn, .inl (.here failedThere)⟩
      · intro continued
        rcases continued with ⟨ends, _⟩ | ⟨other, follows, fails | ⟨subtrees, stop, chains, _⟩⟩
        · cases goesOn.symm.trans ends
        · cases goesOn.symm.trans follows
          cases fails with
          | here failedHere => exact failedThere.symm.trans failedHere
          | behind read _ _ => cases failedThere.symm.trans read
        · cases goesOn.symm.trans follows
          obtain ⟨_, _, read⟩ := chains.exists_read
          cases failedThere.symm.trans read
  | case4 operands visits here closer there notFarther goesOn subtree inside next shorter read
      closerNext inductionHypothesis =>
      have readThere : (operand there).outcome = .ok (subtree, next) := by
        rw [read]
        rfl
      rw [inductionHypothesis]
      constructor
      · intro continued
        rcases continued with
          ⟨ends, failed⟩ | ⟨later, follows, fails | ⟨subtrees, stop, chains, failed⟩⟩
        · exact .inr ⟨_, goesOn, .inr ⟨[subtree], next, .last readThere ends, failed⟩⟩
        · exact .inr ⟨_, goesOn, .inl (.behind readThere follows fails)⟩
        · refine .inr ⟨_, goesOn, .inr ⟨subtree :: subtrees, stop,
            .more readThere follows chains, ?_⟩⟩
          rw [List.reverse_cons, List.append_assoc]
          exact failed
      · intro continued
        rcases continued with
          ⟨ends, _⟩ | ⟨other, follows, fails | ⟨subtrees, stop, chains, failed⟩⟩
        · cases goesOn.symm.trans ends
        · cases goesOn.symm.trans follows
          cases fails with
          | here failed => cases readThere.symm.trans failed
          | behind readHere follows later =>
              cases readThere.symm.trans readHere
              exact .inr ⟨_, follows, .inl later⟩
        · cases goesOn.symm.trans follows
          cases chains with
          | last readHere ends =>
              cases readThere.symm.trans readHere
              exact .inl ⟨ends, failed⟩
          | more readHere follows later =>
              cases readThere.symm.trans readHere
              rw [List.reverse_cons, List.append_assoc] at failed
              exact .inr ⟨_, follows, .inr ⟨_, _, later, failed⟩⟩

theorem outcome_chain_eq_error_iff :
    (chain operator operand start).outcome = .error error ↔
      operator.Fails operand error start ∨
        ∃ subtrees stop, operator.Chains operand start subtrees stop ∧
          operator.assemble start.position subtrees.reverse = .error error := by
  unfold chain
  cases read : operand start with
  | failed other inside =>
      have failedStart : (operand start).outcome = .error other := by
        rw [read]
        rfl
      constructor
      · intro same
        cases same
        exact .inl (.here failedStart)
      · intro failed
        rcases failed with fails | ⟨subtrees, stop, chains, _⟩
        · cases fails with
          | here failed => exact failedStart.symm.trans failed
          | behind readStart _ _ => cases failedStart.symm.trans readStart
        · obtain ⟨_, _, readStart⟩ := chains.exists_read
          cases failedStart.symm.trans readStart
  | read subtree inside next closer =>
      have readStart : (operand start).outcome = .ok (subtree, next) := by
        rw [read]
        rfl
      simp only
      rw [outcome_operandsFrom_eq_error_iff]
      constructor
      · intro continued
        rcases continued with
          ⟨ends, failed⟩ | ⟨there, follows, fails | ⟨subtrees, stop, chains, failed⟩⟩
        · exact .inr ⟨[subtree], next, .last readStart ends, failed⟩
        · exact .inl (.behind readStart follows fails)
        · refine .inr ⟨subtree :: subtrees, stop, .more readStart follows chains, ?_⟩
          rw [List.reverse_cons]
          exact failed
      · intro failed
        rcases failed with fails | ⟨subtrees, stop, chains, failed⟩
        · cases fails with
          | here failed => cases readStart.symm.trans failed
          | behind readHere follows later =>
              cases readStart.symm.trans readHere
              exact .inr ⟨_, follows, .inl later⟩
        · cases chains with
          | last readHere ends =>
              cases readStart.symm.trans readHere
              exact .inl ⟨ends, failed⟩
          | more readHere follows later =>
              cases readStart.symm.trans readHere
              rw [List.reverse_cons] at failed
              exact .inr ⟨_, follows, .inr ⟨_, _, later, failed⟩⟩

/-- Apart from depth, a chain fails in an operand. -/
theorem outcome_chain_eq_error_iff_fails (shallow : ¬ error.TooDeep) :
    (chain operator operand start).outcome = .error error ↔
      operator.Fails operand error start := by
  rw [outcome_chain_eq_error_iff, or_iff_left]
  intro chained
  obtain ⟨_, _, _, failed⟩ := chained
  exact shallow (tooDeep_of_assemble failed)

/-! ### Groups and whole texts -/

theorem outcome_closeGroup_eq_error_iff {opened : Position} {reading : Reading start} :
    (closeGroup opened reading).outcome = .error error ↔
      reading.outcome = .error error ∨
        ∃ result here, reading.outcome = .ok (result, here) ∧ here.peek ≠ some ')' ∧
          error = .unmatchedParen opened here.position here.peek := by
  cases reading with
  | failed other visits => simp [closeGroup, Reading.outcome]
  | read subtree visits here closer =>
      simp only [closeGroup]
      split
      · rename_i atOther
        rw [Cursor.eat_eq_none_iff] at atOther
        simp only [Reading.outcome, Except.error.injEq, Except.ok.injEq, Prod.mk.injEq]
        constructor
        · intro same
          exact .inr ⟨subtree, here, ⟨rfl, rfl⟩, atOther, same.symm⟩
        · intro failed
          rcases failed with impossible | ⟨_, _, ⟨_, rfl⟩, _, rfl⟩
          · cases impossible
          · rfl
      · rename_i next eaten
        have atClosing : here.peek = some ')' := (Cursor.eat_eq_some_iff.mp eaten).peek
        simp [Reading.outcome, atClosing]

theorem outcome_ofReading_eq_error_iff {reading : Reading start} :
    (Parsing.ofReading reading).outcome = .error error ↔
      reading.outcome = .error error ∨
        ∃ result stop character, reading.outcome = .ok (result, stop) ∧
          stop.peek = some character ∧
            error = if character = ')' then .unmatchedCloseParen stop.position
              else .unexpectedChar stop.position character := by
  cases reading with
  | failed other visits => simp [Parsing.ofReading, Reading.outcome]
  | read subtree visits next closer =>
      simp only [Parsing.ofReading, Reading.outcome]
      cases behind : next.peek with
      | none => simp [behind]
      | some character =>
          constructor
          · intro failed
            refine .inr ⟨subtree, next, character, rfl, behind, ?_⟩
            by_cases isClosing : character = ')'
            · simpa [isClosing, eq_comm] using failed
            · simpa [isClosing, eq_comm] using failed
          · intro failed
            rcases failed with impossible | ⟨_, _, other, read, isNext, rfl⟩
            · cases impossible
            · cases read
              cases behind.symm.trans isNext
              by_cases isClosing : character = ')'
              · simp [isClosing]
              · simp [isClosing]

/-! ### Forms -/

structure BreakForm where
  Break : Type
  text : Break → List Char
  error : Option Char → Position → Break → SyntaxError
  Fits : Nat → Option Char → Break → Prop

structure BreakForm.StopsAt (form : BreakForm) (room : Nat) (start : Cursor) (brk : form.Break)
    (stop : Cursor) : Prop where
  fits : form.Fits room stop.peek brk
  spans : start.Spans (form.text brk) stop

/-- A rule breaks off in a form at a cursor if it fails exactly at the breaks of the form, apart
from failing for depth. -/
def Rule.BreaksOffAt (rule : Rule) (form : BreakForm) (room : Nat) (start : Cursor) : Prop :=
  ∀ {error : SyntaxError}, ¬ error.TooDeep →
    ((rule start).outcome = .error error ↔
      ∃ brk stop, form.StopsAt room start brk stop ∧
        form.error stop.peek stop.position brk = error)

def Rule.BreaksOff (rule : Rule) (form : BreakForm) (room : Nat) : Prop :=
  ∀ start : Cursor, rule.BreaksOffAt form room start

def primaryBreak (alphabet : Alphabet) : BreakForm where
  Break := PrimaryBreak
  text := PrimaryBreak.text
  error := PrimaryBreak.error
  Fits := PrimaryBreak.Fits alphabet

def groupBreak (alphabet : Alphabet) : BreakForm where
  Break := GroupBreak
  text := GroupBreak.text
  error := GroupBreak.error
  Fits := GroupBreak.Fits alphabet

def concatBreak (alphabet : Alphabet) : BreakForm where
  Break := ConcatBreak
  text := ConcatBreak.text
  error := ConcatBreak.error
  Fits := ConcatBreak.Fits alphabet

def unionBreak (alphabet : Alphabet) : BreakForm where
  Break := UnionBreak
  text := UnionBreak.text
  error := UnionBreak.error
  Fits := UnionBreak.Fits alphabet

def GroupsBreakOff (group : Position → Rule) (alphabet : Alphabet) (room : Nat) : Prop :=
  ∀ (opened : Position) (rest : List Char),
    (group opened).BreaksOffAt (groupBreak alphabet) room { rest, position := opened.next }

theorem Cursor.Spans.peek_eq {text : List Char} {stop : Cursor} (spans : start.Spans text stop) :
    start.peek = text.head?.or stop.peek := by
  rw [Cursor.peek, spans.rest, List.head?_append, Cursor.peek]

/-! ### Primaries and repetitions -/

theorem primary_breaksOff {group : Position → Rule}
    (groupBreaks : GroupsBreakOff group alphabet room) :
    (primary alphabet group).BreaksOff (primaryBreak alphabet) room := by
  rintro ⟨_ | ⟨character, rest⟩, position⟩ error shallow
  · rw [outcome_primary_nil]
    constructor
    · intro same
      cases same
      refine ⟨.missing, _, ⟨?_, Cursor.spans_nil_iff.mpr rfl⟩, rfl⟩
      intro character isNext
      cases isNext
    · intro broken
      obtain ⟨brk, stop, ⟨fits, spans⟩, rfl⟩ := broken
      cases brk with
      | missing =>
          cases Cursor.spans_nil_iff.mp spans
          rfl
      | group inside => exact absurd spans Cursor.not_nil_spans_cons
  · rw [outcome_primary_cons]
    constructor
    · intro failed
      split at failed
      · rename_i isOpening
        obtain ⟨inside, stop, ⟨fits, spans⟩, rfl⟩ := (groupBreaks position rest shallow).mp failed
        exact ⟨.group inside, stop,
          ⟨fits, Cursor.cons_spans_cons_iff.mpr ⟨isOpening, spans⟩⟩, rfl⟩
      · rename_i notOpening
        split at failed
        · cases failed
        · rename_i notEmptyWord
          split at failed
          · cases failed
          · rename_i noSymbol
            cases failed
            refine ⟨.missing, _, ⟨?_, Cursor.spans_nil_iff.mpr rfl⟩, rfl⟩
            intro next isNext
            cases Option.some.inj isNext
            exact ⟨notOpening, notEmptyWord, mt Alphabet.contains_iff.mpr noSymbol⟩
    · intro broken
      obtain ⟨brk, stop, ⟨fits, spans⟩, rfl⟩ := broken
      cases brk with
      | missing =>
          cases Cursor.spans_nil_iff.mp spans
          obtain ⟨notOpening, notEmptyWord, noSymbol⟩ := fits character rfl
          rw [if_neg notOpening, if_neg notEmptyWord, if_neg (mt Alphabet.contains_iff.mp noSymbol)]
          rfl
      | group inside =>
          obtain ⟨rfl, spansInside⟩ := Cursor.cons_spans_cons_iff.mp spans
          rw [if_pos rfl]
          exact (groupBreaks position rest shallow).mpr
            ⟨inside, stop, ⟨fits, spansInside⟩, rfl⟩

theorem repeated_breaksOff {part : Rule}
    (partBreaks : part.BreaksOff (primaryBreak alphabet) room) :
    (repeated part).BreaksOff (primaryBreak alphabet) room := by
  intro start error shallow
  rw [outcome_repeated_eq_error_iff shallow]
  exact partBreaks start shallow

/-! ### Chains -/

theorem exists_break_of_fails_concatenation {factor : Rule}
    (factorReads : factor.Reads (starForm alphabet) room)
    (factorBreaks : factor.BreaksOff (primaryBreak alphabet) room) (shallow : ¬ error.TooDeep)
    (fails : concatenation.Fails factor error start) :
    ∃ brk stop, (concatBreak alphabet).StopsAt room start brk stop ∧
      ConcatBreak.error stop.peek stop.position brk = error := by
  induction fails with
  | @here start failed =>
      obtain ⟨brk, stop, ⟨fits, spans⟩, rfl⟩ := (factorBreaks start shallow).mp failed
      exact ⟨.here brk, stop, ⟨fits, spans⟩, rfl⟩
  | @behind start here subtree there read goesOn later inductionHypothesis =>
      obtain ⟨first, firstFits, firstSpans, starEnds, rfl⟩ := factorReads.mp read
      obtain ⟨brk, stop, ⟨fits, spans⟩, rfl⟩ := inductionHypothesis
      obtain ⟨sameCursor, notEnd⟩ := follow_concatenation_eq_some_iff.mp goesOn
      rw [sameCursor] at spans
      have follows : FollowsFactor here.peek := ⟨starEnds, notEnd⟩
      rw [spans.peek_eq] at follows
      exact ⟨.behind first brk, stop, ⟨⟨firstFits, fits, follows⟩,
        Cursor.spans_append_iff.mpr ⟨here, firstSpans, spans⟩⟩, rfl⟩

theorem fails_concatenation_of_break {factor : Rule}
    (factorReads : factor.Reads (starForm alphabet) room)
    (factorBreaks : factor.BreaksOff (primaryBreak alphabet) room) {stop : Cursor} :
    ∀ (brk : ConcatBreak) {start : Cursor},
      ¬ (brk.error stop.peek stop.position).TooDeep →
        (concatBreak alphabet).StopsAt room start brk stop →
          concatenation.Fails factor (brk.error stop.peek stop.position) start
  | .here brk, start, shallow, stops =>
      .here ((factorBreaks start shallow).mpr ⟨brk, stop, ⟨stops.fits, stops.spans⟩, rfl⟩)
  | .behind first brk, start, shallow, stops => by
      obtain ⟨firstFits, fits, follows⟩ := stops.fits
      obtain ⟨here, firstSpans, spans⟩ := Cursor.spans_append_iff.mp stops.spans
      have peeked : here.peek = brk.text.head?.or stop.peek := spans.peek_eq
      rw [← peeked] at follows
      have goesOn : concatenation.follow here = some ⟨here, Nat.le_refl _⟩ :=
        follow_concatenation_eq_some_iff.mpr ⟨rfl, follows.goesOn⟩
      exact .behind (factorReads.mpr ⟨first, firstFits, firstSpans, follows.endsStar, rfl⟩) goesOn
        (fails_concatenation_of_break factorReads factorBreaks brk shallow ⟨fits, spans⟩)

theorem chain_concatenation_breaksOff {factor : Rule}
    (factorReads : factor.Reads (starForm alphabet) room)
    (factorBreaks : factor.BreaksOff (primaryBreak alphabet) room) :
    (chain concatenation factor).BreaksOff (concatBreak alphabet) room := by
  intro start error shallow
  rw [outcome_chain_eq_error_iff_fails shallow]
  constructor
  · exact exists_break_of_fails_concatenation factorReads factorBreaks shallow
  · intro broken
    obtain ⟨brk, stop, stops, rfl⟩ := broken
    exact fails_concatenation_of_break factorReads factorBreaks brk shallow stops

theorem exists_break_of_fails_alternation {alternative : Rule}
    (alternativeReads : alternative.Reads (concatForm alphabet) room)
    (alternativeBreaks : alternative.BreaksOff (concatBreak alphabet) room)
    (shallow : ¬ error.TooDeep) (fails : alternation.Fails alternative error start) :
    ∃ brk stop, (unionBreak alphabet).StopsAt room start brk stop ∧
      UnionBreak.error stop.peek stop.position brk = error := by
  induction fails with
  | @here start failed =>
      obtain ⟨brk, stop, ⟨fits, spans⟩, rfl⟩ := (alternativeBreaks start shallow).mp failed
      exact ⟨.here brk, stop, ⟨fits, spans⟩, rfl⟩
  | @behind start here subtree there read goesOn later inductionHypothesis =>
      obtain ⟨first, firstFits, firstSpans, _, rfl⟩ := alternativeReads.mp read
      obtain ⟨brk, stop, ⟨fits, spans⟩, rfl⟩ := inductionHypothesis
      have plusSpans := follow_alternation_eq_some_iff.mp goesOn
      refine ⟨.behind first brk, stop, ⟨⟨firstFits, fits⟩, ?_⟩, rfl⟩
      exact Cursor.spans_append_iff.mpr
        ⟨here, firstSpans, Cursor.spans_append_iff.mpr ⟨there, plusSpans, spans⟩⟩

theorem fails_alternation_of_break {alternative : Rule}
    (alternativeReads : alternative.Reads (concatForm alphabet) room)
    (alternativeBreaks : alternative.BreaksOff (concatBreak alphabet) room) {stop : Cursor} :
    ∀ (brk : UnionBreak) {start : Cursor},
      ¬ (brk.error stop.peek stop.position).TooDeep →
        (unionBreak alphabet).StopsAt room start brk stop →
          alternation.Fails alternative (brk.error stop.peek stop.position) start
  | .here brk, start, shallow, stops =>
      .here ((alternativeBreaks start shallow).mpr ⟨brk, stop, ⟨stops.fits, stops.spans⟩, rfl⟩)
  | .behind first brk, start, shallow, stops => by
      obtain ⟨firstFits, fits⟩ := stops.fits
      obtain ⟨here, firstSpans, behindSpans⟩ := Cursor.spans_append_iff.mp stops.spans
      have plusBreakSpans : here.Spans (['+'] ++ brk.text) stop := behindSpans
      obtain ⟨there, plusSpans, spans⟩ := Cursor.spans_append_iff.mp plusBreakSpans
      have notFarther : there.remaining ≤ here.remaining :=
        Nat.le_of_lt (Cursor.remaining_of_eat (Cursor.eat_eq_some_iff.mpr plusSpans))
      have goesOn : alternation.follow here = some ⟨there, notFarther⟩ :=
        follow_alternation_eq_some_iff.mpr plusSpans
      have concatEnds : ConcatDerivation.EndsBefore here.peek := by
        rw [plusSpans.peek]
        exact ConcatDerivation.endsBefore_plus []
      exact .behind (alternativeReads.mpr ⟨first, firstFits, firstSpans, concatEnds, rfl⟩) goesOn
        (fails_alternation_of_break alternativeReads alternativeBreaks brk shallow ⟨fits, spans⟩)

theorem chain_alternation_breaksOff {alternative : Rule}
    (alternativeReads : alternative.Reads (concatForm alphabet) room)
    (alternativeBreaks : alternative.BreaksOff (concatBreak alphabet) room) :
    (chain alternation alternative).BreaksOff (unionBreak alphabet) room := by
  intro start error shallow
  rw [outcome_chain_eq_error_iff_fails shallow]
  constructor
  · exact exists_break_of_fails_alternation alternativeReads alternativeBreaks shallow
  · intro broken
    obtain ⟨brk, stop, stops, rfl⟩ := broken
    exact fails_alternation_of_break alternativeReads alternativeBreaks brk shallow stops

/-! ### Groups and whole texts -/

theorem union_breaksOff {group : Position → Rule}
    (groupReads : ∀ opened, (group opened).Reads (groupForm alphabet) room)
    (groupBreaks : GroupsBreakOff group alphabet room) :
    (union alphabet group).BreaksOff (unionBreak alphabet) room := by
  have factorReads : (repeated (primary alphabet group)).Reads (starForm alphabet) room :=
    repeated_reads (primary_reads groupReads)
  have factorBreaks := repeated_breaksOff (primary_breaksOff groupBreaks)
  exact chain_alternation_breaksOff (chain_concatenation_reads factorReads)
    (chain_concatenation_breaksOff factorReads factorBreaks)

theorem UnionDerivation.EndsBefore.eq_none {next : Option Char}
    (ends : UnionDerivation.EndsBefore next) (noClosing : next ≠ some ')') : next = none := by
  cases next with
  | none => rfl
  | some character => exact absurd (congrArg some (ends character rfl)) noClosing

/-- Where a group was opened shows from what stands behind its parenthesis. -/
theorem offset_of_spans_group {opened : Position} {rest text : List Char} {stop : Cursor}
    (spans : Cursor.Spans { rest, position := opened.next } text stop) :
    opened = { offset := stop.position.offset - (text.length + 1) } := by
  have offset : stop.position.offset = opened.offset + 1 + text.length := spans.offset
  rw [offset, Nat.add_assoc, Nat.add_comm 1, Nat.add_sub_cancel]

theorem group_breaksOff : GroupsBreakOff (group alphabet room) alphabet room := by
  induction room with
  | zero =>
      intro opened rest error shallow
      constructor
      · intro failed
        cases failed
        exact absurd ⟨_, _, rfl⟩ shallow
      · intro broken
        obtain ⟨brk, stop, ⟨fits, _⟩, _⟩ := broken
        cases brk with
        | inside union => exact absurd fits.1 (Nat.lt_irrefl 0)
        | unclosed union => exact absurd fits.1.groups (Nat.not_succ_le_zero _)
  | succ room inductionHypothesis =>
      have unionReads : (union alphabet (group alphabet room)).Reads (unionForm alphabet) room :=
        union_reads group_reads
      have unionBreaks := union_breaksOff group_reads inductionHypothesis
      intro opened rest error shallow
      rw [group, outcome_closeGroup_eq_error_iff, unionBreaks _ shallow]
      constructor
      · intro failed
        rcases failed with ⟨brk, stop, ⟨fits, spans⟩, rfl⟩ | ⟨result, here, read, noClosing, rfl⟩
        · exact ⟨.inside brk, stop, ⟨⟨Nat.succ_pos room, fits⟩, spans⟩, rfl⟩
        · obtain ⟨inside, fits, spans, ends, rfl⟩ := unionReads.mp read
          have atEnd : here.peek = none := ends.eq_none noClosing
          refine ⟨.unclosed inside, here, ⟨⟨⟨fits.valid, Nat.succ_le_succ fits.groups, fits.height⟩,
            atEnd⟩, spans⟩, ?_⟩
          rw [atEnd, offset_of_spans_group spans]
          rfl
      · intro broken
        obtain ⟨brk, stop, ⟨fits, spans⟩, rfl⟩ := broken
        cases brk with
        | inside brk => exact .inl ⟨brk, stop, ⟨fits.2, spans⟩, rfl⟩
        | unclosed inside =>
            obtain ⟨insideFits, atEnd⟩ := fits
            have ends : UnionDerivation.EndsBefore stop.peek := by
              rw [atEnd]
              exact UnionDerivation.endsBefore_nil
            have read := unionReads.mpr ⟨inside, ⟨insideFits.valid,
              Nat.le_of_succ_le_succ insideFits.groups, insideFits.height⟩, spans, ends, rfl⟩
            have noClosing : stop.peek ≠ some ')' := by
              rw [atEnd]
              exact (Option.some_ne_none ')').symm
            refine .inr ⟨_, stop, read, noClosing, ?_⟩
            rw [atEnd, offset_of_spans_group spans]
            rfl

/-- A text fails where a derivation of it breaks off, or at a closing parenthesis behind a whole
union. -/
theorem outcome_parsing_eq_error_iff {text : List Char} (shallow : ¬ error.TooDeep) :
    (parsing alphabet text).outcome = .error error ↔
      (∃ brk stop, (unionBreak alphabet).StopsAt depthLimit (Cursor.ofList text) brk stop ∧
        UnionBreak.error stop.peek stop.position brk = error) ∨
      ∃ derivation stop, (unionForm alphabet).Fits depthLimit derivation ∧
        (Cursor.ofList text).Spans derivation.text stop ∧ stop.peek = some ')' ∧
          error = .unmatchedCloseParen stop.position := by
  have unionReads : (union alphabet (group alphabet depthLimit)).Reads (unionForm alphabet)
      depthLimit := union_reads group_reads
  rw [parsing, outcome_ofReading_eq_error_iff,
    union_breaksOff group_reads group_breaksOff _ shallow]
  apply or_congr Iff.rfl
  constructor
  · intro leftOver
    obtain ⟨result, stop, character, read, next, rfl⟩ := leftOver
    obtain ⟨derivation, fits, spans, ends, rfl⟩ := unionReads.mp read
    obtain rfl : character = ')' := ends character next
    exact ⟨derivation, stop, fits, spans, next, rfl⟩
  · intro closing
    obtain ⟨derivation, stop, fits, spans, next, rfl⟩ := closing
    have ends : UnionDerivation.EndsBefore stop.peek := by
      rw [next]
      exact UnionDerivation.endsBefore_closing []
    exact ⟨_, stop, ')', unionReads.mpr ⟨derivation, fits, spans, ends, rfl⟩, next, rfl⟩

theorem parse_eq_error_iff {text : String} :
    parse alphabet text = .error error ↔
      (parsing alphabet text.toList).outcome = .error error := by
  unfold parse
  cases (parsing alphabet text.toList).outcome with
  | error other => simp [Except.map]
  | ok subtree => simp [Except.map]

end RegularWords.Grammar
