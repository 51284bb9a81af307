import RegularWords.Proofs.Derivation

/-!
What the rules of the parser read.

The outcome of a rule leaves out the visits.  Each rule has its outcome stated through those of the
rules it calls: where it starts, where it stops and the text between the two.
-/

namespace RegularWords.Grammar

/-! ### Texts between cursors -/

structure Cursor.Spans (start : Cursor) (text : List Char) (stop : Cursor) : Prop where
  rest : start.rest = text ++ stop.rest
  offset : stop.position.offset = start.position.offset + text.length

namespace Cursor

theorem spans_nil_iff {start stop : Cursor} : start.Spans [] stop ↔ stop = start := by
  constructor
  · intro spans
    obtain ⟨rest, offset⟩ := spans
    rcases start with ⟨startRest, ⟨startOffset⟩⟩
    rcases stop with ⟨stopRest, ⟨stopOffset⟩⟩
    cases rest
    cases offset
    rfl
  · intro same
    subst same
    exact ⟨rfl, rfl⟩

theorem cons_spans_cons_iff {first character : Char} {rest text : List Char} {position : Position}
    {stop : Cursor} :
    Spans { rest := first :: rest, position } (character :: text) stop ↔
      first = character ∧ Spans { rest, position := position.next } text stop := by
  constructor
  · intro spans
    obtain ⟨restSame, offset⟩ := spans
    obtain ⟨firstSame, othersSame⟩ := List.cons.inj restSame
    refine ⟨firstSame, othersSame, ?_⟩
    simp only [Position.next, List.length_cons] at offset ⊢
    omega
  · intro spans
    obtain ⟨rfl, restSame, offset⟩ := spans
    refine ⟨congrArg (first :: ·) restSame, ?_⟩
    simp only [Position.next, List.length_cons] at offset ⊢
    omega

theorem not_nil_spans_cons {character : Char} {text : List Char} {position : Position}
    {stop : Cursor} : ¬ Spans { rest := [], position } (character :: text) stop := by
  intro spans
  obtain ⟨rest, -⟩ := spans
  cases rest

theorem spans_append_iff {start stop : Cursor} {first second : List Char} :
    start.Spans (first ++ second) stop ↔
      ∃ middle, start.Spans first middle ∧ middle.Spans second stop := by
  constructor
  · intro spans
    obtain ⟨rest, offset⟩ := spans
    refine ⟨{ rest := second ++ stop.rest,
              position := { offset := start.position.offset + first.length } }, ⟨?_, rfl⟩, rfl, ?_⟩
    · rw [rest, List.append_assoc]
    · rw [offset, List.length_append, Nat.add_assoc]
  · intro spans
    obtain ⟨middle, ⟨firstRest, firstOffset⟩, secondRest, secondOffset⟩ := spans
    refine ⟨?_, ?_⟩
    · rw [firstRest, secondRest, List.append_assoc]
    · rw [secondOffset, firstOffset, List.length_append, Nat.add_assoc]

theorem eat_eq_some_iff {start stop : Cursor} {expected : Char} :
    start.eat expected = some stop ↔ start.Spans [expected] stop := by
  rcases start with ⟨_ | ⟨first, rest⟩, position⟩
  · simp [eat, advance, not_nil_spans_cons]
  · rw [cons_spans_cons_iff, spans_nil_iff]
    by_cases expectedFirst : first = expected
    · simp [eat, advance, expectedFirst, eq_comm]
    · simp [eat, advance, expectedFirst]

theorem eat_eq_none_iff {start : Cursor} {expected : Char} :
    start.eat expected = none ↔ start.peek ≠ some expected := by
  rcases start with ⟨_ | ⟨first, rest⟩, position⟩
  · simp [eat, advance, peek]
  · simp [eat, advance, peek]

theorem Spans.peek {start stop : Cursor} {character : Char} {text : List Char}
    (spans : start.Spans (character :: text) stop) : start.peek = some character := by
  rw [Cursor.peek, spans.rest, List.cons_append, List.head?_cons]

end Cursor

/-! ### Primaries and repetitions -/

def Reading.outcome {start : Cursor} : Reading start → Except SyntaxError (Subtree × Cursor)
  | .read subtree _ next _ => .ok (subtree, next)
  | .failed error _ => .error error

theorem outcome_primary_nil (alphabet : Alphabet) (group : Position → Rule) (position : Position) :
    (primary alphabet group { rest := [], position }).outcome =
      .error (.unexpectedEnd position) := rfl

theorem outcome_primary_cons (alphabet : Alphabet) (group : Position → Rule) (character : Char)
    (rest : List Char) (position : Position) :
    (primary alphabet group { rest := character :: rest, position }).outcome =
      if character = '(' then
        (group position { rest, position := position.next }).outcome
      else if character = '@' then
        .ok ({ expr := .empty, height := 0 }, { rest, position := position.next })
      else if alphabet.contains character then
        .ok ({ expr := .literal character, height := 0 }, { rest, position := position.next })
      else
        .error (.unexpectedChar position character) := by
  unfold primary
  simp only [Cursor.advance]
  by_cases isGroup : character = '('
  · rw [if_pos isGroup, if_pos isGroup]
    cases group position { rest, position := position.next } <;> rfl
  · by_cases isEmptyWord : character = '@'
    · rw [if_neg isGroup, if_pos isEmptyWord, if_neg isGroup, if_pos isEmptyWord]
      rfl
    · by_cases isSymbol : alphabet.contains character = true
      · simp only [isGroup, isEmptyWord, isSymbol, if_true, if_false]
        rfl
      · simp only [isGroup, isEmptyWord, isSymbol, if_false]
        rfl

theorem deepen_eq_ok_iff {height deeper : Nat} {position : Position} :
    deepen height position = .ok deeper ↔ height + 1 ≤ depthLimit ∧ deeper = height + 1 := by
  unfold deepen
  by_cases shallow : height + 1 ≤ depthLimit
  · simp [shallow, eq_comm]
  · simp [shallow]

theorem Subtree.height_starred (stars : Nat) (subtree : Subtree) :
    (subtree.starred stars).height = subtree.height + stars := by
  induction stars generalizing subtree with
  | zero => rfl
  | succ stars inductionHypothesis =>
      rw [starred, inductionHypothesis, Nat.add_right_comm, Nat.add_assoc]

/-- The stars that follow are read to the last one, as long as the tree stays within the limit. -/
theorem outcome_stars_eq_ok_iff {start here stop : Cursor} {subtree result : Subtree}
    {visits : List Visit} {closer : here.remaining < start.remaining}
    (shallow : subtree.height ≤ depthLimit) :
    (stars subtree visits here closer).outcome = .ok (result, stop) ↔
      ∃ number, here.Spans (List.replicate number '*') stop ∧ stop.peek ≠ some '*' ∧
        subtree.starred number = result ∧ result.height ≤ depthLimit := by
  fun_induction stars subtree visits here closer with
  | case1 subtree here closer atEnd =>
      rw [Cursor.eat_eq_none_iff] at atEnd
      constructor
      · intro read
        cases read
        exact ⟨0, Cursor.spans_nil_iff.mpr rfl, atEnd, rfl, shallow⟩
      · intro repeats
        obtain ⟨number, spans, ends, rfl, _⟩ := repeats
        cases number with
        | zero =>
            cases Cursor.spans_nil_iff.mp spans
            rfl
        | succ number => exact absurd spans.peek atEnd
  | case2 subtree here closer next eaten error tooHigh =>
      rw [Cursor.eat_eq_some_iff] at eaten
      constructor
      · intro read
        cases read
      · intro repeats
        obtain ⟨number, spans, ends, rfl, low⟩ := repeats
        cases number with
        | zero =>
            cases Cursor.spans_nil_iff.mp spans
            exact absurd eaten.peek ends
        | succ number =>
            rw [Subtree.height_starred] at low
            unfold deepen at tooHigh
            rw [if_pos (by omega)] at tooHigh
            cases tooHigh
  | case3 subtree here closer next eaten height deeper shorter inductionHypothesis =>
      rw [Cursor.eat_eq_some_iff] at eaten
      obtain ⟨low, rfl⟩ := deepen_eq_ok_iff.mp deeper
      rw [inductionHypothesis low]
      constructor
      · intro repeats
        obtain ⟨number, spans, rest⟩ := repeats
        exact ⟨number + 1, Cursor.spans_append_iff.mpr ⟨next, eaten, spans⟩, rest⟩
      · intro repeats
        obtain ⟨number, spans, ends, rfl, within⟩ := repeats
        cases number with
        | zero =>
            cases Cursor.spans_nil_iff.mp spans
            exact absurd eaten.peek ends
        | succ number =>
            rw [List.replicate_succ, ← List.singleton_append, Cursor.spans_append_iff] at spans
            obtain ⟨middle, first, others⟩ := spans
            cases Option.some.inj
              ((Cursor.eat_eq_some_iff.mpr eaten).symm.trans (Cursor.eat_eq_some_iff.mpr first))
            exact ⟨number, others, ends, rfl, within⟩

theorem outcome_repeated_eq_ok_iff {part : Rule} {start stop : Cursor} {result : Subtree}
    (shallow : ∀ {subtree next}, (part start).outcome = .ok (subtree, next) →
      subtree.height ≤ depthLimit) :
    (repeated part start).outcome = .ok (result, stop) ↔
      ∃ subtree here number, (part start).outcome = .ok (subtree, here) ∧
        here.Spans (List.replicate number '*') stop ∧ stop.peek ≠ some '*' ∧
          subtree.starred number = result ∧ result.height ≤ depthLimit := by
  unfold repeated
  cases read : part start with
  | failed error visits =>
      constructor
      · intro failed
        cases failed
      · intro repeats
        obtain ⟨_, _, _, failed, _⟩ := repeats
        cases failed
  | read subtree visits next closer =>
      rw [read] at shallow
      simp only
      rw [outcome_stars_eq_ok_iff (shallow rfl)]
      constructor
      · intro repeats
        obtain ⟨number, rest⟩ := repeats
        exact ⟨subtree, next, number, rfl, rest⟩
      · intro repeats
        obtain ⟨_, _, number, same, rest⟩ := repeats
        cases same
        exact ⟨number, rest⟩

/-! ### Chains -/

inductive ChainOperator.Chains (operator : ChainOperator) (operand : Rule) :
    Cursor → List Subtree → Cursor → Prop where
  | last {start stop : Cursor} {subtree : Subtree}
      (read : (operand start).outcome = .ok (subtree, stop)) (ends : operator.follow stop = none) :
      Chains operator operand start [subtree] stop
  | more {start here stop : Cursor} {subtree : Subtree} {subtrees : List Subtree}
      {there : { next : Cursor // next.remaining ≤ here.remaining }}
      (read : (operand start).outcome = .ok (subtree, here))
      (goesOn : operator.follow here = some there)
      (later : Chains operator operand there subtrees stop) :
      Chains operator operand start (subtree :: subtrees) stop

variable {operator : ChainOperator} {operand : Rule} {start here stop : Cursor}

theorem ChainOperator.Chains.exists_read {subtrees : List Subtree}
    (chains : operator.Chains operand start subtrees stop) :
    ∃ subtree next, (operand start).outcome = .ok (subtree, next) := by
  cases chains with
  | last read _ => exact ⟨_, _, read⟩
  | more read _ _ => exact ⟨_, _, read⟩

theorem foldr_max_le_iff {heights : List Nat} {bound : Nat} :
    heights.foldr max 0 ≤ bound ↔ ∀ height ∈ heights, height ≤ bound := by
  induction heights with
  | nil => simp
  | cons height heights inductionHypothesis =>
      rw [List.foldr_cons, Nat.max_le, inductionHypothesis, List.forall_mem_cons]

/-- The operands of a chain are put together in the order of the text. -/
theorem assemble_reverse (operator : ChainOperator) (position : Position)
    (operands : List Subtree) :
    operator.assemble position operands.reverse =
      if operands.length ≤ 1 ∨ (Subtree.chain operator.build operands).height ≤ depthLimit then
        .ok (.chain operator.build operands)
      else
        .error (.nestingTooDeep position depthLimit) := by
  have heights : (operands.reverse.map Subtree.height).foldl max 0 =
      (operands.map Subtree.height).foldr max 0 := by
    rw [List.map_reverse, List.foldl_reverse]
    simp only [Nat.max_comm]
  unfold ChainOperator.assemble deepen
  simp only [List.reverse_reverse, List.length_reverse, heights, Subtree.chain]
  by_cases short : operands.length ≤ 1
  · simp [short]
  · by_cases shallow : (operands.map Subtree.height).foldr max 0 + 1 ≤ depthLimit
    · simp [short, shallow]
    · simp [short, shallow]

/-- One operand alone adds no level. -/
theorem height_chain_le_of_short {build : List Expr → Expr} {operands : List Subtree}
    (short : operands.length ≤ 1) (shallow : ∀ operand ∈ operands, operand.height ≤ depthLimit) :
    (Subtree.chain build operands).height ≤ depthLimit := by
  rw [Subtree.chain, if_pos short, Nat.add_zero, foldr_max_le_iff, List.forall_mem_map]
  exact shallow

theorem assemble_reverse_eq_ok_iff {position : Position} {operands : List Subtree}
    {result : Subtree}
    (shallow : ∀ operand ∈ operands, operand.height ≤ depthLimit) :
    operator.assemble position operands.reverse = .ok result ↔
      Subtree.chain operator.build operands = result ∧ result.height ≤ depthLimit := by
  rw [assemble_reverse]
  by_cases low : (Subtree.chain operator.build operands).height ≤ depthLimit
  · rw [if_pos (.inr low)]
    constructor
    · intro same
      cases same
      exact ⟨rfl, low⟩
    · intro assembled
      obtain ⟨rfl, _⟩ := assembled
      rfl
  · have notShort : ¬ operands.length ≤ 1 := fun short =>
      low (height_chain_le_of_short short shallow)
    rw [if_neg (not_or.mpr ⟨notShort, low⟩)]
    constructor
    · intro same
      cases same
    · intro assembled
      obtain ⟨rfl, impossible⟩ := assembled
      exact absurd impossible low

theorem outcome_operandsFrom_eq_ok_iff {operands : List Subtree} {visits : List Visit}
    {result : Subtree} {closer : here.remaining < start.remaining} :
    (operandsFrom operator operand operands visits here closer).outcome = .ok (result, stop) ↔
      (operator.follow here = none ∧ stop = here ∧
          operator.assemble start.position operands = .ok result) ∨
        ∃ there subtrees, operator.follow here = some there ∧
          operator.Chains operand there subtrees stop ∧
            operator.assemble start.position (subtrees.reverse ++ operands) = .ok result := by
  fun_induction operandsFrom operator operand operands visits here closer with
  | case1 operands visits here closer ends error failed =>
      simp [Reading.outcome, ends, failed]
  | case2 operands visits here closer ends subtree assembled =>
      simp [Reading.outcome, ends, assembled, eq_comm, and_comm]
  | case3 operands visits here closer there notFarther goesOn error inside failed =>
      constructor
      · intro read
        cases read
      · intro continued
        rcases continued with ⟨ends, _⟩ | ⟨there, subtrees, follows, chains, _⟩
        · rw [goesOn] at ends
          cases ends
        · cases goesOn.symm.trans follows
          obtain ⟨_, _, read⟩ := chains.exists_read
          rw [failed] at read
          cases read
  | case4 operands visits here closer there notFarther goesOn subtree inside next shorter read
      closerNext inductionHypothesis =>
      rw [inductionHypothesis]
      constructor
      · intro continued
        rcases continued with ⟨ends, rfl, assembled⟩ | ⟨later, subtrees, follows, chains, assembled⟩
        · refine .inr ⟨_, [subtree], goesOn, .last ?_ ends, assembled⟩
          rw [read]
          rfl
        · refine .inr ⟨_, subtree :: subtrees, goesOn, .more ?_ follows chains, ?_⟩
          · rw [read]
            rfl
          · rw [List.reverse_cons, List.append_assoc]
            exact assembled
      · intro continued
        rcases continued with ⟨ends, _⟩ | ⟨there, subtrees, follows, chains, assembled⟩
        · rw [goesOn] at ends
          cases ends
        · cases goesOn.symm.trans follows
          cases chains with
          | last readHere ends =>
              rw [read] at readHere
              cases readHere
              exact .inl ⟨ends, rfl, assembled⟩
          | more readHere follows later =>
              rw [read] at readHere
              cases readHere
              rw [List.reverse_cons, List.append_assoc] at assembled
              exact .inr ⟨_, _, follows, later, assembled⟩

theorem ChainOperator.Chains.shallow {subtrees : List Subtree}
    (shallow : ∀ {start subtree next}, (operand start).outcome = .ok (subtree, next) →
      subtree.height ≤ depthLimit)
    (chains : operator.Chains operand start subtrees stop) :
    ∀ subtree ∈ subtrees, subtree.height ≤ depthLimit := by
  induction chains with
  | last read _ => exact List.forall_mem_singleton.mpr (shallow read)
  | more read _ _ inductionHypothesis =>
      exact List.forall_mem_cons.mpr ⟨shallow read, inductionHypothesis⟩

theorem outcome_chain_eq_ok_iff {result : Subtree}
    (shallow : ∀ {start subtree next}, (operand start).outcome = .ok (subtree, next) →
      subtree.height ≤ depthLimit) :
    (chain operator operand start).outcome = .ok (result, stop) ↔
      ∃ subtrees, operator.Chains operand start subtrees stop ∧
        Subtree.chain operator.build subtrees = result ∧ result.height ≤ depthLimit := by
  have assembled : ∀ {subtrees}, operator.Chains operand start subtrees stop →
      (operator.assemble start.position subtrees.reverse = .ok result ↔
        Subtree.chain operator.build subtrees = result ∧ result.height ≤ depthLimit) :=
    fun chains => assemble_reverse_eq_ok_iff (chains.shallow shallow)
  unfold chain
  cases read : operand start with
  | failed error inside =>
      constructor
      · intro failed
        cases failed
      · intro chained
        obtain ⟨subtrees, chains, _⟩ := chained
        obtain ⟨_, _, readHere⟩ := chains.exists_read
        rw [read] at readHere
        cases readHere
  | read subtree inside next closer =>
      have readStart : (operand start).outcome = .ok (subtree, next) := by
        rw [read]
        rfl
      simp only
      rw [outcome_operandsFrom_eq_ok_iff]
      constructor
      · intro continued
        rcases continued with ⟨ends, rfl, ok⟩ | ⟨there, subtrees, follows, later, ok⟩
        · have chains := ChainOperator.Chains.last readStart ends
          exact ⟨[subtree], chains, (assembled chains).mp ok⟩
        · have chains := ChainOperator.Chains.more readStart follows later
          refine ⟨subtree :: subtrees, chains, (assembled chains).mp ?_⟩
          rw [List.reverse_cons]
          exact ok
      · intro chained
        obtain ⟨subtrees, chains, ok⟩ := chained
        replace ok := (assembled chains).mpr ok
        cases chains with
        | last readHere ends =>
            cases readStart.symm.trans readHere
            exact .inl ⟨ends, rfl, ok⟩
        | more readHere follows later =>
            cases readStart.symm.trans readHere
            rw [List.reverse_cons] at ok
            exact .inr ⟨_, _, follows, later, ok⟩

/-! ### Groups and whole texts -/

theorem outcome_closeGroup_eq_ok_iff {opened : Position} {reading : Reading start}
    {result : Subtree} :
    (closeGroup opened reading).outcome = .ok (result, stop) ↔
      ∃ here, reading.outcome = .ok (result, here) ∧ here.Spans [')'] stop := by
  cases reading with
  | failed error visits => simp [closeGroup, Reading.outcome]
  | read subtree visits here closer =>
      simp only [closeGroup]
      split
      · rename_i atOther
        simp only [Reading.outcome, Except.ok.injEq, Prod.mk.injEq]
        constructor
        · intro failed
          cases failed
        · intro closed
          obtain ⟨here, ⟨rfl, rfl⟩, closes⟩ := closed
          rw [← Cursor.eat_eq_some_iff, atOther] at closes
          cases closes
      · rename_i next eaten
        simp only [Reading.outcome, Except.ok.injEq, Prod.mk.injEq]
        constructor
        · intro same
          obtain ⟨rfl, rfl⟩ := same
          exact ⟨here, ⟨rfl, rfl⟩, Cursor.eat_eq_some_iff.mp eaten⟩
        · intro closed
          obtain ⟨_, ⟨rfl, rfl⟩, closes⟩ := closed
          rw [← Cursor.eat_eq_some_iff, eaten] at closes
          exact ⟨rfl, Option.some.inj closes⟩

/-- A text is accepted if its union is read to the end. -/
theorem outcome_ofReading_eq_ok_iff {reading : Reading start} {result : Subtree} :
    (Parsing.ofReading reading).outcome = .ok result ↔
      ∃ stop, reading.outcome = .ok (result, stop) ∧ stop.peek = none := by
  cases reading with
  | failed error visits => simp [Parsing.ofReading, Reading.outcome]
  | read subtree visits next closer =>
      simp only [Parsing.ofReading, Reading.outcome]
      cases behind : next.peek with
      | none =>
          simp only [Except.ok.injEq, Prod.mk.injEq]
          constructor
          · intro same
            subst same
            exact ⟨next, ⟨rfl, rfl⟩, behind⟩
          · intro accepted
            obtain ⟨_, ⟨same, _⟩, _⟩ := accepted
            exact same
      | some character =>
          by_cases isClosing : character = ')'
          · simp [isClosing, behind]
          · simp [isClosing, behind]

end RegularWords.Grammar
