import RegularWords.Proofs.Forward

/-!
A parser that counts its open groups.

This parser carries how many groups are open, and counts up at an opening parenthesis and down at
the closing one.  A union inside a group is read by calling the whole parser again, for which it has
fuel.  It can be stuck: out of fuel, at a group to close when none is open, or in a chain whose
operand has read nothing, so that it would go on for ever.  What a procedure reads is at least one
character, and it leaves as many groups open as it has found.  So only the fuel can end, and it does
not if there is one more than groups may be open.
-/

namespace RegularWords.Grammar

namespace Counted

/-- Where the parser stands, how many groups are open, and the visits made, latest first. -/
structure State where
  cursor : Cursor
  groups : Nat
  visits : List Visit

inductive Stuck where
  | outOfFuel
  | noGroupOpen
  | noProgress
  deriving DecidableEq

inductive Result where
  | read (subtree : Subtree) (state : State)
  | failed (error : SyntaxError) (visits : List Visit)
  | stuck (why : Stuck)

abbrev Procedure := State → Result

def Result.andThen : Result → (Subtree → Procedure) → Result
  | .read subtree state, next => next subtree state
  | .failed error visits, _ => .failed error visits
  | .stuck why, _ => .stuck why

def State.visit (state : State) (production : Production) : State :=
  { state with visits := { production, position := state.cursor.position } :: state.visits }

/-! ### Primaries and repetitions -/

def closeGroup (opened : Position) (inside : Subtree) : Procedure := fun state =>
  match state.cursor.eat ')' with
  | none =>
      .failed (.unmatchedParen opened state.cursor.position state.cursor.peek) state.visits
  | some next =>
      match state.groups with
      | 0 => .stuck .noGroupOpen
      | groups + 1 => .read inside { state with cursor := next, groups := groups }

def group (union : Procedure) (opened : Position) : Procedure := fun state =>
  let state := { state with groups := state.groups + 1 }
  if state.groups > depthLimit then
    .failed (.nestingTooDeep opened depthLimit) state.visits
  else
    (union state).andThen (closeGroup opened)

def primary (alphabet : Alphabet) (union : Procedure) : Procedure := fun state =>
  let position := state.cursor.position
  let state := state.visit .primary
  match state.cursor.advance with
  | none => .failed (.unexpectedEnd position) state.visits
  | some (character, next) =>
      let state := { state with cursor := next }
      if character = '(' then
        group union position state
      else if character = '@' then
        .read { expr := .empty, height := 0 } state
      else if alphabet.contains character then
        .read { expr := .literal character, height := 0 } state
      else
        .failed (.unexpectedChar position character) state.visits

def stars (subtree : Subtree) (state : State) : Result :=
  match eaten : state.cursor.eat '*' with
  | none => .read subtree state
  | some next =>
      match deepen subtree.height state.cursor.position with
      | .error error => .failed error state.visits
      | .ok height =>
          have : next.remaining < state.cursor.remaining := Cursor.remaining_of_eat eaten
          stars { expr := .star subtree.expr, height := height } { state with cursor := next }
termination_by state.cursor.remaining

section Stars

variable {subtree : Subtree} {state : State}

theorem stars_of_other (atOther : state.cursor.eat '*' = none) :
    stars subtree state = .read subtree state := by
  unfold stars
  split
  · rfl
  · rename_i eaten
    rw [atOther] at eaten
    cases eaten

theorem stars_of_eat {next : Cursor} (eaten : state.cursor.eat '*' = some next) :
    stars subtree state =
      match deepen subtree.height state.cursor.position with
      | .error error => .failed error state.visits
      | .ok height =>
          stars { expr := .star subtree.expr, height := height } { state with cursor := next } := by
  rw [stars]
  split
  · rename_i atOther
    rw [eaten] at atOther
    cases atOther
  · rename_i there eatenThere
    cases eaten.symm.trans eatenThere
    rfl

end Stars

def star (primary : Procedure) : Procedure := fun state => (primary state).andThen stars

/-! ### Chains -/

def operandsFrom (operator : ChainOperator) (operand : Procedure) (start : Position)
    (operands : List Subtree) (state : State) : Result :=
  match operator.follow state.cursor with
  | none =>
      match operator.assemble start operands with
      | .error error => .failed error state.visits
      | .ok subtree => .read subtree state
  | some there =>
      match operand { state with cursor := there.1 } with
      | .failed error visits => .failed error visits
      | .stuck why => .stuck why
      | .read subtree next =>
          if next.cursor.remaining < state.cursor.remaining then
            operandsFrom operator operand start (subtree :: operands) next
          else
            .stuck .noProgress
termination_by state.cursor.remaining

def chain (operator : ChainOperator) (operand : Procedure) : Procedure := fun state =>
  let start := state.cursor.position
  (operand (state.visit operator.production)).andThen fun subtree =>
    operandsFrom operator operand start [subtree]

def concat (alphabet : Alphabet) (union : Procedure) : Procedure :=
  chain concatenation (star (primary alphabet union))

/-- The fuel is the number of calls of this procedure that may be active at once. -/
def union (alphabet : Alphabet) : Nat → Procedure
  | 0 => fun _ => .stuck .outOfFuel
  | fuel + 1 => chain alternation (concat alphabet (union alphabet fuel))

def Result.parsing? : Result → Option Parsing
  | .read subtree state =>
      some
        { outcome :=
            match state.cursor.peek with
            | none => .ok subtree
            | some character =>
                if character = ')' then
                  .error (.unmatchedCloseParen state.cursor.position)
                else
                  .error (.unexpectedChar state.cursor.position character)
          visits := state.visits.reverse }
  | .failed error visits => some { outcome := .error error, visits := visits.reverse }
  | .stuck _ => none

def parsing? (alphabet : Alphabet) (fuel : Nat) (text : List Char) : Option Parsing :=
  (union alphabet fuel { cursor := .ofList text, groups := 0, visits := [] }).parsing?

/-! ### Progress -/

/-- Something was read, and as many groups are open as before; only the fuel may have ended. -/
def Result.Steady (before : State) : Result → Prop
  | .read _ state =>
      state.groups = before.groups ∧ state.cursor.remaining < before.cursor.remaining
  | .failed _ _ => True
  | .stuck why => why = .outOfFuel

def Procedure.Steady (procedure : Procedure) : Prop :=
  ∀ state, (procedure state).Steady state

section Balance

variable {before state : State} {result : Result}

theorem Result.Steady.andThen {next : Subtree → Procedure} (steady : result.Steady state)
    (goesOn : ∀ subtree behind, behind.groups = state.groups →
      behind.cursor.remaining < state.cursor.remaining → (next subtree behind).Steady before) :
    (result.andThen next).Steady before := by
  cases result with
  | read subtree behind => exact goesOn subtree behind steady.1 steady.2
  | failed error visits => trivial
  | stuck why => exact steady

theorem Result.Steady.from_farther (steady : result.Steady state)
    (sameGroups : state.groups = before.groups)
    (notFarther : state.cursor.remaining ≤ before.cursor.remaining) : result.Steady before := by
  cases result with
  | read subtree behind =>
      exact ⟨steady.1.trans sameGroups, Nat.lt_of_lt_of_le steady.2 notFarther⟩
  | failed error visits => trivial
  | stuck why => exact steady

theorem closeGroup_steady {opened : Position} {inside : Subtree}
    (isOpen : state.groups = before.groups + 1)
    (closer : state.cursor.remaining < before.cursor.remaining) :
    (closeGroup opened inside state).Steady before := by
  unfold closeGroup
  split
  · trivial
  · rename_i next eaten
    rw [isOpen]
    exact ⟨rfl, Nat.lt_trans (Cursor.remaining_of_eat eaten) closer⟩

theorem group_steady {union : Procedure} (unionSteady : union.Steady) (opened : Position) :
    (group union opened).Steady := by
  intro state
  unfold group
  simp only
  split
  · trivial
  · refine (unionSteady _).andThen ?_
    intro subtree behind sameGroups closer
    exact closeGroup_steady sameGroups closer

theorem primary_steady (alphabet : Alphabet) {union : Procedure} (unionSteady : union.Steady) :
    (primary alphabet union).Steady := by
  intro state
  unfold primary
  simp only
  split
  · trivial
  · rename_i character next advanced
    have closer : next.remaining < state.cursor.remaining := Cursor.remaining_of_advance advanced
    split
    · exact (group_steady unionSteady _ _).from_farther rfl (Nat.le_of_lt closer)
    · split
      · exact ⟨rfl, closer⟩
      · split
        · exact ⟨rfl, closer⟩
        · trivial

theorem stars_steady {subtree : Subtree} (sameGroups : state.groups = before.groups)
    (closer : state.cursor.remaining < before.cursor.remaining) :
    (stars subtree state).Steady before := by
  fun_induction stars subtree state with
  | case1 => exact ⟨sameGroups, closer⟩
  | case2 => trivial
  | case3 subtree state next eaten height deeper shorter inductionHypothesis =>
      exact inductionHypothesis sameGroups (Nat.lt_trans shorter closer)

theorem star_steady {primary : Procedure} (primarySteady : primary.Steady) :
    (star primary).Steady := by
  intro state
  exact (primarySteady state).andThen fun _ _ => stars_steady

theorem operandsFrom_steady {operator : ChainOperator} {operand : Procedure}
    (operandSteady : operand.Steady) {start : Position} {operands : List Subtree}
    (sameGroups : state.groups = before.groups)
    (closer : state.cursor.remaining < before.cursor.remaining) :
    (operandsFrom operator operand start operands state).Steady before := by
  fun_induction operandsFrom operator operand start operands state with
  | case1 => trivial
  | case2 => exact ⟨sameGroups, closer⟩
  | case3 => trivial
  | case4 operands state there goesOn why stuck =>
      have steady := operandSteady { state with cursor := there.1 }
      rwa [stuck] at steady
  | case5 operands state there goesOn subtree next read shorter inductionHypothesis =>
      have steady := operandSteady { state with cursor := there.1 }
      rw [read] at steady
      exact inductionHypothesis (steady.1.trans sameGroups) (Nat.lt_trans shorter closer)
  | case6 operands state there goesOn subtree next read noProgress =>
      have steady := operandSteady { state with cursor := there.1 }
      rw [read] at steady
      exact absurd (Nat.lt_of_lt_of_le steady.2 there.2) noProgress

theorem chain_steady (operator : ChainOperator) {operand : Procedure}
    (operandSteady : operand.Steady) : (chain operator operand).Steady := by
  intro state
  exact (operandSteady (state.visit operator.production)).andThen fun _ _ =>
    operandsFrom_steady operandSteady

theorem concat_steady (alphabet : Alphabet) {union : Procedure} (unionSteady : union.Steady) :
    (concat alphabet union).Steady :=
  chain_steady concatenation (star_steady (primary_steady alphabet unionSteady))

theorem union_steady (alphabet : Alphabet) (fuel : Nat) : (union alphabet fuel).Steady := by
  induction fuel with
  | zero => exact fun _ => rfl
  | succ fuel inductionHypothesis =>
      exact chain_steady alternation (concat_steady alphabet inductionHypothesis)

end Balance

/-! ### Enough fuel -/

/-- What a rule of the grammar reads, with the groups that are open and the visits made before. -/
def Result.ofReading (groups : Nat) (before : List Visit) {start : Cursor} : Reading start → Result
  | .read subtree visits next _ =>
      .read subtree { cursor := next, groups := groups, visits := visits ++ before }
  | .failed error visits => .failed error (visits ++ before)

def Procedure.Follows (groups : Nat) (procedure : Procedure) (rule : Rule) : Prop :=
  ∀ cursor before, procedure { cursor := cursor, groups := groups, visits := before } =
    .ofReading groups before (rule cursor)

section Following

variable {groups : Nat} {before : List Visit} {start here : Cursor} {visits : List Visit}
  {closer : here.remaining < start.remaining}

theorem stars_follows (subtree : Subtree) :
    stars subtree { cursor := here, groups := groups, visits := visits ++ before } =
      .ofReading groups before (Grammar.stars subtree visits here closer) := by
  fun_induction Grammar.stars subtree visits here closer with
  | case1 subtree here closer atOther => exact stars_of_other atOther
  | case2 subtree here closer next eaten error tooHigh =>
      rw [stars_of_eat eaten, tooHigh]
      rfl
  | case3 subtree here closer next eaten height deeper shorter inductionHypothesis =>
      rw [stars_of_eat eaten, deeper]
      exact inductionHypothesis

theorem star_follows {part : Procedure} {rule : Rule} (follows : part.Follows groups rule) :
    (star part).Follows groups (repeated rule) := by
  intro cursor before
  unfold star repeated
  rw [follows]
  cases rule cursor with
  | failed error visits => rfl
  | read subtree visits next closer => exact stars_follows subtree

variable {operator : ChainOperator} {operand : Procedure} {rule : Rule}

theorem operandsFrom_follows (follows : operand.Follows groups rule) (operands : List Subtree) :
    operandsFrom operator operand start.position operands
        { cursor := here, groups := groups, visits := visits ++ before } =
      .ofReading groups before
        (Grammar.operandsFrom operator rule operands visits here closer) := by
  fun_induction Grammar.operandsFrom operator rule operands visits here closer with
  | case1 operands visits here closer ends error failed =>
      unfold operandsFrom
      simp only [ends, failed]
      rfl
  | case2 operands visits here closer ends subtree assembled =>
      unfold operandsFrom
      simp only [ends, assembled]
      rfl
  | case3 operands visits here closer there notFarther goesOn error inside read =>
      unfold operandsFrom
      simp only [goesOn, follows _ _, read, Result.ofReading, List.append_assoc]
  | case4 operands visits here closer there notFarther goesOn subtree inside next shorter read
      nextCloser inductionHypothesis =>
      unfold operandsFrom
      simp only [goesOn, follows _ _, read, Result.ofReading]
      rw [if_pos nextCloser, ← List.append_assoc]
      exact inductionHypothesis

theorem chain_follows (operator : ChainOperator) (follows : operand.Follows groups rule) :
    (chain operator operand).Follows groups (Grammar.chain operator rule) := by
  intro cursor before
  unfold chain Grammar.chain
  simp only [State.visit, follows _ _]
  cases rule cursor with
  | failed error inside => simp [Result.ofReading, Result.andThen]
  | read subtree inside next closer =>
      simp only [Result.ofReading, Result.andThen]
      rw [List.append_cons]
      exact operandsFrom_follows follows [subtree]

theorem primary_follows (alphabet : Alphabet) {union : Procedure} {group : Position → Rule}
    (follows : ∀ opened, (Counted.group union opened).Follows groups (group opened)) :
    (primary alphabet union).Follows groups (Grammar.primary alphabet group) := by
  intro cursor before
  rcases cursor with ⟨_ | ⟨character, rest⟩, position⟩
  · rfl
  · unfold primary Grammar.primary
    simp only [State.visit, Cursor.advance]
    by_cases isOpening : character = '('
    · rw [if_pos isOpening, if_pos isOpening, follows]
      cases group position { rest, position := position.next } with
      | failed error inside => simp [Result.ofReading]
      | read subtree inside behind shorter => simp [Result.ofReading]
    · rw [if_neg isOpening, if_neg isOpening]
      by_cases isEmptyWord : character = '@'
      · rw [if_pos isEmptyWord, if_pos isEmptyWord]
        rfl
      · rw [if_neg isEmptyWord, if_neg isEmptyWord]
        split <;> rfl

theorem closeGroup_follows (opened : Position) (inside : Subtree) :
    closeGroup opened inside { cursor := here, groups := groups + 1, visits := visits ++ before } =
      .ofReading groups before
        (Grammar.closeGroup opened (.read inside visits here closer)) := by
  unfold Grammar.closeGroup
  simp only
  split
  · rename_i atOther
    simp only [closeGroup, atOther]
    rfl
  · rename_i next eaten
    simp only [closeGroup, eaten]
    rfl

theorem group_follows (alphabet : Alphabet) {union : Procedure} {room : Nat}
    (all : groups + room = depthLimit)
    (follows : ∀ less, room = less + 1 →
      union.Follows (groups + 1) (Grammar.union alphabet (Grammar.group alphabet less)))
    (opened : Position) :
    (group union opened).Follows groups (Grammar.group alphabet room opened) := by
  intro cursor before
  unfold group
  simp only
  cases room with
  | zero =>
      rw [if_pos (by omega)]
      rfl
  | succ less =>
      rw [if_neg (by omega), follows less rfl]
      unfold Grammar.group
      cases Grammar.union alphabet (Grammar.group alphabet less) cursor with
      | failed error visits => rfl
      | read subtree visits here closer => exact closeGroup_follows opened subtree

/-- The fuel is for one union more than groups may still be opened. -/
theorem union_follows (alphabet : Alphabet) {fuel room : Nat} (enough : room < fuel)
    (all : groups + room = depthLimit) :
    (union alphabet fuel).Follows groups
      (Grammar.union alphabet (Grammar.group alphabet room)) := by
  induction fuel generalizing groups room with
  | zero => exact absurd enough (Nat.not_lt_zero _)
  | succ fuel inductionHypothesis =>
      refine chain_follows _ (chain_follows _ (star_follows (primary_follows _ ?_)))
      apply group_follows alphabet all
      intro less isLess
      subst isLess
      exact inductionHypothesis (Nat.lt_of_succ_lt_succ enough) (by omega)

end Following

variable (alphabet : Alphabet)

/-- At most one union more than groups may be open is active at once. -/
theorem parsing?_eq (text : List Char) {fuel : Nat} (enough : depthLimit < fuel) :
    parsing? alphabet fuel text = some (parsing alphabet text) := by
  have follows := union_follows alphabet enough (Nat.zero_add depthLimit)
  unfold parsing? parsing
  rw [follows]
  cases Grammar.union alphabet (Grammar.group alphabet depthLimit) (Cursor.ofList text) with
  | failed error visits =>
      simp only [Result.ofReading, Result.parsing?, Parsing.ofReading, List.append_nil]
  | read subtree visits next closer =>
      cases behind : next.peek with
      | none => simp [Result.ofReading, Result.parsing?, Parsing.ofReading, behind]
      | some character => simp [Result.ofReading, Result.parsing?, Parsing.ofReading, behind]

theorem group_outOfFuel {union : Procedure} {cursor : Cursor} {groups : Nat} {before : List Visit}
    (room : groups < depthLimit) (opened : Position)
    (stuck : union { cursor := cursor, groups := groups + 1, visits := before } =
      .stuck .outOfFuel) :
    group union opened { cursor := cursor, groups := groups, visits := before } =
      .stuck .outOfFuel := by
  unfold group
  simp only
  rw [if_neg (Nat.not_lt.mpr room), stuck]
  rfl

/-- Each of these parentheses takes the fuel for the union behind it. -/
theorem union_outOfFuel {fuel groups : Nat} (room : groups + fuel ≤ depthLimit)
    (position : Position) (before : List Visit) :
    union alphabet fuel
        { cursor := { rest := List.replicate fuel '(', position := position }
          groups := groups
          visits := before } =
      .stuck .outOfFuel := by
  induction fuel generalizing groups position before with
  | zero => rfl
  | succ fuel inductionHypothesis =>
      have roomHere : groups < depthLimit := by omega
      have roomInside : groups + 1 + fuel ≤ depthLimit := by omega
      have stuck : ∀ before, primary alphabet (union alphabet fuel)
          { cursor := { rest := List.replicate (fuel + 1) '(', position := position }
            groups := groups
            visits := before } = .stuck .outOfFuel :=
        fun before => group_outOfFuel roomHere position (inductionHypothesis roomInside _ _)
      simp only [union, concat, chain, star, State.visit, stuck]
      rfl

theorem parsing?_ne_none_iff {fuel : Nat} :
    (∀ text, parsing? alphabet fuel text ≠ none) ↔ depthLimit < fuel := by
  constructor
  · intro neverStuck
    by_contra short
    refine neverStuck (List.replicate fuel '(') ?_
    unfold parsing? Cursor.ofList
    rw [union_outOfFuel alphabet (by omega)]
    rfl
  · intro enough text
    rw [parsing?_eq alphabet text enough]
    exact Option.some_ne_none _

/-- Every procedure that returns has read something and closed the groups it has opened, and the
whole parser ends with the same result as without the fuel.  It goes through the text once. -/
theorem bounded_recursion :
    (∀ fuel, (union alphabet fuel).Steady ∧ (concat alphabet (union alphabet fuel)).Steady ∧
      (star (primary alphabet (union alphabet fuel))).Steady ∧
        (primary alphabet (union alphabet fuel)).Steady) ∧
      ∀ text : List Char,
        (∀ fuel, depthLimit < fuel →
          parsing? alphabet fuel text = some (parsing alphabet text)) ∧
        (parsing alphabet text).visits.Pairwise Visit.Precedes ∧
          (primaryPlaces (parsing alphabet text).visits).Pairwise (· < ·) ∧
            (primaryPlaces (parsing alphabet text).visits).length ≤ text.length + 1 := by
  constructor
  · intro fuel
    have unionSteady := union_steady alphabet fuel
    have primarySteady := primary_steady alphabet unionSteady
    exact ⟨unionSteady, concat_steady alphabet unionSteady, star_steady primarySteady,
      primarySteady⟩
  · intro text
    exact ⟨fun fuel => parsing?_eq alphabet text, visits_precede alphabet text,
      primaryPlaces_increase alphabet text, length_primaryPlaces_le alphabet text⟩

/-- Behind two open groups the parser still expects a primary, at the end of the text. -/
theorem bounded_recursion_open_groups :
    let alphabet : Alphabet := ⟨['a'], by decide, by decide⟩
    let parsed := parsing alphabet "((".toList
    depthLimit < 257 ∧ parsing? alphabet 257 "((".toList = some parsed ∧
      primaryPlaces parsed.visits = [0, 1, 2] := by
  intro alphabet parsed
  have enough : depthLimit < 257 := by decide
  exact ⟨enough, ((bounded_recursion alphabet).2 "((".toList).1 257 enough, by decide +kernel⟩

end Counted

end RegularWords.Grammar
