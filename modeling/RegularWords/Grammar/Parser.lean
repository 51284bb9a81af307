import RegularWords.Alphabet
import RegularWords.Expr.Chain
import RegularWords.Grammar.SyntaxError

/-!
Expressions read from text over an alphabet.

    Union   -> Concat ( '+' Concat )*
    Concat  -> Star Star*
    Star    -> Primary '*'*
    Primary -> '(' Union ')' | '@' | symbol

Every character is a token.  Where a factor is expected, every symbol of the alphabet other than the
opening parenthesis and the at sign is a literal, operators among them; behind a factor the
characters `+`, `*` and `)` are operators, and any other character starts the next factor.

A rule reads from a cursor and either fails or stops at a cursor closer to the end, which is what
ends the loops.  Groups may be open inside each other up to the depth limit: the rule for a group
carries the room that is left for further ones.  The levels of the tree have the same limit.
-/

namespace RegularWords.Grammar

/-- How many groups may be open at once, and how many levels a tree may have above its leaves. -/
def depthLimit : Nat := 256

inductive Production where
  | union
  | concat
  | primary
  deriving DecidableEq

def Production.name : Production → String
  | .union => "union"
  | .concat => "concat"
  | .primary => "primary"

structure Visit where
  production : Production
  position : Position
  deriving DecidableEq

/-- An expression and the number of levels it was read with: each repetition and each chain of two
or more operands adds one, counted before chains are joined. -/
structure Subtree where
  expr : Expr
  height : Nat
  deriving DecidableEq

/-- What comes of reading from `start`, with the visits made, latest first. -/
inductive Reading (start : Cursor) where
  | read (subtree : Subtree) (visits : List Visit) (next : Cursor)
      (closer : next.remaining < start.remaining)
  | failed (error : SyntaxError) (visits : List Visit)

abbrev Rule := (start : Cursor) → Reading start

/-- One level above a subtree of the given height; the position is blamed if that is too high. -/
def deepen (height : Nat) (position : Position) : Except SyntaxError Nat :=
  if height + 1 ≤ depthLimit then
    .ok (height + 1)
  else
    .error (.nestingTooDeep position depthLimit)

/-! ### Primaries and repetitions -/

/-- Reads a group, the empty word or a literal.  A group is read by the given rule, which is told
where the group was opened and starts behind the parenthesis. -/
def primary (alphabet : Alphabet) (group : Position → Rule) : Rule := fun start =>
  let visits := [{ production := .primary, position := start.position }]
  match advanced : start.advance with
  | none => .failed (.unexpectedEnd start.position) visits
  | some (character, next) =>
      have closer : next.remaining < start.remaining := Cursor.remaining_of_advance advanced
      if character = '(' then
        match group start.position next with
        | .failed error inside => .failed error (inside ++ visits)
        | .read subtree inside behind shorter =>
            .read subtree (inside ++ visits) behind (Nat.lt_trans shorter closer)
      else if character = '@' then
        .read { expr := .empty, height := 0 } visits next closer
      else if alphabet.contains character then
        .read { expr := .literal character, height := 0 } visits next closer
      else
        .failed (.unexpectedChar start.position character) visits

/-- Wraps what was read up to `here` once for every star that follows. -/
def stars {start : Cursor} (subtree : Subtree) (visits : List Visit) (here : Cursor)
    (closer : here.remaining < start.remaining) : Reading start :=
  match eaten : here.eat '*' with
  | none => .read subtree visits here closer
  | some next =>
      match deepen subtree.height here.position with
      | .error error => .failed error visits
      | .ok height =>
          have shorter : next.remaining < here.remaining := Cursor.remaining_of_eat eaten
          stars { expr := .star subtree.expr, height := height } visits next
            (Nat.lt_trans shorter closer)
termination_by here.remaining

def repeated (part : Rule) : Rule := fun start =>
  match part start with
  | .failed error visits => .failed error visits
  | .read subtree visits next closer => stars subtree visits next closer

/-! ### Chains -/

structure ChainOperator where
  production : Production
  /-- Where the next operand starts, if the chain goes on. -/
  follow : (here : Cursor) → Option { next : Cursor // next.remaining ≤ here.remaining }
  build : List Expr → Expr

def concatenation : ChainOperator where
  production := .concat
  follow := fun here =>
    match here.peek with
    | none => none
    | some character =>
        if character = '+' ∨ character = ')' then none else some ⟨here, Nat.le_refl _⟩
  build := Expr.concatAll

def alternation : ChainOperator where
  production := .union
  follow := fun here =>
    match eaten : here.eat '+' with
    | none => none
    | some next => some ⟨next, Nat.le_of_lt (Cursor.remaining_of_eat eaten)⟩
  build := Expr.unionAll

/-- Puts a chain together from its operands, latest first.  Two or more operands add a level. -/
def ChainOperator.assemble (operator : ChainOperator) (start : Position)
    (operands : List Subtree) : Except SyntaxError Subtree :=
  let expr := operator.build (operands.reverse.map Subtree.expr)
  let height := (operands.map Subtree.height).foldl max 0
  if operands.length ≤ 1 then
    .ok { expr := expr, height := height }
  else
    match deepen height start with
    | .error error => .error error
    | .ok height => .ok { expr := expr, height := height }

def operandsFrom (operator : ChainOperator) (operand : Rule) {start : Cursor}
    (operands : List Subtree) (visits : List Visit) (here : Cursor)
    (closer : here.remaining < start.remaining) : Reading start :=
  match operator.follow here with
  | none =>
      match operator.assemble start.position operands with
      | .error error => .failed error visits
      | .ok subtree => .read subtree visits here closer
  | some ⟨there, notFarther⟩ =>
      match operand there with
      | .failed error inside => .failed error (inside ++ visits)
      | .read subtree inside next shorter =>
          have : next.remaining < here.remaining := Nat.lt_of_lt_of_le shorter notFarther
          operandsFrom operator operand (subtree :: operands) (inside ++ visits) next
            (Nat.lt_trans this closer)
termination_by here.remaining

def chain (operator : ChainOperator) (operand : Rule) : Rule := fun start =>
  let visits := [{ production := operator.production, position := start.position }]
  match operand start with
  | .failed error inside => .failed error (inside ++ visits)
  | .read subtree inside next closer =>
      operandsFrom operator operand [subtree] (inside ++ visits) next closer

/-! ### Groups and whole texts -/

def union (alphabet : Alphabet) (group : Position → Rule) : Rule :=
  chain alternation (chain concatenation (repeated (primary alphabet group)))

def closeGroup (opened : Position) {start : Cursor} : Reading start → Reading start
  | .failed error visits => .failed error visits
  | .read subtree visits here closer =>
      match eaten : here.eat ')' with
      | none => .failed (.unmatchedParen opened here.position here.peek) visits
      | some next =>
          .read subtree visits next (Nat.lt_trans (Cursor.remaining_of_eat eaten) closer)

def group (alphabet : Alphabet) : Nat → Position → Rule
  | 0, opened => fun _ => .failed (.nestingTooDeep opened depthLimit) []
  | room + 1, opened => fun start =>
      closeGroup opened (union alphabet (group alphabet room) start)

structure Parsing where
  outcome : Except SyntaxError Subtree
  visits : List Visit

/-- The text must end where its union ends. -/
def Parsing.ofReading {start : Cursor} : Reading start → Parsing
  | .failed error visits => { outcome := .error error, visits := visits.reverse }
  | .read subtree visits next _ =>
      { outcome :=
          match next.peek with
          | none => .ok subtree
          | some character =>
              if character = ')' then
                .error (.unmatchedCloseParen next.position)
              else
                .error (.unexpectedChar next.position character)
        visits := visits.reverse }

def parsing (alphabet : Alphabet) (text : List Char) : Parsing :=
  Parsing.ofReading (union alphabet (group alphabet depthLimit) (Cursor.ofList text))

def parse (alphabet : Alphabet) (text : String) : Except SyntaxError Expr :=
  (parsing alphabet text.toList).outcome.map Subtree.expr

end RegularWords.Grammar
