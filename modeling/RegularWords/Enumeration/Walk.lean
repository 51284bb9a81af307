import RegularWords.Alphabet
import RegularWords.Expr

/-!
Walks through the words of an expression, one small step at a time.

A walk is what an enumeration has to remember between its steps.  The order is left before right and
fewer repetitions before more:

* a literal and the empty word have one word;
* a concatenation turns its factors like the wheels of an odometer, the last one fastest, and gives
  a factor a fresh walk for every word of the factors before it;
* a union walks through one alternative after the other, and keeps the walk of the last one when
  that is exhausted;
* a repetition gives the empty word, then level after level: each word of a level is extended by
  every word of a fresh walk through the inside.

A step takes bounded work.  It may give a word, find that there is none left, or merely move on.
-/

namespace RegularWords

/-- A turning factor of a concatenation.  The words of the factors before it fill the buffer up to
the mark. -/
structure Wheel (σ : Type) where
  factor : Expr
  mark : Nat
  cursor : σ

/-- The levels of a repetition: the words of the present level, those of the next level found so
far, and how many of the present words have been extended. -/
structure Levels where
  number : Nat
  frontier : Array Word
  found : Array Word
  index : Nat

structure Growth (σ : Type) where
  stem : Word
  cursor : σ

inductive Walk where
  | single (pending : Option Word)
  /-- The turning wheels, latest first, and the factors that wait for a word of theirs. -/
  | odometer (wheels : List (Wheel Walk)) (waiting : List Expr) (buffer : Array Char)
  | choice (current : Option Walk) (pending : List Expr)
  /-- A repetition that has not given the empty word yet. -/
  | unrepeated (inner : Expr)
  | repetition (inner : Expr) (levels : Levels) (growth : Option (Growth Walk))

structure LevelStart where
  inner : Expr
  number : Nat
  size : Nat
  deriving DecidableEq

inductive Event where
  | word (word : Word)
  | exhausted
  | working
  | levelStarted (start : LevelStart)

def Levels.first : Levels :=
  { number := 0, frontier := #[[]], found := #[], index := 0 }

def Levels.record (levels : Levels) (word : Word) : Levels :=
  { levels with found := levels.found.push word }

def Levels.turn (levels : Levels) : Levels :=
  { levels with index := levels.index + 1 }

def Levels.advance (levels : Levels) : Levels :=
  { number := levels.number + 1, frontier := levels.found, found := #[], index := 0 }

namespace Walk

/-- A walk before its first step.  Only the first factor of a concatenation turns yet. -/
def start : Expr → Walk
  | .literal symbol => .single (some [symbol])
  | .empty => .single (some [])
  | .concat [] => .single (some [])
  | .concat (factor :: factors) =>
      .odometer [{ factor := factor, mark := 0, cursor := start factor }] factors #[]
  | .union alternatives => .choice none alternatives
  | .star inner => .unrepeated inner

/-- One step.  A composite walk steps the walk inside it, and moves on when that gives a word or is
exhausted. -/
def step : Walk → Event × Walk
  | .single (some word) => (.word word, .single none)
  | .single none => (.exhausted, .single none)
  | .odometer [] waiting buffer => (.exhausted, .odometer [] waiting buffer)
  | .odometer ({ factor, mark, cursor } :: wheels) waiting buffer =>
      match step cursor with
      | (.word part, cursor) =>
          let buffer := buffer.shrink mark ++ part
          let turned := { factor := factor, mark := mark, cursor := cursor } :: wheels
          match waiting with
          | [] => (.word buffer.toList, .odometer turned [] buffer)
          | next :: waiting =>
              let wheel := { factor := next, mark := buffer.size, cursor := start next }
              (.working, .odometer (wheel :: turned) waiting buffer)
      | (.exhausted, _) => (.working, .odometer wheels (factor :: waiting) buffer)
      | (.working, cursor) =>
          (.working, .odometer ({ factor, mark, cursor } :: wheels) waiting buffer)
      | (.levelStarted level, cursor) =>
          (.levelStarted level, .odometer ({ factor, mark, cursor } :: wheels) waiting buffer)
  | .choice (some current) pending =>
      match step current with
      | (.word word, current) => (.word word, .choice (some current) pending)
      | (.exhausted, current) =>
          match pending with
          | [] => (.exhausted, .choice (some current) [])
          | next :: pending => (.working, .choice (some (start next)) pending)
      | (.working, current) => (.working, .choice (some current) pending)
      | (.levelStarted level, current) =>
          (.levelStarted level, .choice (some current) pending)
  | .choice none [] => (.exhausted, .choice none [])
  | .choice none (next :: pending) => (.working, .choice (some (start next)) pending)
  | .unrepeated inner => (.word [], .repetition inner .first none)
  | .repetition inner levels (some { stem, cursor }) =>
      match step cursor with
      | (.word suffix, cursor) =>
          let word := stem ++ suffix
          (.word word, .repetition inner (levels.record word) (some { stem, cursor }))
      | (.exhausted, _) => (.working, .repetition inner levels.turn none)
      | (.working, cursor) => (.working, .repetition inner levels (some { stem, cursor }))
      | (.levelStarted level, cursor) =>
          (.levelStarted level, .repetition inner levels (some { stem, cursor }))
  | .repetition inner levels none =>
      match levels.frontier[levels.index]? with
      | some stem =>
          (.working, .repetition inner levels (some { stem := stem, cursor := start inner }))
      | none =>
          if levels.found.isEmpty then
            (.exhausted, .repetition inner levels none)
          else
            let advanced := levels.advance
            (.levelStarted ⟨inner, advanced.number, advanced.frontier.size⟩,
              .repetition inner advanced none)

end Walk

end RegularWords
