/-!
Reading a text character by character, with one character of lookahead.
-/

namespace RegularWords.Grammar

/-- A place between the characters of a text: how many stand before it. -/
structure Position where
  offset : Nat
  deriving DecidableEq

namespace Position

/-- Columns are counted from one. -/
def column (position : Position) : Nat :=
  position.offset + 1

def next (position : Position) : Position :=
  { offset := position.offset + 1 }

def print (position : Position) : String :=
  "column " ++ toString position.column

end Position

structure Cursor where
  rest : List Char
  position : Position
  deriving DecidableEq

namespace Cursor

def ofList (text : List Char) : Cursor :=
  { rest := text, position := { offset := 0 } }

def ofText (text : String) : Cursor :=
  ofList text.toList

def remaining (cursor : Cursor) : Nat :=
  cursor.rest.length

def peek (cursor : Cursor) : Option Char :=
  cursor.rest.head?

def advance : Cursor → Option (Char × Cursor)
  | { rest := [], .. } => none
  | { rest := character :: rest, position } =>
      some (character, { rest := rest, position := position.next })

def eat (expected : Char) (cursor : Cursor) : Option Cursor :=
  match cursor.advance with
  | none => none
  | some (character, next) => if character = expected then some next else none

theorem remaining_of_advance {cursor next : Cursor} {character : Char}
    (advanced : cursor.advance = some (character, next)) :
    next.remaining < cursor.remaining := by
  rcases cursor with ⟨_ | ⟨first, rest⟩, position⟩
  · cases advanced
  · cases advanced
    simp [remaining]

theorem advance_of_eat {cursor next : Cursor} {expected : Char}
    (eaten : cursor.eat expected = some next) : cursor.advance = some (expected, next) := by
  unfold eat at eaten
  split at eaten
  · cases eaten
  · rename_i advanced
    split at eaten
    · rename_i isExpected
      cases eaten
      rw [← isExpected]
      exact advanced
    · cases eaten

theorem remaining_of_eat {cursor next : Cursor} {expected : Char}
    (eaten : cursor.eat expected = some next) :
    next.remaining < cursor.remaining :=
  remaining_of_advance (advance_of_eat eaten)

end Cursor

end RegularWords.Grammar
