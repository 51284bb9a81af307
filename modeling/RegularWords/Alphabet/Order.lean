import RegularWords.Alphabet

/-!
The dictionary order of words over an alphabet.

The first symbols in which two words differ decide, the symbol of smaller rank going first, and a
proper beginning of a word goes before it.  Characters outside the alphabet come after all symbols,
by code point, so the order is total on all words.
-/

namespace RegularWords.Alphabet

/-- Where a character stands: symbols by rank, then all other characters by code point. -/
def place (alphabet : Alphabet) (character : Char) : Nat :=
  match alphabet.rank? character with
  | some rank => rank
  | none => alphabet.size + character.toNat

def compareWords (alphabet : Alphabet) : Word → Word → Ordering
  | [], [] => .eq
  | [], _ :: _ => .lt
  | _ :: _, [] => .gt
  | a :: as, b :: bs =>
      if a = b then compareWords alphabet as bs else compare (alphabet.place a) (alphabet.place b)

def precedes (alphabet : Alphabet) (left right : Word) : Bool :=
  (alphabet.compareWords left right).isLE

/-- Sorts by the word of each item; items of equal words keep their order. -/
def sortBy {α : Type} (alphabet : Alphabet) (word : α → Word) (items : List α) : List α :=
  items.mergeSort fun left right => alphabet.precedes (word left) (word right)

def sort (alphabet : Alphabet) (words : List Word) : List Word :=
  alphabet.sortBy (fun word => word) words

end RegularWords.Alphabet
