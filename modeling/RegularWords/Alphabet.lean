import RegularWords.Distinct
import RegularWords.InputError

/-!
Alphabets: one or more distinct symbols in order of priority.

The order is the one in which the symbols were typed, and the first occurrence of a symbol counts.
A symbol's rank is its place in that order, so an alphabet is determined by its ranks.
-/

namespace RegularWords

abbrev Word := List Char

/-- Symbols are hashed by code point. -/
instance symbolHashable : Hashable Char where
  hash symbol := hash symbol.toNat

structure Alphabet where
  symbols : List Char
  nonempty : symbols ≠ []
  distinct : symbols.Nodup
  deriving DecidableEq

namespace Alphabet

def ofList (typed : List Char) : Except InputError Alphabet :=
  if someTyped : typed = [] then
    .error .emptyAlphabet
  else
    .ok
      { symbols := Distinct.firsts typed
        nonempty := fun noneKept => someTyped (Distinct.firsts_eq_nil_iff.mp noneKept)
        distinct := Distinct.nodup_firsts typed }

def ofText (text : String) : Except InputError Alphabet :=
  ofList text.toList

def size (alphabet : Alphabet) : Nat :=
  alphabet.symbols.length

def isEmpty (alphabet : Alphabet) : Bool :=
  alphabet.symbols.isEmpty

def contains (alphabet : Alphabet) (symbol : Char) : Bool :=
  alphabet.symbols.contains symbol

def rank? (alphabet : Alphabet) (symbol : Char) : Option Nat :=
  alphabet.symbols.idxOf? symbol

def operators : List Char :=
  ['+', '*', '(', ')', '@']

/-- The symbols that are operators as well, in order of priority.  They are literals only where an
expression expects a factor. -/
def reserved (alphabet : Alphabet) : List Char :=
  alphabet.symbols.filter fun symbol => operators.contains symbol

def operatorNotice? (alphabet : Alphabet) : Option String :=
  match alphabet.reserved with
  | [] => none
  | symbol :: symbols =>
      some ("warning: alphabet contains operator symbols " ++
        Text.quotedText (String.ofList (symbol :: symbols)))

/-! ### The views agree -/

theorem isEmpty_eq_false (alphabet : Alphabet) : alphabet.isEmpty = false := by
  simp [isEmpty, alphabet.nonempty]

theorem contains_iff {alphabet : Alphabet} {symbol : Char} :
    alphabet.contains symbol = true ↔ symbol ∈ alphabet.symbols := by
  simp [contains]

theorem exists_rank?_iff {alphabet : Alphabet} {symbol : Char} :
    (∃ rank, alphabet.rank? symbol = some rank) ↔ symbol ∈ alphabet.symbols := by
  rw [← Option.isSome_iff_exists, rank?, List.isSome_idxOf?]

theorem rank?_eq_none_iff {alphabet : Alphabet} {character : Char} :
    alphabet.rank? character = none ↔ character ∉ alphabet.symbols := by
  rw [rank?, List.idxOf?_eq_none_iff]

theorem rank?_eq_some_iff {alphabet : Alphabet} {symbol : Char} {rank : Nat} :
    alphabet.rank? symbol = some rank ↔ alphabet.symbols[rank]? = some symbol := by
  rw [rank?, List.idxOf?_eq_some_iff, List.getElem?_eq_some_iff]
  constructor
  · rintro ⟨inside, atRank, _⟩
    exact ⟨inside, atRank⟩
  · rintro ⟨inside, atRank⟩
    refine ⟨inside, atRank, fun earlier before same => ?_⟩
    exact Nat.ne_of_lt before ((List.getElem_inj alphabet.distinct).mp (same.trans atRank.symm))

theorem eq_of_symbols_eq {left right : Alphabet} (same : left.symbols = right.symbols) :
    left = right := by
  cases left
  cases right
  cases same
  rfl

/-- The ranks determine the alphabet. -/
theorem eq_of_rank?_eq {left right : Alphabet} (same : left.rank? = right.rank?) :
    left = right := by
  apply eq_of_symbols_eq
  apply List.ext_getElem?
  intro rank
  apply Option.ext
  intro symbol
  rw [← rank?_eq_some_iff, ← rank?_eq_some_iff, same]

/-- Symbols of lower priority change no rank. -/
theorem rank?_eq_of_prefix {alphabet larger : Alphabet}
    (begins : alphabet.symbols <+: larger.symbols) {symbol : Char}
    (isSymbol : symbol ∈ alphabet.symbols) : larger.rank? symbol = alphabet.rank? symbol := by
  obtain ⟨rank, ranked⟩ := exists_rank?_iff.mpr isSymbol
  obtain ⟨inside, atRank⟩ := List.getElem?_eq_some_iff.mp (rank?_eq_some_iff.mp ranked)
  rw [ranked, rank?_eq_some_iff, ← atRank]
  exact List.prefix_iff_getElem?.mp begins rank inside

theorem ofList_eq_error_iff {typed : List Char} {error : InputError} :
    ofList typed = .error error ↔ typed = [] ∧ error = .emptyAlphabet := by
  unfold ofList
  split <;> simp_all [eq_comm]

theorem exists_ofList {typed : List Char} (someTyped : typed ≠ []) :
    ∃ alphabet, ofList typed = .ok alphabet := by
  cases accepted : ofList typed with
  | ok alphabet => exact ⟨alphabet, rfl⟩
  | error error => exact absurd (ofList_eq_error_iff.mp accepted).1 someTyped

theorem symbols_of_ofList {typed : List Char} {alphabet : Alphabet}
    (accepted : ofList typed = .ok alphabet) :
    alphabet.symbols = Distinct.firsts typed := by
  unfold ofList at accepted
  split at accepted
  · cases accepted
  · cases accepted
    rfl

/-! ### Reserved symbols -/

/-- A list of the symbols that mean something else in expressions, in order of priority. -/
structure Reserves (alphabet : Alphabet) (listed : List Char) : Prop where
  mem_iff : ∀ symbol,
    symbol ∈ listed ↔ symbol ∈ alphabet.symbols ∧ symbol ∈ ['+', '*', '(', ')', '@']
  inOrder : listed.Sublist alphabet.symbols

theorem reserves_reserved (alphabet : Alphabet) : alphabet.Reserves alphabet.reserved where
  mem_iff symbol := by rw [reserved, List.mem_filter, List.contains_iff_mem, operators]
  inOrder := List.filter_sublist

theorem eq_filter_of_sublist {items kept : List Char} (sublist : kept.Sublist items)
    (distinct : items.Nodup) : kept = items.filter fun item => item ∈ kept := by
  induction sublist with
  | slnil => rfl
  | @cons kept items first sublist inductionHypothesis =>
      obtain ⟨firstNew, distinct⟩ := List.nodup_cons.mp distinct
      have dropped : first ∉ kept := fun isKept => firstNew (sublist.subset isKept)
      rw [List.filter_cons_of_neg (by simpa using dropped)]
      exact inductionHypothesis distinct
  | @cons_cons kept items first sublist inductionHypothesis =>
      obtain ⟨firstNew, distinct⟩ := List.nodup_cons.mp distinct
      rw [List.filter_cons_of_pos (by simp)]
      congr 1
      refine (inductionHypothesis distinct).trans (List.filter_congr fun item isItem => ?_)
      have other : item ≠ first := fun same => firstNew (same ▸ isItem)
      simp [other]

theorem Reserves.unique {alphabet : Alphabet} {listed others : List Char}
    (reserves : alphabet.Reserves listed) (reservesOthers : alphabet.Reserves others) :
    listed = others := by
  calc
    listed = alphabet.symbols.filter fun symbol => symbol ∈ listed :=
      eq_filter_of_sublist reserves.inOrder alphabet.distinct
    _ = alphabet.symbols.filter fun symbol => symbol ∈ others :=
      List.filter_congr fun symbol _ => by
        rw [decide_eq_decide, reserves.mem_iff, reservesOthers.mem_iff]
    _ = others := (eq_filter_of_sublist reservesOthers.inOrder alphabet.distinct).symm

/-- There is a notice if there are reserved symbols, and it lists them. -/
theorem operatorNotice?_cases (alphabet : Alphabet) :
    (alphabet.Reserves [] ∧ alphabet.operatorNotice? = none) ∨
      ∃ listed, alphabet.Reserves listed ∧ listed ≠ [] ∧ alphabet.operatorNotice? =
        some ("warning: alphabet contains operator symbols " ++
          Text.quotedText (String.ofList listed)) := by
  have reserves := alphabet.reserves_reserved
  unfold operatorNotice?
  cases listing : alphabet.reserved with
  | nil => exact .inl ⟨listing ▸ reserves, rfl⟩
  | cons symbol symbols =>
      exact .inr ⟨_, listing ▸ reserves, List.cons_ne_nil symbol symbols, rfl⟩

end Alphabet

end RegularWords
