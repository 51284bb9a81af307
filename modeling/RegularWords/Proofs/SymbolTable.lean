import Mathlib.Data.List.Basic
import Mathlib.Data.List.Induction
import RegularWords.Journal

/-!
Alphabets as they are typed.

A table takes typed characters one after the other.  It holds them in the order in which they came
and where each of them stands, so that no symbol need be searched for.  A character that is there
already keeps its place and is noted.  What comes of this is the alphabet and its journal: the
symbols are the first occurrences, in order, and the journal holds the later ones.  Characters typed
behind others change no rank of these, and the ranks determine the alphabet.
-/

namespace RegularWords

/-! ### First and later occurrences -/

namespace Distinct

variable {α : Type}

def RepeatsAt (xs : List α) (place : Nat) : Prop :=
  ∃ x ∈ xs.take place, xs[place]? = some x

theorem RepeatsAt.inside {xs : List α} {place : Nat} (again : RepeatsAt xs place) :
    place < xs.length := by
  obtain ⟨x, _, atPlace⟩ := again
  exact (List.getElem?_eq_some_iff.mp atPlace).1

theorem repeatsAt_concat_iff {xs : List α} {x : α} {place : Nat} :
    RepeatsAt (xs ++ [x]) place ↔ RepeatsAt xs place ∨ (place = xs.length ∧ x ∈ xs) := by
  rcases Nat.lt_trichotomy place xs.length with inside | rfl | outside
  · have sameBefore : (xs ++ [x]).take place = xs.take place :=
      List.take_append_of_le_length (Nat.le_of_lt inside)
    have sameThere : (xs ++ [x])[place]? = xs[place]? := List.getElem?_append_left inside
    rw [RepeatsAt, sameBefore, sameThere, or_iff_left fun both => Nat.ne_of_lt inside both.1]
    rfl
  · have notInside : ¬ RepeatsAt xs xs.length := fun again => Nat.lt_irrefl _ again.inside
    rw [RepeatsAt, List.take_left, List.getElem?_concat_length, or_iff_right notInside]
    simp
  · have longer : (xs ++ [x]).length ≤ place := by
      rw [List.length_append, List.length_singleton]
      exact outside
    constructor
    · intro again
      exact absurd again.inside (Nat.not_lt.mpr longer)
    · rintro (again | ⟨atEnd, _⟩)
      · exact absurd again.inside (Nat.lt_asymm outside)
      · exact absurd atEnd (Nat.ne_of_gt outside)

variable [BEq α] [Hashable α] [LawfulBEq α]

/-- What is kept stands in the order of the first occurrences. -/
theorem pairwise_firsts (xs : List α) :
    (firsts xs).Pairwise fun before behind => xs.idxOf before < xs.idxOf behind := by
  induction xs using List.reverseRecOn with
  | nil => exact List.Pairwise.nil
  | append_singleton xs x inductionHypothesis =>
      have sameOrder : (firsts xs).Pairwise fun before behind =>
          (xs ++ [x]).idxOf before < (xs ++ [x]).idxOf behind := by
        refine inductionHypothesis.imp_of_mem ?_
        intro before behind isKept isKeptToo ordered
        rwa [List.idxOf_append_of_mem (mem_firsts.mp isKept),
          List.idxOf_append_of_mem (mem_firsts.mp isKeptToo)]
      by_cases known : x ∈ xs
      · rwa [firsts_concat_of_mem known]
      · rw [firsts_concat_of_not_mem known, List.pairwise_append]
        refine ⟨sameOrder, List.pairwise_singleton _ _, ?_⟩
        intro before isKept behind isLast
        obtain rfl := List.mem_singleton.mp isLast
        rw [List.idxOf_append_of_mem (mem_firsts.mp isKept), List.idxOf_append_of_notMem known]
        exact Nat.lt_add_right _ (List.idxOf_lt_length_of_mem (mem_firsts.mp isKept))

/-- What is dropped are the elements at the places of later occurrences, in order. -/
theorem exists_places_repeats (xs : List α) :
    ∃ places : List Nat, places.Pairwise (· < ·) ∧
      (∀ place, place ∈ places ↔ RepeatsAt xs place) ∧
      (repeats xs).map some = places.map fun place => xs[place]? := by
  induction xs using List.reverseRecOn with
  | nil =>
      refine ⟨[], List.Pairwise.nil, fun place => ?_, rfl⟩
      simp [RepeatsAt]
  | append_singleton xs x inductionHypothesis =>
      obtain ⟨places, ascending, placed, listed⟩ := inductionHypothesis
      have inside : ∀ place ∈ places, place < xs.length := fun place isPlace =>
        ((placed place).mp isPlace).inside
      have sameListed : (repeats xs).map some = places.map fun place => (xs ++ [x])[place]? := by
        rw [listed]
        exact List.map_congr_left fun place isPlace =>
          (List.getElem?_append_left (inside place isPlace)).symm
      by_cases known : x ∈ xs
      · refine ⟨places ++ [xs.length], ?_, ?_, ?_⟩
        · rw [List.pairwise_append]
          refine ⟨ascending, List.pairwise_singleton _ _, ?_⟩
          intro place isPlace last isLast
          rw [List.mem_singleton.mp isLast]
          exact inside place isPlace
        · intro place
          rw [repeatsAt_concat_iff, List.mem_append, placed, List.mem_singleton,
            and_iff_left known]
        · rw [repeats_concat_of_mem known, List.map_append, List.map_append, sameListed,
            List.map_singleton, List.map_singleton, List.getElem?_concat_length]
      · refine ⟨places, ascending, ?_, ?_⟩
        · intro place
          rw [repeatsAt_concat_iff, placed, or_iff_left fun both => known both.2]
        · rw [repeats_concat_of_not_mem known, sameListed]

theorem length_firsts_add_length_repeats (xs : List α) :
    (firsts xs).length + (repeats xs).length = xs.length := by
  induction xs using List.reverseRecOn with
  | nil => rfl
  | append_singleton xs x inductionHypothesis =>
      by_cases known : x ∈ xs
      · rw [firsts_concat_of_mem known, repeats_concat_of_mem known, List.length_append,
          List.length_append, ← Nat.add_assoc, inductionHypothesis]
      · rw [firsts_concat_of_not_mem known, repeats_concat_of_not_mem known, List.length_append,
          List.length_append, Nat.add_right_comm, inductionHypothesis]

end Distinct

/-! ### Tables -/

structure Views where
  symbols : List Char
  rank? : Char → Option Nat
  contains : Char → Bool

/-- A set that is documented to number its elements in the order of insertion: the elements, and a
hash table of where each of them stands. -/
structure SymbolTable where
  symbols : Array Char
  places : Std.HashMap Char Nat

namespace SymbolTable

def empty : SymbolTable where
  symbols := #[]
  places := ∅

/-- The table with a character, and whether the character is new to it.  One that is there already
keeps its place. -/
def insert (table : SymbolTable) (character : Char) : SymbolTable × Bool :=
  if table.places.contains character then
    (table, false)
  else
    ({ symbols := table.symbols.push character
       places := table.places.insert character table.symbols.size }, true)

def fill (table : SymbolTable) (notes : Journal) : List Char → SymbolTable × Journal
  | [] => (table, notes)
  | character :: typed =>
      match table.insert character with
      | (larger, true) => fill larger notes typed
      | (same, false) => fill same (notes ++ [.duplicateSymbol character]) typed

def ofTyped (typed : List Char) : Except InputError SymbolTable × Journal :=
  let (table, notes) := fill empty [] typed
  if table.symbols.isEmpty then (.error .emptyAlphabet, notes) else (.ok table, notes)

def views (table : SymbolTable) : Views where
  symbols := table.symbols.toList
  rank? := fun character => table.places[character]?
  contains := fun character => table.places.contains character

structure Holds (typed : List Char) (table : SymbolTable) (notes : Journal) : Prop where
  symbols : table.symbols.toList = Distinct.firsts typed
  places : ∀ (character : Char) (place : Nat),
    table.places[character]? = some place ↔ table.symbols[place]? = some character
  notes : notes = Journal.ofAlphabet typed

variable {typed : List Char} {table : SymbolTable} {notes : Journal} {character : Char}

theorem holds_empty : Holds [] empty [] where
  symbols := rfl
  places := by simp [empty]
  notes := rfl

theorem Holds.contains_iff (holds : Holds typed table notes) :
    table.places.contains character = true ↔ character ∈ typed := by
  rw [Std.HashMap.contains_eq_isSome_getElem?, Option.isSome_iff_exists,
    ← Distinct.mem_firsts, ← holds.symbols, List.mem_iff_getElem?]
  simp only [Array.getElem?_toList, holds.places]

theorem Holds.insert_known (holds : Holds typed table notes) (known : character ∈ typed) :
    table.insert character = (table, false) ∧
      Holds (typed ++ [character]) table (notes ++ [.duplicateSymbol character]) := by
  refine ⟨if_pos (holds.contains_iff.mpr known), ?_, holds.places, ?_⟩
  · rw [Distinct.firsts_concat_of_mem known]
    exact holds.symbols
  · rw [holds.notes, Journal.ofAlphabet, Journal.ofAlphabet, Distinct.repeats_concat_of_mem known,
      List.map_append, List.map_singleton]

theorem Holds.insert_new (holds : Holds typed table notes) (new : character ∉ typed) :
    ∃ larger, table.insert character = (larger, true) ∧
      Holds (typed ++ [character]) larger notes := by
  have unplaced : ¬ table.places.contains character = true := mt holds.contains_iff.mp new
  have noPlace : table.places[character]? = none := Std.HashMap.getElem?_eq_none unplaced
  refine ⟨_, if_neg unplaced, ?_, ?_, ?_⟩
  · rw [Distinct.firsts_concat_of_not_mem new, ← holds.symbols]
    exact Array.toList_push
  · -- The new symbol stands at the end, where nothing stood before; the others stay.
    intro symbol place
    rw [Std.HashMap.getElem?_insert, Array.getElem?_push]
    by_cases same : character = symbol
    · subst same
      rw [if_pos (beq_self_eq_true _), Option.some.injEq]
      by_cases atEnd : place = table.symbols.size
      · rw [if_pos atEnd]
        exact iff_of_true atEnd.symm rfl
      · rw [if_neg atEnd, ← holds.places, noPlace]
        exact iff_of_false (Ne.symm atEnd) (Option.some_ne_none place).symm
    · rw [if_neg (mt eq_of_beq same), holds.places]
      by_cases atEnd : place = table.symbols.size
      · rw [if_pos atEnd, Option.some.injEq, atEnd, Array.getElem?_size]
        exact iff_of_false (Option.some_ne_none symbol).symm same
      · rw [if_neg atEnd]
  · rw [holds.notes, Journal.ofAlphabet, Journal.ofAlphabet,
      Distinct.repeats_concat_of_not_mem new]

theorem Holds.fill {before : List Char} (holds : Holds before table notes) (typed : List Char) :
    Holds (before ++ typed) (table.fill notes typed).1 (table.fill notes typed).2 := by
  induction typed generalizing before table notes with
  | nil =>
      rw [List.append_nil]
      exact holds
  | cons character typed inductionHypothesis =>
      rw [List.append_cons]
      by_cases known : character ∈ before
      · obtain ⟨inserted, later⟩ := holds.insert_known known
        rw [SymbolTable.fill, inserted]
        exact inductionHypothesis later
      · obtain ⟨larger, inserted, later⟩ := holds.insert_new known
        rw [SymbolTable.fill, inserted]
        exact inductionHypothesis later

end SymbolTable

namespace Alphabet

def views (alphabet : Alphabet) : Views where
  symbols := alphabet.symbols
  rank? := alphabet.rank?
  contains := alphabet.contains

/-- What an alphabet and a journal hold of typed characters.  The symbols are the characters, in the
order in which they first occur; the journal has an entry for each place where one occurs again. -/
structure Represents (typed : List Char) (alphabet : Alphabet) (journal : Journal) : Prop where
  occur : ∀ symbol, symbol ∈ alphabet.symbols ↔ symbol ∈ typed
  once : alphabet.symbols.Nodup
  inOrder : alphabet.symbols.Pairwise fun before behind =>
    typed.idxOf before < typed.idxOf behind
  ranked : ∀ symbol rank,
    alphabet.rank? symbol = some rank ↔ alphabet.symbols[rank]? = some symbol
  contained : ∀ symbol, alphabet.contains symbol = true ↔ (alphabet.rank? symbol).isSome = true
  warned : journal.upTo .warn = journal
  noted : ∃ places : List Nat, places.Pairwise (· < ·) ∧
    (∀ place, place ∈ places ↔ Distinct.RepeatsAt typed place) ∧
    journal.map some = places.map fun place => typed[place]?.map .duplicateSymbol
  accounted : typed.length = alphabet.size + journal.length

variable {typed : List Char} {alphabet : Alphabet}

theorem views_of_holds {table : SymbolTable} {notes : Journal} (holds : table.Holds typed notes)
    (accepted : ofList typed = .ok alphabet) : table.views = alphabet.views := by
  have sameSymbols : table.symbols.toList = alphabet.symbols :=
    holds.symbols.trans (symbols_of_ofList accepted).symm
  have sameRanks : (fun character => table.places[character]?) = alphabet.rank? := by
    funext character
    apply Option.ext
    intro rank
    rw [holds.places, rank?_eq_some_iff, ← sameSymbols, Array.getElem?_toList]
  have sameContents : (fun character => table.places.contains character) = alphabet.contains := by
    funext character
    rw [Bool.eq_iff_iff, holds.contains_iff, contains_iff, symbols_of_ofList accepted,
      Distinct.mem_firsts]
  rw [SymbolTable.views, views, sameSymbols, sameRanks, sameContents]

/-- A table that is filled shows what the alphabet shows, and notes its journal. -/
theorem ofTyped_views (typed : List Char) :
    (SymbolTable.ofTyped typed).1.map SymbolTable.views = (ofList typed).map views ∧
      (SymbolTable.ofTyped typed).2 = Journal.ofAlphabet typed := by
  have holds := SymbolTable.holds_empty.fill typed
  rw [List.nil_append] at holds
  by_cases someTyped : typed = []
  · subst someTyped
    exact ⟨rfl, rfl⟩
  · obtain ⟨alphabet, accepted⟩ := exists_ofList someTyped
    have filled : ¬ (SymbolTable.empty.fill [] typed).1.symbols.isEmpty = true := by
      rw [← Array.isEmpty_toList, holds.symbols, List.isEmpty_iff, Distinct.firsts_eq_nil_iff]
      exact someTyped
    have isOk : SymbolTable.ofTyped typed =
        (.ok (SymbolTable.empty.fill [] typed).1, (SymbolTable.empty.fill [] typed).2) :=
      if_neg filled
    rw [isOk, accepted]
    exact ⟨congrArg Except.ok (views_of_holds holds accepted), holds.notes⟩

theorem represents_of_ofList (accepted : ofList typed = .ok alphabet) :
    alphabet.Represents typed (Journal.ofAlphabet typed) := by
  have symbols := symbols_of_ofList accepted
  refine ⟨?_, ?_, ?_, fun _ _ => rank?_eq_some_iff, ?_, ?_, ?_, ?_⟩
  · intro symbol
    rw [symbols, Distinct.mem_firsts]
  · rw [symbols]
    exact Distinct.nodup_firsts typed
  · rw [symbols]
    exact Distinct.pairwise_firsts typed
  · intro symbol
    rw [contains_iff, Option.isSome_iff_exists, exists_rank?_iff]
  · apply List.filter_eq_self.mpr
    intro entry isEntry
    obtain ⟨symbol, _, rfl⟩ := List.mem_map.mp isEntry
    rfl
  · obtain ⟨places, ascending, placed, listed⟩ := Distinct.exists_places_repeats typed
    refine ⟨places, ascending, placed, ?_⟩
    calc
      (Journal.ofAlphabet typed).map some =
          ((Distinct.repeats typed).map some).map (Option.map .duplicateSymbol) := by
        rw [Journal.ofAlphabet, List.map_map, List.map_map]
        rfl
      _ = places.map fun place => typed[place]?.map .duplicateSymbol := by
        rw [listed, List.map_map]
        rfl
  · rw [size, symbols, Journal.ofAlphabet, List.length_map,
      Distinct.length_firsts_add_length_repeats]

/-- Typed characters give an alphabet exactly if there are any.  Its symbols are the characters in
the order in which they first occur, its journal notes every later occurrence, and it shows what a
table shows that is filled with the characters.  Characters behind them leave the ranks as they are.
Alphabets are equal exactly if their symbols stand in the same order, and exactly if all ranks are
the same. -/
theorem ranked_as_typed :
    (∀ typed error, ofList typed = .error error ↔ typed = [] ∧ error = .emptyAlphabet) ∧
      (∀ typed, typed ≠ [] → ∃ alphabet, ofList typed = .ok alphabet ∧
        alphabet.Represents typed (Journal.ofAlphabet typed) ∧
        ∀ more, ∃ larger, ofList (typed ++ more) = .ok larger ∧
          ∀ symbol ∈ typed, larger.rank? symbol = alphabet.rank? symbol) ∧
      (∀ typed, (SymbolTable.ofTyped typed).1.map SymbolTable.views = (ofList typed).map views ∧
        (SymbolTable.ofTyped typed).2 = Journal.ofAlphabet typed) ∧
      ∀ left right : Alphabet, (left = right ↔ left.symbols = right.symbols) ∧
        (left = right ↔ left.rank? = right.rank?) := by
  refine ⟨fun _ _ => ofList_eq_error_iff, ?_, ofTyped_views, ?_⟩
  · intro typed someTyped
    obtain ⟨alphabet, accepted⟩ := exists_ofList someTyped
    refine ⟨alphabet, accepted, represents_of_ofList accepted, ?_⟩
    intro more
    have someTypedThere : typed ++ more ≠ [] := List.append_ne_nil_of_left_ne_nil someTyped more
    obtain ⟨larger, acceptedThere⟩ := exists_ofList someTypedThere
    refine ⟨larger, acceptedThere, ?_⟩
    intro symbol isTyped
    apply rank?_eq_of_prefix
    · rw [symbols_of_ofList accepted, symbols_of_ofList acceptedThere]
      exact Distinct.firsts_prefix typed more
    · rw [symbols_of_ofList accepted, Distinct.mem_firsts]
      exact isTyped
  · intro left right
    exact ⟨⟨congrArg symbols, eq_of_symbols_eq⟩, ⟨congrArg rank?, eq_of_rank?_eq⟩⟩

/-- In `babcab` three characters are typed again, and `da` behind it leaves `a` at its rank. -/
theorem ranked_as_typed_repeated :
    let typed := ['b', 'a', 'b', 'c', 'a', 'b']
    typed ≠ [] ∧ ∃ alphabet, ofList typed = .ok alphabet ∧ alphabet.symbols = ['b', 'a', 'c'] ∧
      alphabet.Represents typed (Journal.ofAlphabet typed) ∧
      Journal.ofAlphabet typed =
        [.duplicateSymbol 'b', .duplicateSymbol 'a', .duplicateSymbol 'b'] ∧
      'a' ∈ typed ∧ ∃ larger, ofList (typed ++ ['d', 'a']) = .ok larger ∧
        larger.rank? 'a' = some 1 := by
  intro typed
  have someTyped : typed ≠ [] := List.cons_ne_nil _ _
  have isTyped : 'a' ∈ typed := by decide
  obtain ⟨alphabet, accepted, represents, stays⟩ := ranked_as_typed.2.1 typed someTyped
  obtain ⟨larger, acceptedThere, sameRanks⟩ := stays ['d', 'a']
  have symbols : alphabet.symbols = ['b', 'a', 'c'] := by
    rw [symbols_of_ofList accepted, Distinct.firsts_eq_eraseDups]
    decide
  have ranked : alphabet.rank? 'a' = some 1 := by
    rw [represents.ranked, symbols]
    rfl
  have noted : Journal.ofAlphabet typed =
      [.duplicateSymbol 'b', .duplicateSymbol 'a', .duplicateSymbol 'b'] := by cbv
  exact ⟨someTyped, alphabet, accepted, symbols, represents, noted, isTyped, larger, acceptedThere,
    (sameRanks 'a' isTyped).trans ranked⟩

end Alphabet

end RegularWords
