import Mathlib.Data.Seq.Basic
import RegularWords.Alphabet
import RegularWords.Expr

/-!
The words of an expression as a sequence that may be infinite.

`Listing.product` is the order of two nested loops and `Listing.closure` the order by levels.  An
infinite part hides whatever would come after it: appending to it changes nothing.
-/

namespace RegularWords

open Stream' (Seq Seq1)

abbrev Listing := Seq Word

namespace Listing

@[elab_as_elim, cases_eliminator]
def cases {motive : Listing → Sort*} (nil : motive .nil)
    (cons : ∀ word words, motive (Seq.cons word words)) (listing : Listing) : motive listing :=
  Stream'.Seq.recOn listing nil cons

def single (word : Word) : Listing :=
  Seq.cons word .nil

/-- Every word of `left` in turn, extended by every word of `right` in turn. -/
def product (left right : Listing) : Listing :=
  match right.destruct with
  | none => .nil
  | some words => Seq.join (left.map fun stem => Seq1.map (stem ++ ·) words)

/-- The levels from a given one on.  Each level extends the words of the one before it by words of
`inner`, and the levels end with the first that has no words. -/
def levels (inner level : Listing) : Seq (Seq1 Word) :=
  Seq.corec (fun level => level.destruct.map fun words => (words, product level inner)) level

def levelled (inner level : Listing) : Listing :=
  Seq.join (levels inner level)

/-- The words of a repetition: level zero holds the empty word alone. -/
def closure (inner : Listing) : Listing :=
  levelled inner (single [])

/-! ### Products -/

@[simp]
theorem product_nil (left : Listing) : product left .nil = .nil := by
  simp [product]

theorem product_cons_right (left : Listing) (word : Word) (words : Listing) :
    product left (.cons word words) =
      Seq.join (left.map fun stem => Seq1.map (stem ++ ·) (word, words)) := by
  simp only [product, Seq.destruct_cons]

@[simp]
theorem nil_product (right : Listing) : product .nil right = .nil := by
  cases right with
  | nil => rw [product_nil]
  | cons word words => rw [product_cons_right, Seq.map_nil, Seq.join_nil]

theorem cons_product (stem : Word) (stems right : Listing) :
    product (.cons stem stems) right =
      (right.map (stem ++ ·)).append (product stems right) := by
  cases right with
  | nil => simp
  | cons word words =>
      rw [product_cons_right, product_cons_right, Seq.map_cons, Seq1.map_pair, Seq.join_cons,
        Seq.map_cons, Seq.cons_append]

theorem append_product (first second right : Listing) :
    product (first.append second) right =
      (product first right).append (product second right) := by
  cases right with
  | nil => simp
  | cons word words =>
      simp only [product_cons_right]
      rw [Seq.map_append, Seq.join_append]

theorem map_append_map (outer inner : Word) (words : Listing) :
    (words.map (inner ++ ·)).map (outer ++ ·) = words.map (outer ++ inner ++ ·) := by
  rw [← Seq.map_comp]
  congr 1
  funext word
  exact (List.append_assoc outer inner word).symm

@[simp]
theorem map_nil_append (words : Listing) : words.map ([] ++ ·) = words :=
  Seq.map_id words

theorem map_product (stem : Word) (left right : Listing) :
    (product left right).map (stem ++ ·) = product (left.map (stem ++ ·)) right := by
  cases right with
  | nil => simp
  | cons word words =>
      rw [product_cons_right, product_cons_right, Seq1.map_join', ← Seq.map_comp, ← Seq.map_comp]
      congr 2
      funext inner
      change Seq1.map (stem ++ ·) (Seq1.map (inner ++ ·) (word, words)) =
        Seq1.map (stem ++ inner ++ ·) (word, words)
      rw [Seq1.map_pair, Seq1.map_pair, Seq1.map_pair, map_append_map, List.append_assoc]

theorem product_single (stem : Word) (right : Listing) :
    product (single stem) right = right.map (stem ++ ·) := by
  rw [single, cons_product, nil_product, Seq.append_nil]

@[simp]
theorem single_product (right : Listing) : product (single []) right = right := by
  rw [product_single, map_nil_append]

theorem product_cons_cons (stem word : Word) (stems words : Listing) :
    product (.cons stem stems) (.cons word words) =
      .cons (stem ++ word)
        ((words.map (stem ++ ·)).append (product stems (.cons word words))) := by
  rw [cons_product, Seq.map_cons, Seq.cons_append]

theorem product_eq_nil_iff {left right : Listing} :
    product left right = .nil ↔ left = .nil ∨ right = .nil := by
  cases left with
  | nil => simp
  | cons stem stems =>
      cases right with
      | nil => simp
      | cons word words => simp [product_cons_cons]

/-- Two loops over stems agree if they give every stem the same block of words and no block is
empty. -/
theorem eq_of_blocks (first second : Listing → Listing) (block : Word → Listing)
    (nonempty : ∀ stem, block stem ≠ .nil)
    (firstNil : first .nil = .nil) (secondNil : second .nil = .nil)
    (firstCons : ∀ stem stems, first (.cons stem stems) = (block stem).append (first stems))
    (secondCons : ∀ stem stems, second (.cons stem stems) = (block stem).append (second stems))
    (stems : Listing) : first stems = second stems := by
  -- The bisimulation remembers the words that are left of the present block.
  refine Seq.eq_of_bisim'
    (fun left right => ∃ rest stems : Listing,
      left = rest.append (first stems) ∧ right = rest.append (second stems))
    ⟨.nil, stems, (Seq.nil_append _).symm, (Seq.nil_append _).symm⟩ ?_
  rintro _ _ ⟨rest, stems, rfl, rfl⟩
  cases rest with
  | cons word rest =>
      right
      exact ⟨word, _, _, Seq.cons_append _ _ _, Seq.cons_append _ _ _, rest, stems, rfl, rfl⟩
  | nil =>
      cases stems with
      | nil =>
          left
          exact ⟨by rw [Seq.nil_append, firstNil], by rw [Seq.nil_append, secondNil]⟩
      | cons stem stems =>
          right
          rw [firstCons, secondCons, Seq.nil_append, Seq.nil_append]
          have someWord := nonempty stem
          cases blockAt : block stem with
          | nil => exact absurd blockAt someWord
          | cons word rest =>
              refine ⟨word, _, _, Seq.cons_append _ _ _, Seq.cons_append _ _ _, ?_⟩
              exact ⟨rest, stems, rfl, rfl⟩

theorem product_single_nil (left : Listing) : product left (single []) = left := by
  refine eq_of_blocks (fun stems => product stems (single [])) id single ?_ ?_ rfl ?_ ?_ left
  · intro stem
    exact Seq.cons_ne_nil
  · exact nil_product _
  · intro stem stems
    rw [cons_product, single, single, Seq.map_cons, Seq.map_nil, List.append_nil]
  · intro stem stems
    rw [single, Seq.cons_append, Seq.nil_append]
    rfl

theorem map_eq_nil_iff {change : Word → Word} {words : Listing} :
    words.map change = .nil ↔ words = .nil := by
  cases words <;> simp

/-- Three nested loops may be grouped either way. -/
theorem product_assoc (first second third : Listing) :
    product (product first second) third = product first (product second third) := by
  by_cases loopEmpty : product second third = .nil
  · rcases product_eq_nil_iff.mp loopEmpty with rfl | rfl
    · simp
    · simp
  · refine eq_of_blocks
      (fun stems => product (product stems second) third)
      (fun stems => product stems (product second third))
      (fun stem => (product second third).map (stem ++ ·)) ?_ ?_ ?_ ?_ ?_ first
    · intro stem
      exact mt map_eq_nil_iff.mp loopEmpty
    · simp
    · simp
    · intro stem stems
      rw [cons_product, append_product, map_product]
    · intro stem stems
      rw [cons_product]

/-! ### Levels -/

theorem levels_nil (inner : Listing) : levels inner .nil = .nil :=
  Seq.corec_nil _ _ rfl

theorem levels_cons (inner : Listing) (word : Word) (words : Listing) :
    levels inner (.cons word words) =
      .cons (word, words) (levels inner (product (.cons word words) inner)) :=
  Seq.corec_cons (by rw [Seq.destruct_cons]; rfl)

@[simp]
theorem levelled_nil (inner : Listing) : levelled inner .nil = .nil := by
  rw [levelled, levels_nil, Seq.join_nil]

/-- The words of a level come before those of the levels after it. -/
theorem levelled_eq (inner level : Listing) :
    levelled inner level = level.append (levelled inner (product level inner)) := by
  cases level with
  | nil => simp
  | cons word words =>
      rw [levelled, levels_cons, Seq.join_cons, Seq.cons_append]
      rfl

theorem levelled_eq_nil_iff {inner level : Listing} :
    levelled inner level = .nil ↔ level = .nil := by
  cases level with
  | nil => simp
  | cons word words => simp [levelled_eq inner (.cons word words)]

end Listing

/-! ### Expressions -/

namespace Expr

mutual

def listing : Expr → Listing
  | .literal symbol => .single [symbol]
  | .empty => .single []
  | .concat factors => factorListing factors
  | .union alternatives => alternativeListing alternatives
  | .star inner => .closure (listing inner)

def factorListing : List Expr → Listing
  | [] => .single []
  | factor :: factors => .product (listing factor) (factorListing factors)

def alternativeListing : List Expr → Listing
  | [] => .nil
  | alternative :: alternatives =>
      (listing alternative).append (alternativeListing alternatives)

end

mutual

def unionsNonempty : Expr → Bool
  | .literal _ => true
  | .empty => true
  | .concat factors => allUnionsNonempty factors
  | .union alternatives => !alternatives.isEmpty && allUnionsNonempty alternatives
  | .star inner => unionsNonempty inner

def allUnionsNonempty : List Expr → Bool
  | [] => true
  | operand :: operands => unionsNonempty operand && allUnionsNonempty operands

end

theorem allUnionsNonempty_iff {operands : List Expr} :
    allUnionsNonempty operands = true ↔ ∀ operand ∈ operands, operand.unionsNonempty = true := by
  induction operands with
  | nil => simp [allUnionsNonempty]
  | cons operand operands inductionHypothesis =>
      simp [allUnionsNonempty, inductionHypothesis]

mutual

/-- An expression denotes a word unless it has a union without alternatives. -/
theorem listing_ne_nil : ∀ {expr : Expr}, expr.unionsNonempty = true → expr.listing ≠ .nil
  | .literal symbol, _ => by simp [listing, Listing.single]
  | .empty, _ => by simp [listing, Listing.single]
  | .concat factors, nonempty => by
      rw [unionsNonempty] at nonempty
      rw [listing]
      exact factorListing_ne_nil nonempty
  | .union [], nonempty => by simp [unionsNonempty] at nonempty
  | .union (alternative :: alternatives), nonempty => by
      simp only [unionsNonempty, allUnionsNonempty, Bool.and_eq_true] at nonempty
      rw [listing, alternativeListing]
      have someWord := listing_ne_nil nonempty.2.1
      cases listed : alternative.listing with
      | nil => exact absurd listed someWord
      | cons word words => simp
  | .star inner, _ => by
      rw [listing, Listing.closure, ne_eq, Listing.levelled_eq_nil_iff]
      simp [Listing.single]

theorem factorListing_ne_nil :
    ∀ {factors : List Expr}, allUnionsNonempty factors = true → factorListing factors ≠ .nil
  | [], _ => by simp [factorListing, Listing.single]
  | factor :: factors, nonempty => by
      simp only [allUnionsNonempty, Bool.and_eq_true] at nonempty
      rw [factorListing, ne_eq, Listing.product_eq_nil_iff, not_or]
      exact ⟨listing_ne_nil nonempty.1, factorListing_ne_nil nonempty.2⟩

end

end Expr

end RegularWords
