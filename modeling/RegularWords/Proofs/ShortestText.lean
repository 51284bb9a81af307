import RegularWords.Proofs.Parentheses

/-!
No text of an expression is shorter than the printed one.

Texts of one expression differ in their groups alone.  Each group takes two characters, one of them
an opening parenthesis, so the text with the fewest opening parentheses is the shortest one.
-/

namespace RegularWords.Grammar

open RegularWords.Expr (factorLevel alternativeLevel)

/-- As long as each other but for their groups. -/
def EqualButGroups (first second : List Char) : Prop :=
  first.length + 2 * second.count '(' = second.length + 2 * first.count '('

namespace EqualButGroups

variable {first second third fourth : List Char}

theorem refl (text : List Char) : EqualButGroups text text :=
  rfl

theorem symm (equal : EqualButGroups first second) : EqualButGroups second first :=
  Eq.symm equal

theorem trans (equal : EqualButGroups first second) (equalLater : EqualButGroups second third) :
    EqualButGroups first third := by
  unfold EqualButGroups at equal equalLater ⊢
  omega

theorem append (equal : EqualButGroups first second) (equalLater : EqualButGroups third fourth) :
    EqualButGroups (first ++ third) (second ++ fourth) := by
  unfold EqualButGroups at equal equalLater ⊢
  rw [List.length_append, List.length_append, List.count_append, List.count_append]
  omega

theorem group (text : List Char) : EqualButGroups ('(' :: (text ++ [')'])) text := by
  have closing : List.count '(' [')'] = 0 := rfl
  unfold EqualButGroups
  rw [List.count_cons_self, List.count_append, closing, List.length_cons, List.length_append,
    List.length_singleton]
  omega

theorem charactersAt (expr : Expr) (level : Nat) :
    EqualButGroups (expr.charactersAt level) expr.characters := by
  by_cases loose : expr.precedence < level
  · rw [Expr.charactersAt_of_lt loose]
    exact group _
  · rw [Expr.charactersAt_of_le (Nat.not_lt.mp loose)]
    exact refl _

end EqualButGroups

/-! ### Chains -/

structure SeparatedWriting extends ChainWriting where
  separator : List Char
  characters_append : ∀ {first second}, first ≠ [] → second ≠ [] →
    characters (first ++ second) = characters first ++ separator ++ characters second
  /-- An operand whose pieces are joined to the chain would be printed as a group of them. -/
  grouped : ∀ {operand}, operand.isNormal = true → pieces operand = [operand] ∨
    operand.charactersAt operandLevel = '(' :: (characters (pieces operand) ++ [')'])

namespace SeparatedWriting

variable (writing : SeparatedWriting) {expr : Expr} {operands : List Expr}

theorem characters_cons (operand : Expr) (someOperand : operands ≠ []) :
    writing.characters (operand :: operands) =
      writing.characters [operand] ++ writing.separator ++ writing.characters operands :=
  writing.characters_append (List.cons_ne_nil operand []) someOperand

theorem equal_single {text : List Char} (equal : EqualButGroups text expr.characters) :
    EqualButGroups text (writing.characters [expr]) := by
  rw [writing.characters_single]
  exact equal.trans (EqualButGroups.charactersAt expr _).symm

theorem equal_cons {text later : List Char} (someOperand : operands ≠ [])
    (equal : EqualButGroups text expr.characters)
    (equalLater : EqualButGroups later (writing.characters operands)) :
    EqualButGroups (text ++ writing.separator ++ later)
      (writing.characters (expr :: operands)) := by
  rw [writing.characters_cons expr someOperand]
  exact ((writing.equal_single equal).append (.refl _)).append equalLater

theorem equal_pieces_single (normal : expr.isNormal = true) :
    EqualButGroups (writing.characters (writing.pieces expr)) (writing.characters [expr]) := by
  rcases writing.grouped normal with alone | group
  · rw [alone]
    exact .refl _
  · rw [writing.characters_single, group]
    exact (EqualButGroups.group _).symm

/-- Operands that are joined to the chain lose their groups. -/
theorem equal_pieces (someOperand : operands ≠ [])
    (normal : ∀ operand ∈ operands, operand.isNormal = true) :
    operands.flatMap writing.pieces ≠ [] ∧
      EqualButGroups (writing.characters (operands.flatMap writing.pieces))
        (writing.characters operands) := by
  induction operands with
  | nil => exact absurd rfl someOperand
  | cons operand operands inductionHypothesis =>
      obtain ⟨operandNormal, othersNormal⟩ := List.forall_mem_cons.mp normal
      have somePiece := writing.pieces_ne_nil operandNormal
      have equal := writing.equal_pieces_single operandNormal
      cases operands with
      | nil =>
          rw [List.flatMap_singleton]
          exact ⟨somePiece, equal⟩
      | cons second operands =>
          obtain ⟨someLater, equalLater⟩ :=
            inductionHypothesis (List.cons_ne_nil second operands) othersNormal
          rw [List.flatMap_cons, writing.characters_append somePiece someLater,
            writing.characters_cons operand (List.cons_ne_nil second operands)]
          exact ⟨List.append_ne_nil_of_left_ne_nil somePiece _,
            (equal.append (.refl _)).append equalLater⟩

theorem equal_build (someOperand : operands ≠ [])
    (normal : ∀ operand ∈ operands, operand.isNormal = true) :
    EqualButGroups (writing.characters operands) (writing.build operands).characters := by
  obtain ⟨somePiece, equal⟩ := writing.equal_pieces someOperand normal
  refine equal.symm.trans ?_
  rw [writing.build_eq]
  split
  · rename_i single alone
    rw [alone, writing.characters_single]
    exact .charactersAt single _
  · rw [← writing.characters_node somePiece]
    exact .charactersAt _ _

theorem equal_chain {operands : List Subtree} {text : List Char}
    (someOperand : operands ≠ []) (normal : ∀ operand ∈ operands, operand.expr.isNormal = true)
    (equal : EqualButGroups text (writing.characters (operands.map Subtree.expr))) :
    EqualButGroups text (Subtree.chain writing.build operands).expr.characters :=
  equal.trans (writing.equal_build (mt List.map_eq_nil_iff.mp someOperand)
    (List.forall_mem_map.mpr normal))

end SeparatedWriting

theorem charactersAt_factors {expr : Expr} (normal : expr.isNormal = true) :
    expr.factors = [expr] ∨
      expr.charactersAt factorLevel = '(' :: (Expr.factorCharacters expr.factors ++ [')']) := by
  cases expr with
  | concat factors =>
      right
      have someFactor : factors ≠ [] := Expr.pieces_ne_nil_of_isNormal .concat normal
      rw [Expr.charactersAt_of_lt (Nat.lt_succ_self 1), characters_concat someFactor]
      rfl
  | literal symbol => exact .inl rfl
  | empty => exact .inl rfl
  | union alternatives => exact .inl rfl
  | star inner => exact .inl rfl

def separatedFactors : SeparatedWriting where
  toChainWriting := factorWriting
  separator := []
  characters_append := by
    intro first second _ _
    rw [List.append_nil]
    exact factorCharacters_append first second
  grouped := charactersAt_factors

theorem alternativeCharacters_append {first second : List Expr} (someFirst : first ≠ [])
    (someSecond : second ≠ []) :
    Expr.alternativeCharacters (first ++ second) =
      Expr.alternativeCharacters first ++ ['+'] ++ Expr.alternativeCharacters second := by
  obtain ⟨next, others, rfl⟩ := List.exists_cons_of_ne_nil someSecond
  induction first with
  | nil => exact absurd rfl someFirst
  | cons alternative first inductionHypothesis =>
      cases first with
      | nil =>
          rw [List.singleton_append, Expr.alternativeCharacters, Expr.alternativeCharacters,
            List.append_cons]
      | cons later first =>
          have joined := inductionHypothesis (List.cons_ne_nil later first)
          rw [List.cons_append] at joined
          rw [List.cons_append, List.cons_append, Expr.alternativeCharacters, joined,
            Expr.alternativeCharacters]
          simp only [List.append_assoc, List.cons_append]

theorem charactersAt_alternatives (expr : Expr) :
    expr.alternatives = [expr] ∨
      expr.charactersAt alternativeLevel =
        '(' :: (Expr.alternativeCharacters expr.alternatives ++ [')']) := by
  cases expr with
  | union alternatives =>
      right
      rw [Expr.charactersAt_of_lt Nat.zero_lt_one, Expr.characters]
      rfl
  | literal symbol => exact .inl rfl
  | empty => exact .inl rfl
  | concat factors => exact .inl rfl
  | star inner => exact .inl rfl

def separatedAlternatives : SeparatedWriting where
  toChainWriting := alternativeWriting
  separator := ['+']
  characters_append := alternativeCharacters_append
  grouped := fun _ => charactersAt_alternatives _

/-! ### Derivations -/

theorem Subtree.equal_starred {subtree : Subtree} {text : List Char}
    (equal : EqualButGroups text subtree.expr.characters) (stars : Nat) :
    EqualButGroups (text ++ List.replicate stars '*') (subtree.starred stars).expr.characters := by
  induction stars generalizing subtree text with
  | zero =>
      rw [List.replicate_zero, List.append_nil]
      exact equal
  | succ stars inductionHypothesis =>
      rw [Subtree.starred, List.replicate_succ, List.append_cons]
      apply inductionHypothesis
      rw [Expr.characters]
      exact (equal.trans (EqualButGroups.charactersAt _ factorLevel).symm).append (.refl _)

mutual

theorem PrimaryDerivation.equalButGroups : ∀ derivation : PrimaryDerivation,
    EqualButGroups derivation.text derivation.subtree.expr.characters
  | .group inside => by
      rw [PrimaryDerivation.text, PrimaryDerivation.subtree]
      exact (EqualButGroups.group _).trans (separatedAlternatives.equal_chain
        inside.alternatives_ne_nil inside.isNormal_alternatives inside.equal_alternatives)
  | .emptyWord => .refl _
  | .symbol _ => .refl _

theorem StarDerivation.equalButGroups : ∀ derivation : StarDerivation,
    EqualButGroups derivation.text derivation.subtree.expr.characters
  | .starred primary stars => by
      rw [StarDerivation.text, StarDerivation.subtree]
      exact Subtree.equal_starred primary.equalButGroups stars

theorem ConcatDerivation.equal_factors : ∀ derivation : ConcatDerivation,
    EqualButGroups derivation.text
      (separatedFactors.characters (derivation.factors.map Subtree.expr))
  | .last factor => by
      rw [ConcatDerivation.text, ConcatDerivation.factors]
      exact separatedFactors.equal_single factor.equalButGroups
  | .more factor later => by
      rw [ConcatDerivation.text, ConcatDerivation.factors, List.map_cons,
        ← List.append_nil factor.text]
      exact separatedFactors.equal_cons (mt List.map_eq_nil_iff.mp later.factors_ne_nil)
        factor.equalButGroups later.equal_factors

theorem UnionDerivation.equal_alternatives : ∀ derivation : UnionDerivation,
    EqualButGroups derivation.text
      (separatedAlternatives.characters (derivation.alternatives.map Subtree.expr))
  | .last alternative => by
      rw [UnionDerivation.text, UnionDerivation.alternatives]
      exact separatedAlternatives.equal_single (separatedFactors.equal_chain
        alternative.factors_ne_nil alternative.isNormal_factors alternative.equal_factors)
  | .more alternative later => by
      rw [UnionDerivation.text, UnionDerivation.alternatives, List.map_cons, List.append_cons]
      have first := separatedFactors.equal_chain alternative.factors_ne_nil
        alternative.isNormal_factors alternative.equal_factors
      exact separatedAlternatives.equal_cons (mt List.map_eq_nil_iff.mp later.alternatives_ne_nil)
        first later.equal_alternatives

end

theorem UnionDerivation.equalButGroups (derivation : UnionDerivation) :
    EqualButGroups derivation.text derivation.subtree.expr.characters :=
  separatedAlternatives.equal_chain derivation.alternatives_ne_nil
    derivation.isNormal_alternatives derivation.equal_alternatives

/-! ### Texts of one expression -/

variable {alphabet : Alphabet} {text : String} {expr : Expr}

theorem printsLeast_of_parse (readable : parse alphabet text = .ok expr) :
    PrintsLeast 0 expr text.toList := by
  obtain ⟨derivation, derives, rfl⟩ := parse_eq_ok_iff.mp readable
  rw [← derives.text]
  exact UnionDerivation.printsLeast derives.valid

theorem equalButGroups_of_parse (readable : parse alphabet text = .ok expr) :
    EqualButGroups text.toList expr.print.toList := by
  obtain ⟨derivation, derives, rfl⟩ := parse_eq_ok_iff.mp readable
  rw [← derives.text, Expr.print, String.toList_ofList]
  exact derivation.equalButGroups

theorem charactersAt_zero (expr : Expr) : expr.charactersAt 0 = expr.print.toList := by
  rw [Expr.charactersAt_of_le (Nat.zero_le _), Expr.print, String.toList_ofList]

/-- A text that is read as an expression has at least as many characters and opening parentheses as
the printed one, and is the printed one if it is no longer.  So no text that leaves out printed
parentheses is read as the expression, whether the printed one is or not. -/
theorem print_shortest (readable : parse alphabet text = .ok expr) :
    expr.print.length ≤ text.length ∧
      expr.print.toList.count '(' ≤ text.toList.count '(' ∧
      (text.length ≤ expr.print.length → text = expr.print) ∧
      ∀ before inside after : List Char,
        expr.print.toList = before ++ '(' :: (inside ++ ')' :: after) →
          parse alphabet (String.ofList (before ++ inside ++ after)) ≠ .ok expr := by
  obtain ⟨fewest, printed⟩ := printsLeast_of_parse readable
  have equal := equalButGroups_of_parse readable
  unfold EqualButGroups at equal
  rw [charactersAt_zero] at fewest printed
  rw [String.length_toList, String.length_toList] at equal
  refine ⟨by omega, fewest, ?_, ?_⟩
  · intro short
    exact String.toList_injective (printed (by omega)).1
  · intro before inside after split shorter
    have least := (printsLeast_of_parse shorter).fewest
    rw [charactersAt_zero, split, String.toList_ofList, List.count_append, List.count_append,
      List.count_append, List.count_cons_self, List.count_append,
      List.count_cons_of_ne (by decide)] at least
    omega

/-- With the plus sign as a symbol, two of four groups are printed, and the first one is needed. -/
theorem print_shortest_plus_symbol :
    let alphabet : Alphabet := ⟨['a', '+'], by decide, by decide⟩
    let expr := Expr.concat [.star (.union [.literal 'a', .literal '+']),
      .star (.concat [.literal 'a', .literal 'a'])]
    parse alphabet "((a)+(+))*(aa)*" = .ok expr ∧ expr.print = "(a++)*(aa)*" ∧
      parse alphabet "a++*(aa)*" ≠ .ok expr := by
  intro alphabet expr
  have readable : parse alphabet "((a)+(+))*(aa)*" = .ok expr := by decide +kernel
  exact ⟨readable, rfl, (print_shortest readable).2.2.2 [] ['a', '+', '+']
    ['*', '(', 'a', 'a', ')', '*'] String.toList_ofList⟩

end RegularWords.Grammar
