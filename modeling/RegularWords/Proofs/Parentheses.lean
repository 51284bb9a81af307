import RegularWords.Proofs.ParsedTree
import RegularWords.Proofs.Printing

/-!
No text of an expression has fewer parentheses than the printed one.

A group that holds no chain, or whose chain is joined into the one around it, has parentheses that
are not printed; all others are.  A text with no more opening parentheses than the printed text of
its tree has none of the former groups, and is the printed text.
-/

namespace RegularWords.Grammar

open RegularWords.Expr (factorLevel alternativeLevel)

/-! ### Texts beside the printed ones -/

/-- What holds of any text that is read as an expression where a precedence is asked for. -/
structure PrintsLeast (level : Nat) (expr : Expr) (text : List Char) : Prop where
  fewest : (expr.charactersAt level).count '(' ≤ text.count '('
  printed : text.count '(' ≤ (expr.charactersAt level).count '(' →
    text = expr.charactersAt level ∧ expr.Legible

variable {level : Nat} {expr : Expr} {text : List Char}

theorem count_charactersAt_of_lt (loose : expr.precedence < level) :
    (expr.charactersAt level).count '(' = expr.characters.count '(' + 1 := by
  rw [Expr.charactersAt_of_lt loose, List.cons_append, List.count_cons_self, List.count_append]
  rfl

/-- A place that asks for less saves the parentheses or changes nothing. -/
theorem charactersAt_looser (expr : Expr) {lower : Nat} (looser : lower ≤ level) :
    expr.charactersAt lower = expr.charactersAt level ∨
      (expr.charactersAt lower).count '(' < (expr.charactersAt level).count '(' := by
  by_cases loose : expr.precedence < level
  · by_cases stillLoose : expr.precedence < lower
    · left
      rw [Expr.charactersAt_of_lt stillLoose, Expr.charactersAt_of_lt loose]
    · right
      rw [Expr.charactersAt_of_le (Nat.not_lt.mp stillLoose), count_charactersAt_of_lt loose]
      exact Nat.lt_succ_self _
  · left
    have tight := Nat.not_lt.mp loose
    rw [Expr.charactersAt_of_le (Nat.le_trans looser tight), Expr.charactersAt_of_le tight]

theorem PrintsLeast.loosen {lower : Nat} (least : PrintsLeast level expr text)
    (looser : lower ≤ level) : PrintsLeast lower expr text := by
  rcases charactersAt_looser expr looser with same | fewer
  · obtain ⟨fewest, printed⟩ := least
    rw [← same] at fewest printed
    exact ⟨fewest, printed⟩
  · have fewest := Nat.lt_of_lt_of_le fewer least.fewest
    exact ⟨Nat.le_of_lt fewest, fun attained => absurd fewest (Nat.not_lt.mpr attained)⟩

theorem PrintsLeast.group (least : PrintsLeast 0 expr text) (level : Nat) :
    PrintsLeast level expr ('(' :: (text ++ [')'])) := by
  obtain ⟨fewest, printed⟩ := least
  rw [Expr.charactersAt_of_le (Nat.zero_le _)] at fewest printed
  have count : ('(' :: (text ++ [')'])).count '(' = text.count '(' + 1 := by
    rw [List.count_cons_self, List.count_append]
    rfl
  -- The group is printed if its chain needs one in this place; else it is one too many.
  by_cases loose : expr.precedence < level
  · have printedCount := count_charactersAt_of_lt loose
    refine ⟨by omega, ?_⟩
    intro attained
    obtain ⟨same, legible⟩ := printed (by omega)
    rw [Expr.charactersAt_of_lt loose, same]
    exact ⟨rfl, legible⟩
  · rw [← Expr.charactersAt_of_le (Nat.not_lt.mp loose)] at fewest
    exact ⟨by omega, fun attained => by omega⟩

theorem PrintsLeast.star (least : PrintsLeast factorLevel expr text) :
    PrintsLeast factorLevel (.star expr) (text ++ ['*']) := by
  obtain ⟨fewest, printed⟩ := least
  have noGroup : ∀ characters : List Char,
      (characters ++ ['*']).count '(' = characters.count '(' := by
    intro characters
    rw [List.count_append]
    rfl
  refine ⟨?_, ?_⟩
  · rw [Expr.charactersAt_star, noGroup, noGroup]
    exact fewest
  · rw [Expr.charactersAt_star, noGroup, noGroup]
    intro attained
    obtain ⟨same, legible⟩ := printed attained
    exact ⟨congrArg (· ++ ['*']) same, legible⟩

theorem PrintsLeast.starred {subtree : Subtree}
    (least : PrintsLeast factorLevel subtree.expr text) (stars : Nat) :
    PrintsLeast factorLevel (subtree.starred stars).expr (text ++ List.replicate stars '*') := by
  induction stars generalizing subtree text with
  | zero =>
      rw [List.replicate_zero, List.append_nil]
      exact least
  | succ stars inductionHypothesis =>
      rw [Subtree.starred, List.replicate_succ, List.append_cons]
      exact inductionHypothesis least.star

/-! ### Chains -/

structure ChainWriting where
  node : List Expr → Expr
  pieces : Expr → List Expr
  build : List Expr → Expr
  characters : List Expr → List Char
  /-- What the place of a chain asks for, and what the places of its operands do. -/
  level : Nat
  operandLevel : Nat
  looser : level ≤ operandLevel
  build_eq : ∀ operands, build operands =
    match operands.flatMap pieces with
    | [single] => single
    | chain => node chain
  characters_single : ∀ operand, characters [operand] = operand.charactersAt operandLevel
  characters_node : ∀ {operands}, operands ≠ [] →
    (node operands).charactersAt level = characters operands
  count_append : ∀ first second, (characters (first ++ second)).count '(' =
    (characters first).count '(' + (characters second).count '('
  legible_single : ∀ {operand}, (node [operand]).Legible ↔ operand.Legible
  pieces_ne_nil : ∀ {operand}, operand.isNormal = true → pieces operand ≠ []
  /-- An operand whose pieces are joined to the chain would be printed in parentheses. -/
  pieces_eq : ∀ operand, pieces operand = [operand] ∨
    (characters (pieces operand)).count '(' < (operand.charactersAt operandLevel).count '('

variable {writing : ChainWriting} {operands : List Expr}

structure ChainPrintsLeast (writing : ChainWriting) (operands : List Expr) (text : List Char) :
    Prop where
  nonempty : operands.flatMap writing.pieces ≠ []
  fewest : (writing.characters (operands.flatMap writing.pieces)).count '(' ≤ text.count '('
  printed :
    text.count '(' ≤ (writing.characters (operands.flatMap writing.pieces)).count '(' →
      operands.flatMap writing.pieces = operands ∧ text = writing.characters operands ∧
        (writing.node operands).Legible

theorem ChainPrintsLeast.single (normal : expr.isNormal = true)
    (least : PrintsLeast writing.operandLevel expr text) :
    ChainPrintsLeast writing [expr] text := by
  have pieces : [expr].flatMap writing.pieces = writing.pieces expr := List.flatMap_singleton _ _
  refine ⟨?_, ?_, ?_⟩
  · rw [pieces]
    exact writing.pieces_ne_nil normal
  · rw [pieces]
    rcases writing.pieces_eq expr with alone | joined
    · rw [alone, writing.characters_single]
      exact least.fewest
    · exact Nat.le_trans (Nat.le_of_lt joined) least.fewest
  · rw [pieces]
    intro attained
    rcases writing.pieces_eq expr with alone | joined
    · rw [alone, writing.characters_single] at attained
      obtain ⟨same, legible⟩ := least.printed attained
      rw [writing.characters_single]
      exact ⟨alone, same, writing.legible_single.mpr legible⟩
    · exact absurd (Nat.lt_of_lt_of_le joined least.fewest) (Nat.not_lt.mpr attained)

theorem ChainPrintsLeast.cons {first later : List Char}
    (least : ChainPrintsLeast writing [expr] first)
    (leastLater : ChainPrintsLeast writing operands later)
    (count : text.count '(' = first.count '(' + later.count '(')
    (joined : first = writing.characters [expr] → later = writing.characters operands →
      (writing.node [expr]).Legible → (writing.node operands).Legible →
        text = writing.characters (expr :: operands) ∧
          (writing.node (expr :: operands)).Legible) :
    ChainPrintsLeast writing (expr :: operands) text := by
  have pieces : (expr :: operands).flatMap writing.pieces =
      [expr].flatMap writing.pieces ++ operands.flatMap writing.pieces := by
    rw [← List.flatMap_append, List.singleton_append]
  have fewest := least.fewest
  have fewestLater := leastLater.fewest
  refine ⟨?_, ?_, ?_⟩
  · rw [pieces]
    exact List.append_ne_nil_of_left_ne_nil least.nonempty _
  · rw [pieces, writing.count_append]
    omega
  · rw [pieces, writing.count_append]
    intro attained
    obtain ⟨alone, same, legible⟩ := least.printed (by omega)
    obtain ⟨aloneLater, sameLater, legibleLater⟩ := leastLater.printed (by omega)
    rw [alone, aloneLater, List.singleton_append]
    exact ⟨rfl, joined same sameLater legible legibleLater⟩

theorem ChainPrintsLeast.build (least : ChainPrintsLeast writing operands text) :
    PrintsLeast writing.level (writing.build operands) text := by
  obtain ⟨nonempty, fewest, printed⟩ := least
  rw [writing.build_eq]
  split
  · rename_i single alone
    -- An operand alone is read in the place of the chain, which asks for less than its own.
    rw [alone, writing.characters_single] at fewest printed
    apply PrintsLeast.loosen _ writing.looser
    refine ⟨fewest, ?_⟩
    intro attained
    obtain ⟨rfl, same, legible⟩ := printed attained
    rw [writing.characters_single] at same
    exact ⟨same, writing.legible_single.mp legible⟩
  · rw [← writing.characters_node nonempty] at fewest printed
    refine ⟨fewest, ?_⟩
    intro attained
    obtain ⟨chain, same, legible⟩ := printed attained
    rw [writing.characters_node nonempty, chain]
    exact ⟨same, legible⟩

/-! ### Concatenations -/

theorem factorCharacters_append (first second : List Expr) :
    Expr.factorCharacters (first ++ second) =
      Expr.factorCharacters first ++ Expr.factorCharacters second := by
  induction first with
  | nil => rfl
  | cons factor first inductionHypothesis =>
      rw [List.cons_append, Expr.factorCharacters, Expr.factorCharacters, inductionHypothesis,
        List.append_assoc]

theorem characters_concat {factors : List Expr} (nonempty : factors ≠ []) :
    (Expr.concat factors).characters = Expr.factorCharacters factors := by
  cases factors with
  | nil => exact absurd rfl nonempty
  | cons factor factors => rw [Expr.characters]

theorem count_factorCharacters_factors (expr : Expr) :
    expr.factors = [expr] ∨
      (Expr.factorCharacters expr.factors).count '(' <
        (expr.charactersAt factorLevel).count '(' := by
  cases expr with
  | concat factors =>
      right
      rw [count_charactersAt_of_lt (Nat.lt_succ_self 1), Expr.factors]
      cases factors with
      | nil => exact Nat.zero_lt_succ _
      | cons factor factors =>
          rw [Expr.characters]
          exact Nat.lt_succ_self _
  | literal symbol => exact .inl rfl
  | empty => exact .inl rfl
  | union alternatives => exact .inl rfl
  | star inner => exact .inl rfl

def factorWriting : ChainWriting where
  node := .concat
  pieces := Expr.factors
  build := Expr.concatAll
  characters := Expr.factorCharacters
  level := alternativeLevel
  operandLevel := factorLevel
  looser := Nat.le_succ 1
  build_eq := fun _ => rfl
  characters_single := fun operand => by
    rw [Expr.factorCharacters, Expr.factorCharacters, List.append_nil]
    rfl
  characters_node := fun nonempty => by
    rw [Expr.charactersAt_of_le (Nat.le_refl 1), characters_concat nonempty]
  count_append := fun first second => by rw [factorCharacters_append, List.count_append]
  legible_single := by
    intro operand
    rw [Expr.Legible, Expr.EachLegible, Expr.EachLegible]
    exact ⟨fun legible => legible.1.1, fun legible => ⟨⟨legible, trivial⟩, List.forall_mem_nil _⟩⟩
  pieces_ne_nil := Expr.pieces_ne_nil_of_isNormal .concat
  pieces_eq := count_factorCharacters_factors

theorem StartsFactor.of_append {rest : List Char} (starts : StartsFactor (text ++ rest))
    (some : text ≠ []) : StartsFactor text := by
  cases text with
  | nil => exact absurd rfl some
  | cons initial others => exact starts

theorem legible_concat_cons (legible : expr.Legible)
    (legibleLater : (Expr.concat operands).Legible)
    (starts : StartsFactor (Expr.factorCharacters operands)) :
    (Expr.concat (expr :: operands)).Legible := by
  rw [Expr.Legible] at legibleLater ⊢
  refine ⟨⟨legible, legibleLater.1⟩, ?_⟩
  cases operands with
  | nil => exact List.forall_mem_nil _
  | cons second operands =>
      rw [Expr.factorCharacters] at starts
      exact List.forall_mem_cons.mpr
        ⟨starts.of_append second.charactersAt_ne_nil, legibleLater.2⟩

/-! ### Unions -/

theorem count_alternativeCharacters_cons (alternative : Expr) (alternatives : List Expr) :
    (Expr.alternativeCharacters (alternative :: alternatives)).count '(' =
      (alternative.charactersAt alternativeLevel).count '(' +
        (Expr.alternativeCharacters alternatives).count '(' := by
  cases alternatives with
  | nil => rfl
  | cons next alternatives =>
      rw [Expr.alternativeCharacters, List.count_append, List.count_cons_of_ne (by decide)]
      rfl

theorem count_alternativeCharacters_append (first second : List Expr) :
    (Expr.alternativeCharacters (first ++ second)).count '(' =
      (Expr.alternativeCharacters first).count '(' +
        (Expr.alternativeCharacters second).count '(' := by
  induction first with
  | nil =>
      rw [List.nil_append, Expr.alternativeCharacters]
      exact (Nat.zero_add _).symm
  | cons alternative first inductionHypothesis =>
      rw [List.cons_append, count_alternativeCharacters_cons, count_alternativeCharacters_cons,
        inductionHypothesis, Nat.add_assoc]

theorem count_alternativeCharacters_alternatives (expr : Expr) :
    expr.alternatives = [expr] ∨
      (Expr.alternativeCharacters expr.alternatives).count '(' <
        (expr.charactersAt alternativeLevel).count '(' := by
  cases expr with
  | union alternatives =>
      right
      rw [count_charactersAt_of_lt Nat.zero_lt_one, Expr.alternatives, Expr.characters]
      exact Nat.lt_succ_self _
  | literal symbol => exact .inl rfl
  | empty => exact .inl rfl
  | concat factors => exact .inl rfl
  | star inner => exact .inl rfl

def alternativeWriting : ChainWriting where
  node := .union
  pieces := Expr.alternatives
  build := Expr.unionAll
  characters := Expr.alternativeCharacters
  level := 0
  operandLevel := alternativeLevel
  looser := Nat.zero_le 1
  build_eq := fun _ => rfl
  characters_single := fun operand => by
    rw [Expr.alternativeCharacters]
    rfl
  characters_node := fun _ => by
    rw [Expr.charactersAt_of_le (Nat.zero_le _), Expr.characters]
  count_append := count_alternativeCharacters_append
  legible_single := by
    intro operand
    rw [Expr.Legible, Expr.EachLegible, Expr.EachLegible]
    exact ⟨fun legible => legible.1, fun legible => ⟨legible, trivial⟩⟩
  pieces_ne_nil := Expr.pieces_ne_nil_of_isNormal .union
  pieces_eq := count_alternativeCharacters_alternatives

/-! ### Derivations -/

variable {alphabet : Alphabet}

mutual

theorem PrimaryDerivation.printsLeast : ∀ {derivation : PrimaryDerivation},
    derivation.Valid alphabet →
      PrintsLeast factorLevel derivation.subtree.expr derivation.text
  | .group inside, valid => by
      rw [PrimaryDerivation.Valid] at valid
      rw [PrimaryDerivation.text]
      have least : ChainPrintsLeast alternativeWriting _ inside.text :=
        UnionDerivation.alternatives_printLeast valid
      exact least.build.group factorLevel
  | .emptyWord, _ => ⟨Nat.le_refl _, fun _ => ⟨rfl, trivial⟩⟩
  | .symbol _, _ => ⟨Nat.le_refl _, fun _ => ⟨rfl, trivial⟩⟩

theorem StarDerivation.printsLeast : ∀ {derivation : StarDerivation},
    derivation.Valid alphabet →
      PrintsLeast factorLevel derivation.subtree.expr derivation.text
  | .starred primary stars, valid => by
      rw [StarDerivation.Valid] at valid
      rw [StarDerivation.subtree, StarDerivation.text]
      exact (PrimaryDerivation.printsLeast valid).starred stars

theorem ConcatDerivation.factors_printLeast : ∀ {derivation : ConcatDerivation},
    derivation.Valid alphabet →
      ChainPrintsLeast factorWriting (derivation.factors.map Subtree.expr) derivation.text
  | .last factor, valid => by
      rw [ConcatDerivation.Valid] at valid
      rw [ConcatDerivation.factors, ConcatDerivation.text]
      exact .single factor.isNormal_subtree (StarDerivation.printsLeast valid)
  | .more factor later, valid => by
      rw [ConcatDerivation.Valid] at valid
      rw [ConcatDerivation.factors, ConcatDerivation.text, List.map_cons]
      obtain ⟨factorValid, laterValid, starts⟩ := valid
      have least : ChainPrintsLeast factorWriting [factor.subtree.expr] factor.text :=
        .single factor.isNormal_subtree (StarDerivation.printsLeast factorValid)
      refine least.cons (ConcatDerivation.factors_printLeast laterValid) List.count_append ?_
      intro same sameLater legible legibleLater
      refine ⟨?_, ?_⟩
      · rw [same, sameLater]
        exact (factorCharacters_append [factor.subtree.expr] _).symm
      · rw [sameLater] at starts
        exact legible_concat_cons (factorWriting.legible_single.mp legible) legibleLater starts

theorem UnionDerivation.alternatives_printLeast : ∀ {derivation : UnionDerivation},
    derivation.Valid alphabet →
      ChainPrintsLeast alternativeWriting (derivation.alternatives.map Subtree.expr)
        derivation.text
  | .last alternative, valid => by
      rw [UnionDerivation.Valid] at valid
      rw [UnionDerivation.alternatives, UnionDerivation.text]
      exact .single alternative.isNormal_subtree
        (ConcatDerivation.factors_printLeast valid).build
  | .more alternative later, valid => by
      rw [UnionDerivation.Valid] at valid
      rw [UnionDerivation.alternatives, UnionDerivation.text, List.map_cons]
      have least : ChainPrintsLeast alternativeWriting [alternative.subtree.expr]
          alternative.text :=
        .single alternative.isNormal_subtree (ConcatDerivation.factors_printLeast valid.1).build
      have leastLater := UnionDerivation.alternatives_printLeast valid.2
      refine least.cons leastLater ?_ ?_
      · rw [List.count_append, List.count_cons_of_ne (by decide)]
      · intro same sameLater legible legibleLater
        obtain ⟨second, others, some⟩ :=
          List.exists_cons_of_ne_nil (mt List.map_eq_nil_iff.mp later.alternatives_ne_nil)
        refine ⟨?_, ?_⟩
        · rw [same, sameLater, some]
          rfl
        · exact ⟨alternativeWriting.legible_single.mp legible, legibleLater⟩

end

/-- Any text of an expression has as many opening parentheses as the printed one at least, and is the
printed one if it has no more. -/
theorem UnionDerivation.printsLeast {derivation : UnionDerivation}
    (valid : derivation.Valid alphabet) :
    PrintsLeast 0 derivation.subtree.expr derivation.text :=
  (UnionDerivation.alternatives_printLeast valid).build

end RegularWords.Grammar
