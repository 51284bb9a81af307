import RegularWords.Proofs.ParsedTree
import RegularWords.Proofs.Printing

/-!
Trees as they are written, before chains are joined.

A group may hold a chain of the operator that it is an operand of.  In the tree as it is written that
is one chain inside another, and the parsed tree, in which the two are joined, is its normal form.
Joining chains lowers a tree or leaves it as high as it was, and the parser counts levels before.
-/

namespace RegularWords

/-! ### Heights of normal forms -/

namespace Expr

theorem heightAbove_le_iff {operands : List Expr} {bound : Nat} :
    heightAbove operands ≤ bound ↔ ∀ operand ∈ operands, operand.height + 1 ≤ bound := by
  induction operands with
  | nil => simp [heightAbove]
  | cons operand operands inductionHypothesis =>
      rw [heightAbove, Nat.max_le, inductionHypothesis, List.forall_mem_cons]

theorem height_node (kind : ChainKind) (operands : List Expr) :
    (kind.node operands).height = heightAbove operands := by
  cases kind with
  | concat => rfl
  | union => rfl

theorem height_pieces_le (kind : ChainKind) {expr piece : Expr}
    (isPiece : piece ∈ kind.pieces expr) : piece.height ≤ expr.height := by
  rcases kind.node_or_alone expr with ⟨operands, rfl⟩ | ⟨_, alone⟩
  · rw [kind.pieces_node] at isPiece
    rw [height_node]
    exact Nat.le_of_succ_le (heightAbove_le_iff.mp (Nat.le_refl _) piece isPiece)
  · rw [alone] at isPiece
    rw [List.mem_singleton.mp isPiece]

theorem height_build_le (kind : ChainKind) (operands : List Expr) :
    (kind.build operands).height ≤ heightAbove operands := by
  have spliced : heightAbove (operands.flatMap kind.pieces) ≤ heightAbove operands := by
    rw [heightAbove_le_iff]
    intro piece isPiece
    obtain ⟨operand, isOperand, inOperand⟩ := List.mem_flatMap.mp isPiece
    exact Nat.le_trans (Nat.succ_le_succ (height_pieces_le kind inOperand))
      (heightAbove_le_iff.mp (Nat.le_refl _) operand isOperand)
  rcases kind.build_cases operands with ⟨single, alone, built⟩ | ⟨_, built⟩
  · rw [alone, heightAbove_le_iff, List.forall_mem_singleton] at spliced
    rw [built]
    exact Nat.le_of_succ_le spliced
  · rw [built, height_node]
    exact spliced

mutual

/-- Joining chains makes no tree higher. -/
theorem height_normalized_le : ∀ expr : Expr, expr.normalized.height ≤ expr.height
  | .literal _ => Nat.le_refl _
  | .empty => Nat.le_refl _
  | .concat [] => Nat.le_refl _
  | .concat (_ :: _) =>
      Nat.le_trans (height_build_le .concat _) (heightAbove_normalizedChain_le _)
  | .union alternatives =>
      Nat.le_trans (height_build_le .union _) (heightAbove_normalizedChain_le alternatives)
  | .star inner => Nat.succ_le_succ (height_normalized_le inner)

theorem heightAbove_normalizedChain_le : ∀ operands : List Expr,
    heightAbove (normalizedChain operands) ≤ heightAbove operands
  | [] => Nat.le_refl _
  | operand :: operands => by
      have first := height_normalized_le operand
      have others := heightAbove_normalizedChain_le operands
      rw [normalizedChain, heightAbove, heightAbove]
      omega

end

theorem heightAbove_cons (operand : Expr) (operands : List Expr) :
    heightAbove (operand :: operands) =
      ((operand :: operands).map height).foldr max 0 + 1 := by
  induction operands generalizing operand with
  | nil =>
      change max (operand.height + 1) 0 = max operand.height 0 + 1
      omega
  | cons next operands inductionHypothesis =>
      change max (operand.height + 1) (heightAbove (next :: operands)) =
        max operand.height (((next :: operands).map height).foldr max 0) + 1
      rw [inductionHypothesis]
      omega

/-- A chain as it is written: an operand alone stands for itself. -/
def writtenChain (node : List Expr → Expr) : List Expr → Expr
  | [single] => single
  | operands => node operands

end Expr

namespace Grammar

mutual

/-- The tree of a derivation with one chain for each use of a chain's rule. -/
def PrimaryDerivation.writtenTree : PrimaryDerivation → Expr
  | .group inside => .writtenChain .union inside.writtenAlternatives
  | .emptyWord => .empty
  | .symbol character => .literal character

def StarDerivation.writtenTree : StarDerivation → Expr
  | .starred primary stars => Expr.star^[stars] primary.writtenTree

def ConcatDerivation.writtenFactors : ConcatDerivation → List Expr
  | .last factor => [factor.writtenTree]
  | .more factor later => factor.writtenTree :: later.writtenFactors

def UnionDerivation.writtenAlternatives : UnionDerivation → List Expr
  | .last alternative => [.writtenChain .concat alternative.writtenFactors]
  | .more alternative later =>
      .writtenChain .concat alternative.writtenFactors :: later.writtenAlternatives

end

def UnionDerivation.writtenTree (derivation : UnionDerivation) : Expr :=
  .writtenChain .union derivation.writtenAlternatives

/-! ### The parsed tree is the normal form of the written one -/

structure Subtree.Joins (subtree : Subtree) (written : Expr) : Prop where
  expr : subtree.expr = written.normalized
  height : subtree.height = written.height

structure Subtree.JoinsEach (operands : List Subtree) (written : List Expr) : Prop where
  exprs : operands.map Subtree.expr = Expr.normalizedChain written
  heights : operands.map Subtree.height = written.map Expr.height

theorem Subtree.JoinsEach.nil : JoinsEach [] [] :=
  ⟨rfl, rfl⟩

theorem Subtree.JoinsEach.cons {operand : Subtree} {operands : List Subtree} {first : Expr}
    {others : List Expr} (joins : operand.Joins first) (joinsOthers : JoinsEach operands others) :
    JoinsEach (operand :: operands) (first :: others) where
  exprs := by rw [List.map_cons, joins.expr, joinsOthers.exprs, Expr.normalizedChain]
  heights := by rw [List.map_cons, joins.height, joinsOthers.heights, List.map_cons]

theorem Subtree.joins_starred {subtree : Subtree} {written : Expr} (joins : subtree.Joins written)
    (stars : Nat) : (subtree.starred stars).Joins (Expr.star^[stars] written) := by
  induction stars generalizing subtree written with
  | zero => exact joins
  | succ stars inductionHypothesis =>
      rw [Subtree.starred, Function.iterate_succ_apply]
      apply inductionHypothesis
      exact ⟨by rw [joins.expr, Expr.normalized], by rw [joins.height, Expr.height]⟩

theorem Subtree.joins_chain (kind : Expr.ChainKind) {operands : List Subtree}
    {written : List Expr} (someOperand : operands ≠ [])
    (normal : ∀ operand ∈ operands, operand.expr.isNormal = true)
    (joins : JoinsEach operands written) :
    (Subtree.chain kind.build operands).Joins (.writtenChain kind.node written) := by
  obtain ⟨exprs, heights⟩ := joins
  have sameLength : operands.length = written.length := by
    simpa using congrArg List.length heights
  match written, operands with
  | [], operands => exact absurd (List.length_eq_zero_iff.mp sameLength) someOperand
  | [single], [operand] =>
      have sameExpr : operand.expr = single.normalized := (List.cons.inj exprs).1
      have sameHeight : operand.height = single.height := (List.cons.inj heights).1
      refine ⟨?_, ?_⟩
      · change kind.build [operand.expr] = single.normalized
        rw [Expr.judges_isNormal.build_singleton kind (normal operand List.mem_cons_self), sameExpr]
      · change max operand.height 0 + 0 = single.height
        omega
  | first :: second :: others, operands =>
      have several : ¬ operands.length ≤ 1 := by
        rw [sameLength, List.length_cons, List.length_cons]
        omega
      refine ⟨?_, ?_⟩
      · change kind.build (operands.map Subtree.expr) =
          (kind.node (first :: second :: others)).normalized
        rw [exprs, Expr.normalized_node]
      · change (operands.map Subtree.height).foldr max 0 + (if operands.length ≤ 1 then 0 else 1) =
          (kind.node (first :: second :: others)).height
        rw [heights, if_neg several, Expr.height_node, Expr.heightAbove_cons]

mutual

theorem PrimaryDerivation.joins_writtenTree :
    ∀ derivation : PrimaryDerivation, derivation.subtree.Joins derivation.writtenTree
  | .group inside =>
      Subtree.joins_chain .union inside.alternatives_ne_nil inside.isNormal_alternatives
        inside.joins_writtenAlternatives
  | .emptyWord => ⟨rfl, rfl⟩
  | .symbol _ => ⟨rfl, rfl⟩

theorem StarDerivation.joins_writtenTree :
    ∀ derivation : StarDerivation, derivation.subtree.Joins derivation.writtenTree
  | .starred primary stars => Subtree.joins_starred primary.joins_writtenTree stars

theorem ConcatDerivation.joins_writtenFactors : ∀ derivation : ConcatDerivation,
    Subtree.JoinsEach derivation.factors derivation.writtenFactors
  | .last factor => .cons factor.joins_writtenTree .nil
  | .more factor later => .cons factor.joins_writtenTree later.joins_writtenFactors

theorem UnionDerivation.joins_writtenAlternatives : ∀ derivation : UnionDerivation,
    Subtree.JoinsEach derivation.alternatives derivation.writtenAlternatives
  | .last alternative =>
      .cons (Subtree.joins_chain .concat alternative.factors_ne_nil alternative.isNormal_factors
        alternative.joins_writtenFactors) .nil
  | .more alternative later =>
      .cons (Subtree.joins_chain .concat alternative.factors_ne_nil alternative.isNormal_factors
        alternative.joins_writtenFactors) later.joins_writtenAlternatives

end

theorem UnionDerivation.joins_writtenTree (derivation : UnionDerivation) :
    derivation.subtree.Joins derivation.writtenTree :=
  Subtree.joins_chain .union derivation.alternatives_ne_nil derivation.isNormal_alternatives
    derivation.joins_writtenAlternatives

/-- The levels that are counted while reading are no fewer than those of the tree. -/
theorem UnionDerivation.height_expr_le (derivation : UnionDerivation) :
    derivation.subtree.expr.height ≤ derivation.subtree.height := by
  have joins := derivation.joins_writtenTree
  rw [joins.expr, joins.height]
  exact Expr.height_normalized_le _

end Grammar

end RegularWords
