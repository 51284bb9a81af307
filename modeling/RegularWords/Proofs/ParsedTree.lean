import RegularWords.Proofs.NormalForm
import RegularWords.Proofs.Recognition

/-!
The trees that texts are parsed to.

A chain is built from the operands it is written with, and there is always one, so every tree that
the parser gives is in normal form.
-/

namespace RegularWords.Grammar

theorem Subtree.isNormal_starred {subtree : Subtree} (normal : subtree.expr.isNormal = true)
    (stars : Nat) : (subtree.starred stars).expr.isNormal = true := by
  induction stars generalizing subtree with
  | zero => exact normal
  | succ stars inductionHypothesis =>
      rw [Subtree.starred]
      apply inductionHypothesis
      rwa [Expr.isNormal]

theorem Subtree.isNormal_chain (kind : Expr.ChainKind) {operands : List Subtree}
    (someOperand : operands ≠ [])
    (normal : ∀ operand ∈ operands, operand.expr.isNormal = true) :
    (Subtree.chain kind.build operands).expr.isNormal = true := by
  apply Expr.isNormal_build kind
  · exact mt List.map_eq_nil_iff.mp someOperand
  · exact List.forall_mem_map.mpr normal

theorem ConcatDerivation.factors_ne_nil (derivation : ConcatDerivation) :
    derivation.factors ≠ [] := by
  cases derivation <;> simp [ConcatDerivation.factors]

theorem UnionDerivation.alternatives_ne_nil (derivation : UnionDerivation) :
    derivation.alternatives ≠ [] := by
  cases derivation <;> simp [UnionDerivation.alternatives]

mutual

theorem PrimaryDerivation.isNormal_subtree :
    ∀ derivation : PrimaryDerivation, derivation.subtree.expr.isNormal = true
  | .group inside => by
      rw [PrimaryDerivation.subtree]
      exact Subtree.isNormal_chain .union inside.alternatives_ne_nil
        inside.isNormal_alternatives
  | .emptyWord => by rw [PrimaryDerivation.subtree, Expr.isNormal]
  | .symbol character => by rw [PrimaryDerivation.subtree, Expr.isNormal]

theorem StarDerivation.isNormal_subtree :
    ∀ derivation : StarDerivation, derivation.subtree.expr.isNormal = true
  | .starred primary stars => by
      rw [StarDerivation.subtree]
      exact Subtree.isNormal_starred primary.isNormal_subtree stars

theorem ConcatDerivation.isNormal_factors :
    ∀ derivation : ConcatDerivation, ∀ factor ∈ derivation.factors, factor.expr.isNormal = true
  | .last factor => by
      rw [ConcatDerivation.factors]
      exact List.forall_mem_singleton.mpr factor.isNormal_subtree
  | .more factor later => by
      rw [ConcatDerivation.factors]
      exact List.forall_mem_cons.mpr ⟨factor.isNormal_subtree, later.isNormal_factors⟩

theorem UnionDerivation.isNormal_alternatives :
    ∀ derivation : UnionDerivation,
      ∀ alternative ∈ derivation.alternatives, alternative.expr.isNormal = true
  | .last alternative => by
      rw [UnionDerivation.alternatives]
      exact List.forall_mem_singleton.mpr (Subtree.isNormal_chain .concat
        alternative.factors_ne_nil alternative.isNormal_factors)
  | .more alternative later => by
      rw [UnionDerivation.alternatives]
      exact List.forall_mem_cons.mpr
        ⟨Subtree.isNormal_chain .concat alternative.factors_ne_nil
          alternative.isNormal_factors, later.isNormal_alternatives⟩

end

theorem ConcatDerivation.isNormal_subtree (derivation : ConcatDerivation) :
    derivation.subtree.expr.isNormal = true :=
  Subtree.isNormal_chain .concat derivation.factors_ne_nil
    derivation.isNormal_factors

theorem UnionDerivation.isNormal_subtree (derivation : UnionDerivation) :
    derivation.subtree.expr.isNormal = true :=
  Subtree.isNormal_chain .union derivation.alternatives_ne_nil
    derivation.isNormal_alternatives

variable {alphabet : Alphabet} {text : String} {expr : Expr}

theorem isNormal_of_parse (readable : parse alphabet text = .ok expr) : expr.isNormal = true := by
  obtain ⟨derivation, _, rfl⟩ := parse_eq_ok_iff.mp readable
  exact derivation.isNormal_subtree

theorem unionsNonempty_of_parse (readable : parse alphabet text = .ok expr) :
    expr.unionsNonempty = true :=
  Expr.unionsNonempty_of_isNormal (isNormal_of_parse readable)

end RegularWords.Grammar
