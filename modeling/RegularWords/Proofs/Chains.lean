import Mathlib.Logic.Basic
import RegularWords.Expr.Chain

/-!
Chains of either kind.

The constructors of both kinds build a chain in the same way, from what every operand contributes.  So
what building keeps is shown for both at once: what the chain gathers from its operands, and any
condition on trees that forbids a chain right inside a chain of its kind.
-/

namespace RegularWords.Expr

def isConcat : Expr → Bool
  | .concat _ => true
  | _ => false

def isUnion : Expr → Bool
  | .union _ => true
  | _ => false

inductive ChainKind where
  | concat
  | union

namespace ChainKind

def node : ChainKind → List Expr → Expr
  | .concat => .concat
  | .union => .union

def isChain : ChainKind → Expr → Bool
  | .concat => isConcat
  | .union => isUnion

def pieces : ChainKind → Expr → List Expr
  | .concat => factors
  | .union => alternatives

def build : ChainKind → List Expr → Expr
  | .concat => concatAll
  | .union => unionAll

variable (kind : ChainKind)

/-! ### Pieces -/

theorem pieces_node (operands : List Expr) : kind.pieces (kind.node operands) = operands := by
  cases kind with
  | concat => rfl
  | union => rfl

/-- A tree that is no chain of this kind contributes itself. -/
theorem node_or_alone (expr : Expr) :
    (∃ operands, expr = kind.node operands) ∨
      (kind.isChain expr = false ∧ kind.pieces expr = [expr]) := by
  cases kind with
  | concat =>
      cases expr with
      | concat factors => exact .inl ⟨factors, rfl⟩
      | literal symbol => exact .inr ⟨rfl, rfl⟩
      | empty => exact .inr ⟨rfl, rfl⟩
      | union alternatives => exact .inr ⟨rfl, rfl⟩
      | star inner => exact .inr ⟨rfl, rfl⟩
  | union =>
      cases expr with
      | union alternatives => exact .inl ⟨alternatives, rfl⟩
      | literal symbol => exact .inr ⟨rfl, rfl⟩
      | empty => exact .inr ⟨rfl, rfl⟩
      | concat factors => exact .inr ⟨rfl, rfl⟩
      | star inner => exact .inr ⟨rfl, rfl⟩

theorem isChain_node (operands : List Expr) : kind.isChain (kind.node operands) = true := by
  cases kind with
  | concat => rfl
  | union => rfl

theorem pieces_of_isChain_eq_false {expr : Expr} (other : kind.isChain expr = false) :
    kind.pieces expr = [expr] := by
  rcases kind.node_or_alone expr with ⟨operands, rfl⟩ | ⟨_, alone⟩
  · rw [kind.isChain_node] at other
    cases other
  · exact alone

/-- Operands of which none is a chain of this kind are what they contribute. -/
theorem flatMap_pieces_eq_self {operands : List Expr}
    (others : ∀ operand ∈ operands, kind.isChain operand = false) :
    operands.flatMap kind.pieces = operands := by
  induction operands with
  | nil => rfl
  | cons operand operands inductionHypothesis =>
      obtain ⟨first, later⟩ := List.forall_mem_cons.mp others
      rw [List.flatMap_cons, kind.pieces_of_isChain_eq_false first, inductionHypothesis later,
        List.singleton_append]

/-! ### Building -/

theorem build_eq (operands : List Expr) :
    kind.build operands =
      match operands.flatMap kind.pieces with
      | [single] => single
      | chain => kind.node chain := by
  cases kind with
  | concat => rfl
  | union => rfl

theorem build_congr {first second : List Expr}
    (same : first.flatMap kind.pieces = second.flatMap kind.pieces) :
    kind.build first = kind.build second := by
  rw [build_eq, build_eq, same]

theorem build_cases (operands : List Expr) :
    (∃ single, operands.flatMap kind.pieces = [single] ∧ kind.build operands = single) ∨
      ((operands.flatMap kind.pieces).length ≠ 1 ∧
        kind.build operands = kind.node (operands.flatMap kind.pieces)) := by
  rw [build_eq]
  split
  · rename_i single alone
    exact .inl ⟨single, alone, rfl⟩
  · rename_i several
    refine .inr ⟨?_, rfl⟩
    intro length
    obtain ⟨single, alone⟩ := List.length_eq_one_iff.mp length
    exact several single alone

theorem build_of_single {operands : List Expr} {single : Expr}
    (alone : operands.flatMap kind.pieces = [single]) : kind.build operands = single := by
  rw [build_eq, alone]

theorem build_of_length_ne_one {operands chain : List Expr}
    (spliced : operands.flatMap kind.pieces = chain) (several : chain.length ≠ 1) :
    kind.build operands = kind.node chain := by
  rw [← spliced] at several ⊢
  rcases kind.build_cases operands with ⟨single, alone, _⟩ | ⟨_, built⟩
  · exact absurd (congrArg List.length alone) several
  · exact built

/-! ### What chains gather from their operands -/

section Gathering

variable {α : Type} {gather : Expr → List α}
  (gathers : ∀ operands, gather (kind.node operands) = operands.flatMap gather)

include gathers

theorem gather_pieces (expr : Expr) : (kind.pieces expr).flatMap gather = gather expr := by
  rcases kind.node_or_alone expr with ⟨operands, rfl⟩ | ⟨_, alone⟩
  · rw [kind.pieces_node, gathers]
  · rw [alone, List.flatMap_singleton]

/-- Joining the operands of an operand to a chain loses nothing and doubles nothing. -/
theorem gather_build (operands : List Expr) :
    gather (kind.build operands) = operands.flatMap gather := by
  have joined : (operands.flatMap kind.pieces).flatMap gather = operands.flatMap gather := by
    rw [List.flatMap_assoc]
    exact congrArg operands.flatMap (funext (kind.gather_pieces gathers))
  rw [← joined]
  rcases kind.build_cases operands with ⟨single, alone, built⟩ | ⟨_, built⟩
  · rw [built, alone, List.flatMap_singleton]
  · rw [built, gathers]

end Gathering

end ChainKind

/-! ### Conditions on chains -/

/-- A condition on trees that holds of a chain if there are enough operands and it holds of each of
them, none of which is a chain of the same kind.  One operand is not enough, or too many. -/
structure JudgesChains (good : Expr → Bool) (enough : Nat → Prop) : Prop where
  node : ∀ (kind : ChainKind) {operands : List Expr}, good (kind.node operands) = true ↔
    enough operands.length ∧
      ∀ operand ∈ operands, kind.isChain operand = false ∧ good operand = true
  not_one : ¬ enough 1

/-- How such a condition is computed for a chain that `own` tells from other trees. -/
theorem judged_iff {enough : Prop} [Decidable enough] {own good : Expr → Bool}
    {operands : List Expr} {areGood : Bool}
    (areGood_iff : areGood = true ↔ ∀ operand ∈ operands, good operand = true) :
    (decide enough && operands.all (fun operand => !own operand) && areGood) = true ↔
      enough ∧ ∀ operand ∈ operands, own operand = false ∧ good operand = true := by
  rw [Bool.and_eq_true, Bool.and_eq_true, areGood_iff, decide_eq_true_iff, List.all_eq_true,
    and_assoc, ← forall₂_and]
  simp only [Bool.not_eq_true']

namespace JudgesChains

variable {good : Expr → Bool} {enough : Nat → Prop} (judges : JudgesChains good enough)
  (kind : ChainKind) {expr : Expr} {operands : List Expr}

include judges

theorem good_pieces (isGood : good expr = true) :
    ∀ piece ∈ kind.pieces expr, kind.isChain piece = false ∧ good piece = true := by
  rcases kind.node_or_alone expr with ⟨operands, rfl⟩ | ⟨other, alone⟩
  · rw [kind.pieces_node]
    exact ((judges.node kind).mp isGood).2
  · rw [alone]
    exact List.forall_mem_singleton.mpr ⟨other, isGood⟩

theorem good_flatMap_pieces (areGood : ∀ operand ∈ operands, good operand = true) :
    ∀ piece ∈ operands.flatMap kind.pieces, kind.isChain piece = false ∧ good piece = true := by
  intro piece isPiece
  obtain ⟨operand, isOperand, inOperand⟩ := List.mem_flatMap.mp isPiece
  exact judges.good_pieces kind (areGood operand isOperand) piece inOperand

/-- A chain is good if there are enough pieces, unless it collapses to the one piece that it has. -/
theorem good_build (areGood : ∀ operand ∈ operands, good operand = true)
    (sufficing : (operands.flatMap kind.pieces).length ≠ 1 →
      enough (operands.flatMap kind.pieces).length) : good (kind.build operands) = true := by
  have spliced := judges.good_flatMap_pieces kind areGood
  rcases kind.build_cases operands with ⟨single, alone, built⟩ | ⟨several, built⟩
  · rw [alone, List.forall_mem_singleton] at spliced
    rw [built]
    exact spliced.2
  · rw [built]
    exact (judges.node kind).mpr ⟨sufficing several, spliced⟩

theorem length_ne_one (isGood : good (kind.node operands) = true) : operands.length ≠ 1 := by
  intro length
  have sufficing := ((judges.node kind).mp isGood).1
  rw [length] at sufficing
  exact judges.not_one sufficing

/-- A good chain is built from its operands. -/
theorem build_operands (isGood : good (kind.node operands) = true) :
    kind.build operands = kind.node operands := by
  have others := ((judges.node kind).mp isGood).2
  exact kind.build_of_length_ne_one
    (kind.flatMap_pieces_eq_self fun operand isOperand => (others operand isOperand).1)
    (judges.length_ne_one kind isGood)

/-- An operand alone is left as it is. -/
theorem build_singleton (isGood : good expr = true) : kind.build [expr] = expr := by
  have spliced : [expr].flatMap kind.pieces = kind.pieces expr := List.flatMap_singleton _ _
  rcases kind.node_or_alone expr with ⟨operands, rfl⟩ | ⟨_, alone⟩
  · rw [kind.pieces_node] at spliced
    exact kind.build_of_length_ne_one spliced (judges.length_ne_one kind isGood)
  · exact kind.build_of_single (spliced.trans alone)

end JudgesChains

end RegularWords.Expr
