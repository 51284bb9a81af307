import RegularWords.Proofs.Chains

/-!
Chains that are built group by group.

A tree is joined if no chain in it has exactly one operand and none has a chain of its own operator as
an operand.  Chains without operands are joined as well, which is all that sets joined trees apart
from normal forms.  How the joined operands of a chain are put into groups does not show in the tree,
so the binary constructors are associative, and the tree is joined again.
-/

namespace RegularWords.Expr

mutual

def isJoined : Expr → Bool
  | .literal _ => true
  | .empty => true
  | .concat factors =>
      decide (factors.length ≠ 1) && factors.all (fun factor => !factor.isConcat) &&
        areJoined factors
  | .union alternatives =>
      decide (alternatives.length ≠ 1) &&
        alternatives.all (fun alternative => !alternative.isUnion) && areJoined alternatives
  | .star inner => isJoined inner

def areJoined : List Expr → Bool
  | [] => true
  | operand :: operands => isJoined operand && areJoined operands

end

theorem areJoined_iff {operands : List Expr} :
    areJoined operands = true ↔ ∀ operand ∈ operands, operand.isJoined = true := by
  induction operands with
  | nil => simp [areJoined]
  | cons operand operands inductionHypothesis =>
      rw [areJoined, Bool.and_eq_true, inductionHypothesis, List.forall_mem_cons]

theorem judges_isJoined : JudgesChains isJoined (· ≠ 1) where
  node := by
    intro kind operands
    cases kind with
    | concat =>
        change (Expr.concat operands).isJoined = true ↔ _
        rw [isJoined]
        exact judged_iff areJoined_iff
    | union =>
        change (Expr.union operands).isJoined = true ↔ _
        rw [isJoined]
        exact judged_iff areJoined_iff
  not_one := not_not_intro rfl

/-! ### Groups -/

namespace JudgesChains

variable {good : Expr → Bool} {enough : Nat → Prop} (judges : JudgesChains good enough)
  (kind : ChainKind)

include judges

/-- A chain of good operands contributes what its operands contribute, also if it collapses to the one
piece that it has. -/
theorem pieces_build {operands : List Expr} (areGood : ∀ operand ∈ operands, good operand = true) :
    kind.pieces (kind.build operands) = operands.flatMap kind.pieces := by
  rcases kind.build_cases operands with ⟨single, alone, built⟩ | ⟨_, built⟩
  · have spliced := judges.good_flatMap_pieces kind areGood
    rw [alone, List.forall_mem_singleton] at spliced
    rw [built, alone, kind.pieces_of_isChain_eq_false spliced.1]
  · rw [built, kind.pieces_node]

/-- The chain of some groups is the chain of what is in them. -/
theorem build_map_build {groups : List (List Expr)}
    (areGood : ∀ group ∈ groups, ∀ operand ∈ group, good operand = true) :
    kind.build (groups.map kind.build) = kind.build groups.flatten := by
  apply kind.build_congr
  induction groups with
  | nil => rfl
  | cons group groups inductionHypothesis =>
      obtain ⟨first, others⟩ := List.forall_mem_cons.mp areGood
      rw [List.map_cons, List.flatMap_cons, judges.pieces_build kind first,
        inductionHypothesis others, List.flatten_cons, List.flatMap_append]

theorem build_append {first second : List Expr}
    (firstGood : ∀ operand ∈ first, good operand = true)
    (secondGood : ∀ operand ∈ second, good operand = true) :
    kind.build [kind.build first, kind.build second] = kind.build (first ++ second) := by
  have grouped := judges.build_map_build kind
    (List.forall_mem_cons.mpr ⟨firstGood, List.forall_mem_singleton.mpr secondGood⟩)
  rwa [List.flatten_cons, List.flatten_singleton] at grouped

theorem build_assoc {first second third : Expr} (firstGood : good first = true)
    (secondGood : good second = true) (thirdGood : good third = true) :
    kind.build [kind.build [first, second], third] =
      kind.build [first, kind.build [second, third]] := by
  have single {operand : Expr} (isGood : good operand = true) :
      ∀ other ∈ [operand], good other = true := List.forall_mem_singleton.mpr isGood
  have pair {left right : Expr} (leftGood : good left = true) (rightGood : good right = true) :
      ∀ other ∈ [left, right], good other = true :=
    List.forall_mem_cons.mpr ⟨leftGood, single rightGood⟩
  calc
    kind.build [kind.build [first, second], third]
      = kind.build [kind.build [first, second], kind.build [third]] := by
        rw [judges.build_singleton kind thirdGood]
    _ = kind.build [first, second, third] :=
        judges.build_append kind (pair firstGood secondGood) (single thirdGood)
    _ = kind.build [kind.build [first], kind.build [second, third]] :=
        (judges.build_append kind (single firstGood) (pair secondGood thirdGood)).symm
    _ = kind.build [first, kind.build [second, third]] := by
        rw [judges.build_singleton kind firstGood]

end JudgesChains

/-- The chain of some groups of joined trees is that of all their trees, whether groups are empty or
not; so the binary constructors are associative.  What the constructors build of joined trees is
joined. -/
theorem grouping_unseen :
    (∀ groups : List (List Expr),
      (∀ group ∈ groups, ∀ operand ∈ group, operand.isJoined = true) →
        concatAll (groups.map concatAll) = concatAll groups.flatten ∧
          unionAll (groups.map unionAll) = unionAll groups.flatten) ∧
    (∀ first second third : Expr,
      first.isJoined = true → second.isJoined = true → third.isJoined = true →
        (first.followedBy second).followedBy third = first.followedBy (second.followedBy third) ∧
          (first.orElse second).orElse third = first.orElse (second.orElse third)) ∧
    (∀ operands : List Expr, (∀ operand ∈ operands, operand.isJoined = true) →
      (concatAll operands).isJoined = true ∧ (unionAll operands).isJoined = true) ∧
    ∀ inner : Expr, inner.isJoined = true → (Expr.star inner).isJoined = true := by
  refine ⟨?_, ?_, ?_, ?_⟩
  · intro groups joined
    exact ⟨judges_isJoined.build_map_build .concat joined,
      judges_isJoined.build_map_build .union joined⟩
  · intro first second third firstJoined secondJoined thirdJoined
    exact ⟨judges_isJoined.build_assoc .concat firstJoined secondJoined thirdJoined,
      judges_isJoined.build_assoc .union firstJoined secondJoined thirdJoined⟩
  · intro operands joined
    exact ⟨judges_isJoined.good_build .concat joined id,
      judges_isJoined.good_build .union joined id⟩
  · intro inner joined
    rw [isJoined]
    exact joined

/-- A group without operands and a concatenation of none contribute nothing to a concatenation; to a
union the concatenation does. -/
theorem grouping_unseen_empty_groups :
    let letters := Expr.union [.literal 'a', .literal 'b']
    let nothing := Expr.concat []
    let groups := [[letters, nothing], [], [.star (.union []), .concat [.empty, letters]]]
    (∀ group ∈ groups, ∀ operand ∈ group, operand.isJoined = true) ∧
      concatAll (groups.map concatAll) =
        .concat [letters, .star (.union []), .empty, letters] ∧
      unionAll (groups.map unionAll) =
        .union [.literal 'a', .literal 'b', nothing, .star (.union []),
          .concat [.empty, letters]] ∧
      (letters.followedBy nothing).followedBy letters = .concat [letters, letters] ∧
      (letters.orElse nothing).orElse letters = letters.orElse (nothing.orElse letters) ∧
      (concatAll groups.flatten).isJoined = true := by
  intro letters nothing groups
  have joined : ∀ group ∈ groups, ∀ operand ∈ group, operand.isJoined = true := by decide
  obtain ⟨concats, unions⟩ := grouping_unseen.1 groups joined
  obtain ⟨followed, chosen⟩ := grouping_unseen.2.1 letters nothing letters rfl rfl rfl
  have inAll : ∀ operand ∈ groups.flatten, operand.isJoined = true := by decide
  exact ⟨joined, concats.trans rfl, unions.trans rfl, followed.trans rfl, chosen,
    (grouping_unseen.2.2.1 groups.flatten inAll).1⟩

/-- Trees that are not joined need not be joined alike from the left and from the right. -/
example :
    let doubled := Expr.concat [.concat [.literal 'a', .literal 'b']]
    (doubled.followedBy (.concat [])).followedBy (.literal 'c') ≠
      doubled.followedBy ((Expr.concat []).followedBy (.literal 'c')) := by
  decide

end RegularWords.Expr
