import RegularWords.Proofs.EarliestError
import RegularWords.Proofs.WrittenTree

/-!
The limit on levels.

The parser counts the levels of a tree as it is written, so the limit is one on that tree.  Where a
group holds a chain of the operator around it, the parsed tree is lower than what was counted, and a
text may be refused whose tree is within the limit.
-/

namespace RegularWords.Grammar

variable {alphabet : Alphabet} {text : String} {derivation : UnionDerivation}

/-- A text of the grammar fails for depth or not at all. -/
theorem tooDeep_of_parse_eq_error {error : SyntaxError} (valid : derivation.Valid alphabet)
    (written : derivation.text = text.toList) (failed : parse alphabet text = .error error) :
    error.TooDeep := by
  by_contra shallow
  obtain ⟨read, rest, split, fault⟩ := (parse_eq_error_iff_fault shallow).mp failed
  exact fault.ne_text valid (written.trans split)

theorem height_writtenTree_le_of_parse {expr : Expr} (valid : derivation.Valid alphabet)
    (written : derivation.text = text.toList) (readable : parse alphabet text = .ok expr) :
    derivation.writtenTree.height ≤ depthLimit := by
  obtain ⟨other, derives, _⟩ := parse_eq_ok_iff.mp readable
  have same : derivation = other :=
    UnionDerivation.eq_of_text_eq valid derives.valid (written.trans derives.text.symm)
  rw [same, ← other.joins_writtenTree.height]
  exact derives.height

theorem outcome_parsing_eq_ok_iff_height_le (valid : derivation.Valid alphabet)
    (written : derivation.text = text.toList) (groups : derivation.groups ≤ depthLimit) :
    (parsing alphabet text.toList).outcome = .ok derivation.subtree ↔
      derivation.writtenTree.height ≤ depthLimit := by
  constructor
  · intro readable
    have parsed : parse alphabet text = .ok derivation.subtree.expr := by
      rw [parse, readable]
      rfl
    exact height_writtenTree_le_of_parse valid written parsed
  · intro low
    rw [← derivation.joins_writtenTree.height] at low
    exact outcome_parsing_eq_ok_iff.mpr ⟨derivation, ⟨valid, groups, low, written⟩, rfl⟩

theorem parse_eq_ok_iff_height_le (valid : derivation.Valid alphabet)
    (written : derivation.text = text.toList) (groups : derivation.groups ≤ depthLimit) :
    parse alphabet text = .ok derivation.subtree.expr ↔
      derivation.writtenTree.height ≤ depthLimit := by
  constructor
  · exact height_writtenTree_le_of_parse valid written
  · intro low
    rw [parse, (outcome_parsing_eq_ok_iff_height_le valid written groups).mpr low]
    rfl

theorem exists_tooDeep_of_limit_lt (valid : derivation.Valid alphabet)
    (written : derivation.text = text.toList) (high : depthLimit < derivation.writtenTree.height) :
    ∃ error, parse alphabet text = .error error ∧ error.TooDeep := by
  cases parsed : parse alphabet text with
  | error error => exact ⟨error, rfl, tooDeep_of_parse_eq_error valid written parsed⟩
  | ok expr =>
      have low := height_writtenTree_le_of_parse valid written parsed
      exact absurd low (Nat.not_le.mpr high)

/-- A text whose groups and whose tree are within the limit is read exactly if its tree as it is
written, which is no lower and has the levels that are counted, is within the limit as well; else it
fails for depth.  It is read if no group is joined into the chain around it. -/
theorem limit_on_written_tree (valid : derivation.Valid alphabet)
    (written : derivation.text = text.toList) (groups : derivation.groups ≤ depthLimit)
    (low : derivation.subtree.expr.height ≤ depthLimit) :
    derivation.subtree.expr = derivation.writtenTree.normalized ∧
      derivation.subtree.height = derivation.writtenTree.height ∧
        derivation.subtree.expr.height ≤ derivation.subtree.height ∧
          ((parsing alphabet text.toList).outcome = .ok derivation.subtree ↔
            derivation.writtenTree.height ≤ depthLimit) ∧
            (parse alphabet text = .ok derivation.subtree.expr ↔
              derivation.writtenTree.height ≤ depthLimit) ∧
              (depthLimit < derivation.writtenTree.height →
                ∃ error, parse alphabet text = .error error ∧ error.TooDeep) ∧
                (derivation.writtenTree.isNormal = true →
                  parse alphabet text = .ok derivation.writtenTree) := by
  have joins := derivation.joins_writtenTree
  have reads := parse_eq_ok_iff_height_le valid written groups
  refine ⟨joins.expr, joins.height, derivation.height_expr_le,
    outcome_parsing_eq_ok_iff_height_le valid written groups, reads,
    exists_tooDeep_of_limit_lt valid written, ?_⟩
  intro normal
  have same : derivation.subtree.expr = derivation.writtenTree := by
    rw [joins.expr, Expr.normalized_of_isNormal normal]
  rw [same] at low reads
  exact reads.mpr low

/-! ### Groups in the first place of a union -/

def letterAlternative : ConcatDerivation :=
  .last (.starred (.symbol 'a') 0)

/-- `a+a`, put into a group beside another `a` a number of times. -/
def leftGrouped : Nat → UnionDerivation
  | 0 => .more letterAlternative (.last letterAlternative)
  | groups + 1 =>
      .more (.last (.starred (.group (leftGrouped groups)) 0)) (.last letterAlternative)

theorem valid_leftGrouped (symbol : 'a' ∈ alphabet.symbols) (groups : Nat) :
    (leftGrouped groups).Valid alphabet := by
  have letter : letterAlternative.Valid alphabet := ⟨symbol, by decide, by decide⟩
  induction groups with
  | zero => exact ⟨letter, letter⟩
  | succ groups inductionHypothesis => exact ⟨inductionHypothesis, letter⟩

theorem groups_leftGrouped (groups : Nat) : (leftGrouped groups).groups = groups := by
  induction groups with
  | zero => rfl
  | succ groups inductionHypothesis =>
      change max ((leftGrouped groups).groups + 1) 0 = groups + 1
      rw [inductionHypothesis, Nat.max_zero]

/-- In `(a+a)+a` the inner union is joined into the outer one. -/
theorem limit_on_written_tree_left_grouped :
    let alphabet : Alphabet := ⟨['a'], by decide, by decide⟩
    (leftGrouped 1).Valid alphabet ∧ (leftGrouped 1).text = "(a+a)+a".toList ∧
      (leftGrouped 1).groups ≤ depthLimit ∧ (leftGrouped 1).subtree.expr.height ≤ depthLimit ∧
        (leftGrouped 1).subtree.height = 2 ∧ (leftGrouped 1).subtree.expr.height = 1 ∧
          parse alphabet "(a+a)+a" =
            .ok (.union [.literal 'a', .literal 'a', .literal 'a']) := by
  intro alphabet
  have valid : (leftGrouped 1).Valid alphabet := valid_leftGrouped List.mem_cons_self 1
  have written : (leftGrouped 1).text = "(a+a)+a".toList := by decide
  have groups : (leftGrouped 1).groups ≤ depthLimit := by decide
  have low : (leftGrouped 1).subtree.expr.height ≤ depthLimit := by decide
  have high : (leftGrouped 1).writtenTree.height ≤ depthLimit := by decide
  exact ⟨valid, written, groups, low, rfl, rfl,
    (limit_on_written_tree valid written groups low).2.2.2.2.1.mpr high⟩

/-- In 256 groups the tree has one level, but 257 are counted. -/
theorem parse_refuses_low_tree :
    let alphabet : Alphabet := ⟨['a'], by decide, by decide⟩
    let text := String.ofList (leftGrouped 256).text
    (leftGrouped 256).Valid alphabet ∧ (leftGrouped 256).text = text.toList ∧
      (leftGrouped 256).groups ≤ depthLimit ∧ (leftGrouped 256).subtree.expr.height = 1 ∧
        (leftGrouped 256).subtree.height = 257 ∧
          ∃ error, parse alphabet text = .error error ∧ error.TooDeep := by
  intro alphabet text
  have valid : (leftGrouped 256).Valid alphabet := valid_leftGrouped List.mem_cons_self 256
  have written : (leftGrouped 256).text = text.toList := String.toList_ofList.symm
  have groups : (leftGrouped 256).groups ≤ depthLimit := by
    rw [groups_leftGrouped, depthLimit]
  have high : depthLimit < (leftGrouped 256).writtenTree.height := by decide +kernel
  exact ⟨valid, written, groups, by decide +kernel, by decide +kernel,
    exists_tooDeep_of_limit_lt valid written high⟩

end RegularWords.Grammar
