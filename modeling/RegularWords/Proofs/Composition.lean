import RegularWords.Proofs.DepthLimit
import RegularWords.Proofs.Grouping

/-!
Texts that are composed of texts.

Behind a whole union a plus sign or a closing parenthesis is an operator, whatever the symbols are.
So the derivation of a text is found unchanged in that of a larger text which goes on with a plus sign
or has the text in parentheses, and the tree of the larger text is built from the trees of its parts.
Nothing but depth can be in the way.
-/

namespace RegularWords.Grammar

variable {alphabet : Alphabet}

/-! ### Composed derivations -/

def UnionDerivation.orElse : UnionDerivation → UnionDerivation → UnionDerivation
  | .last alternative, second => .more alternative second
  | .more alternative later, second => .more alternative (later.orElse second)

def UnionDerivation.grouped (inside : UnionDerivation) (stars : Nat) : StarDerivation :=
  .starred (.group inside) stars

def UnionDerivation.followedBy (first second : UnionDerivation) : ConcatDerivation :=
  .more (first.grouped 0) (.last (second.grouped 0))

def StarDerivation.alone (factor : StarDerivation) : UnionDerivation :=
  .last (.last factor)

theorem UnionDerivation.text_orElse (first second : UnionDerivation) :
    (first.orElse second).text = first.text ++ '+' :: second.text := by
  fun_induction UnionDerivation.orElse first second with
  | case1 => rfl
  | case2 alternative later second inductionHypothesis =>
      rw [text, inductionHypothesis, text, List.append_assoc, List.cons_append]

theorem UnionDerivation.alternatives_orElse (first second : UnionDerivation) :
    (first.orElse second).alternatives = first.alternatives ++ second.alternatives := by
  fun_induction UnionDerivation.orElse first second with
  | case1 => rfl
  | case2 alternative later second inductionHypothesis =>
      rw [alternatives, inductionHypothesis, alternatives, List.cons_append]

theorem UnionDerivation.groups_orElse (first second : UnionDerivation) :
    (first.orElse second).groups = max first.groups second.groups := by
  fun_induction UnionDerivation.orElse first second with
  | case1 => rfl
  | case2 alternative later second inductionHypothesis =>
      rw [groups, inductionHypothesis, groups, Nat.max_assoc]

theorem UnionDerivation.valid_orElse {first second : UnionDerivation}
    (firstValid : first.Valid alphabet) (secondValid : second.Valid alphabet) :
    (first.orElse second).Valid alphabet := by
  fun_induction UnionDerivation.orElse first second with
  | case1 => exact ⟨firstValid, secondValid⟩
  | case2 alternative later second inductionHypothesis =>
      rw [UnionDerivation.Valid] at firstValid
      exact ⟨firstValid.1, inductionHypothesis firstValid.2 secondValid⟩

theorem UnionDerivation.text_grouped (inside : UnionDerivation) (stars : Nat) :
    (inside.grouped stars).text = '(' :: (inside.text ++ [')']) ++ List.replicate stars '*' := by
  rw [grouped, StarDerivation.text, PrimaryDerivation.text]

/-- An opening parenthesis starts a factor. -/
theorem UnionDerivation.valid_followedBy {first second : UnionDerivation}
    (firstValid : first.Valid alphabet) (secondValid : second.Valid alphabet) :
    (first.followedBy second).Valid alphabet := by
  refine ⟨firstValid, secondValid, ?_⟩
  rw [ConcatDerivation.text, text_grouped]
  exact startsFactor_group

/-! ### Their trees -/

theorem Subtree.chain_singleton {build : List Expr → Expr} {operand : Subtree}
    (alone : build [operand.expr] = operand.expr) : Subtree.chain build [operand] = operand :=
  congrArg₂ Subtree.mk alone (Nat.max_zero operand.height)

theorem StarDerivation.subtree_alone (factor : StarDerivation) :
    factor.alone.subtree = factor.subtree := by
  have normal := factor.isNormal_subtree
  have single : ConcatDerivation.subtree (.last factor) = factor.subtree :=
    Subtree.chain_singleton (Expr.judges_isNormal.build_singleton .concat normal)
  change Subtree.chain Expr.unionAll [ConcatDerivation.subtree (.last factor)] = factor.subtree
  rw [single]
  exact Subtree.chain_singleton (Expr.judges_isNormal.build_singleton .union normal)

theorem UnionDerivation.subtree_followedBy (first second : UnionDerivation) :
    (UnionDerivation.last (first.followedBy second)).subtree =
      Subtree.chain Expr.concatAll [first.subtree, second.subtree] := by
  have normal := (first.followedBy second).isNormal_subtree
  exact Subtree.chain_singleton (Expr.judges_isNormal.build_singleton .union normal)

theorem UnionDerivation.expr_orElse (first second : UnionDerivation) :
    (first.orElse second).subtree.expr = first.subtree.expr.orElse second.subtree.expr := by
  have normal (derivation : UnionDerivation) :
      ∀ operand ∈ derivation.alternatives.map Subtree.expr, operand.isNormal = true :=
    List.forall_mem_map.mpr derivation.isNormal_alternatives
  change Expr.unionAll ((first.orElse second).alternatives.map Subtree.expr) = _
  rw [alternatives_orElse, List.map_append]
  exact (Expr.judges_isNormal.build_append .union (normal first) (normal second)).symm

theorem Subtree.height_chain_le_iff {build : List Expr → Expr} {operands : List Subtree}
    {bound : Nat} (several : 2 ≤ operands.length) :
    (Subtree.chain build operands).height ≤ bound ↔
      ∀ operand ∈ operands, operand.height < bound := by
  change (operands.map Subtree.height).foldr max 0 + (if operands.length ≤ 1 then 0 else 1) ≤
    bound ↔ _
  rw [if_neg (Nat.not_le.mpr several)]
  cases bound with
  | zero =>
      have someOperand : operands ≠ [] := List.ne_nil_of_length_pos (Nat.zero_lt_of_lt several)
      obtain ⟨operand, isOperand⟩ := List.exists_mem_of_ne_nil operands someOperand
      exact iff_of_false (Nat.not_succ_le_zero _)
        fun low => Nat.not_lt_zero _ (low operand isOperand)
  | succ bound =>
      rw [Nat.succ_le_succ_iff, foldr_max_le_iff, List.forall_mem_map]
      simp only [Nat.lt_succ_iff]

theorem UnionDerivation.alternatives_length_pos (derivation : UnionDerivation) :
    0 < derivation.alternatives.length :=
  List.length_pos_iff.mpr derivation.alternatives_ne_nil

/-! ### Reading them -/

def ReadsUnlessTooDeep (alphabet : Alphabet) (text : String) (expr : Expr) : Prop :=
  parse alphabet text = .ok expr ∨
    ∃ error, parse alphabet text = .error error ∧ error.TooDeep

/-- What comes of a text whose depth is within the limits if and only if a condition holds. -/
structure ReadsWithin (alphabet : Alphabet) (text : String) (expr : Expr) (limits : Prop) :
    Prop where
  unlessTooDeep : ReadsUnlessTooDeep alphabet text expr
  eq_ok_iff : parse alphabet text = .ok expr ↔ limits

theorem parse_eq_ok_iff_limits {text : String} {derivation : UnionDerivation}
    (valid : derivation.Valid alphabet) (written : derivation.text = text.toList) :
    parse alphabet text = .ok derivation.subtree.expr ↔
      derivation.groups ≤ depthLimit ∧ derivation.subtree.height ≤ depthLimit := by
  rw [parse_eq_ok_iff]
  constructor
  · rintro ⟨other, derives, _⟩
    rw [UnionDerivation.eq_of_text_eq valid derives.valid (written.trans derives.text.symm)]
    exact ⟨derives.groups, derives.height⟩
  · rintro ⟨groups, height⟩
    exact ⟨derivation, ⟨valid, groups, height, written⟩, rfl⟩

theorem readsUnlessTooDeep_of_valid {text : String} {derivation : UnionDerivation}
    (valid : derivation.Valid alphabet) (written : derivation.text = text.toList) :
    ReadsUnlessTooDeep alphabet text derivation.subtree.expr := by
  cases parsed : parse alphabet text with
  | error error => exact .inr ⟨error, parsed, tooDeep_of_parse_eq_error valid written parsed⟩
  | ok expr =>
      obtain ⟨other, derives, rfl⟩ := parse_eq_ok_iff.mp parsed
      rw [UnionDerivation.eq_of_text_eq valid derives.valid (written.trans derives.text.symm)]
      exact .inl parsed

theorem readsWithin_of_valid {text : String} (derivation : UnionDerivation) {expr : Expr}
    {limits : Prop} (valid : derivation.Valid alphabet) (written : derivation.text = text.toList)
    (tree : derivation.subtree.expr = expr)
    (within : derivation.groups ≤ depthLimit ∧ derivation.subtree.height ≤ depthLimit ↔ limits) :
    ReadsWithin alphabet text expr limits := by
  rw [← tree]
  exact ⟨readsUnlessTooDeep_of_valid valid written,
    (parse_eq_ok_iff_limits valid written).trans within⟩

section

variable {first second : String} {left right : UnionDerivation}
  (leftDerives : left.Derives alphabet first.toList)
  (rightDerives : right.Derives alphabet second.toList)

include leftDerives

theorem readsWithin_group :
    ReadsWithin alphabet ("(" ++ first ++ ")") left.subtree.expr (left.groups < depthLimit) := by
  have tree : (left.grouped 0).alone.subtree = left.subtree := StarDerivation.subtree_alone _
  refine readsWithin_of_valid (left.grouped 0).alone leftDerives.valid ?_ ?_ ?_
  · change (left.grouped 0).text = _
    rw [UnionDerivation.text_grouped, leftDerives.text, String.toList_append, String.toList_append]
    exact List.append_nil _
  · rw [tree]
  · rw [tree]
    exact and_iff_left leftDerives.height

theorem readsWithin_star :
    ReadsWithin alphabet ("(" ++ first ++ ")*") (.star left.subtree.expr)
      (left.groups < depthLimit ∧ left.subtree.height < depthLimit) := by
  have tree : (left.grouped 1).alone.subtree =
      { expr := .star left.subtree.expr, height := left.subtree.height + 1 } :=
    StarDerivation.subtree_alone _
  refine readsWithin_of_valid (left.grouped 1).alone leftDerives.valid ?_ ?_ ?_
  · change (left.grouped 1).text = _
    rw [UnionDerivation.text_grouped, leftDerives.text, String.toList_append, String.toList_append,
      List.append_assoc]
    exact congrArg ('(' :: ·) (List.append_assoc _ _ _)
  · rw [tree]
  · rw [tree]
    exact Iff.rfl

include rightDerives

theorem readsWithin_orElse :
    ReadsWithin alphabet (first ++ "+" ++ second) (left.subtree.expr.orElse right.subtree.expr)
      (∀ alternative ∈ left.alternatives ++ right.alternatives,
        alternative.height < depthLimit) := by
  refine readsWithin_of_valid (left.orElse right)
    (UnionDerivation.valid_orElse leftDerives.valid rightDerives.valid) ?_
    (UnionDerivation.expr_orElse left right) ?_
  · rw [UnionDerivation.text_orElse, leftDerives.text, rightDerives.text, String.toList_append,
      String.toList_append, List.append_assoc]
    rfl
  · have several : 2 ≤ (left.orElse right).alternatives.length := by
      have leftSome := left.alternatives_length_pos
      have rightSome := right.alternatives_length_pos
      rw [UnionDerivation.alternatives_orElse, List.length_append]
      omega
    rw [← UnionDerivation.alternatives_orElse, UnionDerivation.groups_orElse,
      and_iff_right (Nat.max_le.mpr ⟨leftDerives.groups, rightDerives.groups⟩)]
    exact Subtree.height_chain_le_iff several

theorem readsWithin_followedBy :
    ReadsWithin alphabet ("(" ++ first ++ ")(" ++ second ++ ")")
      (left.subtree.expr.followedBy right.subtree.expr)
      ((left.groups < depthLimit ∧ right.groups < depthLimit) ∧
        left.subtree.height < depthLimit ∧ right.subtree.height < depthLimit) := by
  have tree := UnionDerivation.subtree_followedBy left right
  refine readsWithin_of_valid (.last (left.followedBy right))
    (UnionDerivation.valid_followedBy leftDerives.valid rightDerives.valid) ?_ ?_ ?_
  · change (left.grouped 0).text ++ (right.grouped 0).text = _
    rw [UnionDerivation.text_grouped, UnionDerivation.text_grouped, leftDerives.text,
      rightDerives.text]
    simp only [String.toList_append, List.append_assoc, List.cons_append]
    rfl
  · rw [tree]
    rfl
  · rw [tree, Subtree.height_chain_le_iff (show 2 ≤ [left.subtree, right.subtree].length from
      Nat.le_refl 2), List.forall_mem_cons, List.forall_mem_singleton]
    exact and_congr_left' Nat.max_le

end

/-- Texts that are read can be put together with a plus sign or in parentheses.  What comes of it is
the expression put together from theirs, unless the text is too deep; it is read exactly if there is
room for a further group around each part in parentheses, and for a further level on each part that
becomes an operand. -/
theorem composed_texts {first second : String} {left right : Expr}
    (firstReadable : parse alphabet first = .ok left)
    (secondReadable : parse alphabet second = .ok right) :
    ReadsUnlessTooDeep alphabet (first ++ "+" ++ second) (left.orElse right) ∧
    ReadsUnlessTooDeep alphabet ("(" ++ first ++ ")(" ++ second ++ ")") (left.followedBy right) ∧
    ReadsUnlessTooDeep alphabet ("(" ++ first ++ ")*") (.star left) ∧
    ReadsUnlessTooDeep alphabet ("(" ++ first ++ ")") left ∧
    ∃ one other : UnionDerivation,
      one.Derives alphabet first.toList ∧ other.Derives alphabet second.toList ∧
      (parse alphabet (first ++ "+" ++ second) = .ok (left.orElse right) ↔
        ∀ alternative ∈ one.alternatives ++ other.alternatives,
          alternative.height < depthLimit) ∧
      (parse alphabet ("(" ++ first ++ ")(" ++ second ++ ")") = .ok (left.followedBy right) ↔
        (one.groups < depthLimit ∧ other.groups < depthLimit) ∧
          one.subtree.height < depthLimit ∧ other.subtree.height < depthLimit) ∧
      (parse alphabet ("(" ++ first ++ ")*") = .ok (.star left) ↔
        one.groups < depthLimit ∧ one.subtree.height < depthLimit) ∧
      (parse alphabet ("(" ++ first ++ ")") = .ok left ↔ one.groups < depthLimit) := by
  obtain ⟨one, oneDerives, rfl⟩ := parse_eq_ok_iff.mp firstReadable
  obtain ⟨other, otherDerives, rfl⟩ := parse_eq_ok_iff.mp secondReadable
  have union := readsWithin_orElse oneDerives otherDerives
  have concat := readsWithin_followedBy oneDerives otherDerives
  have star := readsWithin_star oneDerives
  have group := readsWithin_group oneDerives
  exact ⟨union.unlessTooDeep, concat.unlessTooDeep, star.unlessTooDeep, group.unlessTooDeep,
    one, other, oneDerives, otherDerives, union.eq_ok_iff, concat.eq_ok_iff, star.eq_ok_iff,
    group.eq_ok_iff⟩

/-- The symbol `)` under a star ends the first text, and the symbol `+` starts the second one. -/
theorem composed_texts_operator_symbols :
    let alphabet : Alphabet := ⟨['a', ')', '+'], by decide, by decide⟩
    let first := "a+)*"
    let second := "++a"
    let left := Expr.union [.literal 'a', .star (.literal ')')]
    let right := Expr.union [.literal '+', .literal 'a']
    parse alphabet first = .ok left ∧ parse alphabet second = .ok right ∧
      ReadsUnlessTooDeep alphabet "a+)*+++a"
        (.union [.literal 'a', .star (.literal ')'), .literal '+', .literal 'a']) ∧
      ReadsUnlessTooDeep alphabet "(a+)*)(++a)" (.concat [left, right]) ∧
      ReadsUnlessTooDeep alphabet "(a+)*)*" (.star left) ∧
      ReadsUnlessTooDeep alphabet "(a+)*)" left ∧
      parse alphabet "a+)*+++a" =
        .ok (.union [.literal 'a', .star (.literal ')'), .literal '+', .literal 'a']) ∧
      parse alphabet "(a+)*)(++a)" = .ok (.concat [left, right]) := by
  intro alphabet first second left right
  have firstReadable : parse alphabet first = .ok left := by decide +kernel
  have secondReadable : parse alphabet second = .ok right := by decide +kernel
  obtain ⟨union, concat, star, group, _⟩ := composed_texts firstReadable secondReadable
  exact ⟨firstReadable, secondReadable, union, concat, star, group, by decide +kernel,
    by decide +kernel⟩

end RegularWords.Grammar
