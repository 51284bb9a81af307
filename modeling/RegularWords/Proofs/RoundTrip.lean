import RegularWords.Proofs.Parentheses
import RegularWords.Proofs.WrittenTree

/-!
Expressions that were read, printed and read again.

Behind a factor the characters `+`, `*` and `)` are operators, even if they are symbols.  There such a
literal can be written in a group of its own, but it is printed without one, and its expression is
not read back.  All other expressions are.
-/

namespace RegularWords

/-! ### Literals of chains -/

namespace Expr

theorem chainLiterals_eq_flatMap (operands : List Expr) :
    chainLiterals operands = operands.flatMap literals := by
  induction operands with
  | nil => rfl
  | cons operand operands inductionHypothesis =>
      rw [chainLiterals, inductionHypothesis, List.flatMap_cons]

theorem literals_build (kind : ChainKind) (operands : List Expr) :
    (kind.build operands).literals = chainLiterals operands := by
  rw [chainLiterals_eq_flatMap]
  apply kind.gather_build
  intro operands
  rw [← chainLiterals_eq_flatMap]
  cases kind with
  | concat => rfl
  | union => rfl

theorem chainLiterals_singleton (expr : Expr) : chainLiterals [expr] = expr.literals := by
  rw [chainLiterals, chainLiterals, List.append_nil]

end Expr

namespace Grammar

variable {alphabet : Alphabet} {text : String} {expr : Expr}

/-! ### Literals of derivations -/

theorem Subtree.literals_starred (subtree : Subtree) (stars : Nat) :
    (subtree.starred stars).expr.literals = subtree.expr.literals := by
  induction stars generalizing subtree with
  | zero => rfl
  | succ stars inductionHypothesis =>
      rw [Subtree.starred, inductionHypothesis, Expr.literals]

theorem Subtree.literals_concat (operands : List Subtree) :
    (Subtree.chain Expr.concatAll operands).expr.literals =
      Expr.chainLiterals (operands.map Subtree.expr) :=
  Expr.literals_build .concat _

theorem Subtree.literals_union (operands : List Subtree) :
    (Subtree.chain Expr.unionAll operands).expr.literals =
      Expr.chainLiterals (operands.map Subtree.expr) :=
  Expr.literals_build .union _

mutual

theorem PrimaryDerivation.readable_literals : ∀ {derivation : PrimaryDerivation},
    derivation.Valid alphabet → Readable alphabet derivation.subtree.expr.literals
  | .group inside, valid => by
      rw [PrimaryDerivation.Valid] at valid
      rw [PrimaryDerivation.subtree, Subtree.literals_union]
      exact UnionDerivation.readable_literals valid
  | .emptyWord, _ => List.forall_mem_nil _
  | .symbol _, valid => List.forall_mem_singleton.mpr valid

theorem StarDerivation.readable_literals : ∀ {derivation : StarDerivation},
    derivation.Valid alphabet → Readable alphabet derivation.subtree.expr.literals
  | .starred primary stars, valid => by
      rw [StarDerivation.Valid] at valid
      rw [StarDerivation.subtree, Subtree.literals_starred]
      exact PrimaryDerivation.readable_literals valid

theorem ConcatDerivation.readable_literals : ∀ {derivation : ConcatDerivation},
    derivation.Valid alphabet →
      Readable alphabet (Expr.chainLiterals (derivation.factors.map Subtree.expr))
  | .last factor, valid => by
      rw [ConcatDerivation.Valid] at valid
      rw [ConcatDerivation.factors, List.map_singleton, Expr.chainLiterals_singleton]
      exact StarDerivation.readable_literals valid
  | .more factor later, valid => by
      rw [ConcatDerivation.Valid] at valid
      rw [ConcatDerivation.factors, List.map_cons, Expr.chainLiterals]
      exact List.forall_mem_append.mpr
        ⟨StarDerivation.readable_literals valid.1, ConcatDerivation.readable_literals valid.2.1⟩

theorem UnionDerivation.readable_literals : ∀ {derivation : UnionDerivation},
    derivation.Valid alphabet →
      Readable alphabet (Expr.chainLiterals (derivation.alternatives.map Subtree.expr))
  | .last alternative, valid => by
      rw [UnionDerivation.Valid] at valid
      rw [UnionDerivation.alternatives, List.map_singleton, Expr.chainLiterals_singleton,
        Subtree.literals_concat]
      exact ConcatDerivation.readable_literals valid
  | .more alternative later, valid => by
      rw [UnionDerivation.Valid] at valid
      rw [UnionDerivation.alternatives, List.map_cons, Expr.chainLiterals,
        Subtree.literals_concat]
      exact List.forall_mem_append.mpr
        ⟨ConcatDerivation.readable_literals valid.1, UnionDerivation.readable_literals valid.2⟩

end

/-! ### Reading what was printed -/

theorem readable_of_parse (readable : parse alphabet text = .ok expr) :
    Readable alphabet expr.literals := by
  obtain ⟨derivation, derives, rfl⟩ := parse_eq_ok_iff.mp readable
  rw [UnionDerivation.subtree, Subtree.literals_union]
  exact UnionDerivation.readable_literals derives.valid

theorem height_le_of_parse (readable : parse alphabet text = .ok expr) :
    expr.height ≤ depthLimit := by
  obtain ⟨derivation, derives, rfl⟩ := parse_eq_ok_iff.mp readable
  exact Nat.le_trans derivation.height_expr_le derives.height

/-- Only legible expressions have a printed text that is read as them. -/
theorem legible_of_parse_print (readBack : parse alphabet expr.print = .ok expr) :
    expr.Legible := by
  obtain ⟨derivation, derives, tree⟩ := parse_eq_ok_iff.mp readBack
  have text : derivation.text = expr.charactersAt 0 := by
    rw [derives.text, Expr.print, String.toList_ofList, Expr.charactersAt_of_le (Nat.zero_le _)]
  have least := UnionDerivation.printsLeast derives.valid
  rw [tree, text] at least
  exact (least.printed (Nat.le_refl _)).2

/-- An expression that was read is read back from its printed text exactly if each factor behind
another one is printed with a character that starts a factor there, and so if none of its literals
is an operator behind a factor. -/
theorem parse_print_of_parse (readable : parse alphabet text = .ok expr) :
    (parse alphabet expr.print = .ok expr ↔ expr.Legible) ∧
      ((∀ symbol ∈ expr.literals, symbol ≠ '+' ∧ symbol ≠ '*' ∧ symbol ≠ ')') →
        parse alphabet expr.print = .ok expr) := by
  have nonempty := unionsNonempty_of_parse readable
  have low := height_le_of_parse readable
  have literals := readable_of_parse readable
  have normal : expr.normalized = expr := Expr.normalized_of_isNormal (isNormal_of_parse readable)
  refine ⟨⟨legible_of_parse_print, ?_⟩, ?_⟩
  · intro legible
    rw [parse_print_of_legible nonempty low legible literals, normal]
  · intro noOperator
    have spells : Spells alphabet expr.literals := by
      intro symbol isLiteral
      obtain ⟨isSymbol, notOpening, notEmptyWord⟩ := literals symbol isLiteral
      obtain ⟨notPlus, notStar, notClosing⟩ := noOperator symbol isLiteral
      refine ⟨isSymbol, ?_⟩
      simp [Alphabet.operators, notPlus, notStar, notOpening, notClosing, notEmptyWord]
    rw [parse_print_of_spells nonempty low spells, normal]

/-- In the first place a plus sign is a literal without its group. -/
theorem parse_print_of_parse_first_factor :
    let alphabet : Alphabet := ⟨['a', '+'], by decide, by decide⟩
    let expr := Expr.concat [.star (.literal '+'), .literal 'a']
    parse alphabet "(+)*(a)" = .ok expr ∧ expr.Legible ∧ expr.print = "+*a" ∧
      parse alphabet "+*a" = .ok expr := by
  intro alphabet expr
  have readable : parse alphabet "(+)*(a)" = .ok expr := by decide +kernel
  have starts : StartsFactor ['a'] := by
    intro initial isInitial
    cases Option.some.inj isInitial
    decide
  have legible : expr.Legible :=
    ⟨⟨trivial, trivial, trivial⟩, List.forall_mem_singleton.mpr starts⟩
  exact ⟨readable, legible, rfl, (parse_print_of_parse readable).1.mpr legible⟩

/-- Behind another factor it is an operator, and nothing follows it. -/
theorem parse_fails_on_printed_plus :
    let alphabet : Alphabet := ⟨['a', '+'], by decide, by decide⟩
    let expr := Expr.concat [.literal 'a', .literal '+']
    parse alphabet "a(+)" = .ok expr ∧ expr.print = "a+" ∧
      parse alphabet expr.print = .error (.unexpectedEnd { offset := 2 }) := by
  decide +kernel

end Grammar

end RegularWords
