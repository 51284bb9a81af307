import RegularWords.Expr.Printer
import RegularWords.Proofs.Enumeration
import RegularWords.Proofs.NormalForm
import RegularWords.Proofs.Recognition

/-!
Printed expressions read back.

The text of an expression has a derivation of the form that its outermost operator asks for, and in
parentheses one of every tighter form.  Only a factor behind another one may not be printed with an
operator in front, which takes a literal that is one.  Parentheses are printed only around chains,
and every one of these is a level of the tree, so the groups open at once are no more than the levels.
-/

namespace RegularWords

/-! ### Height and literals -/

namespace Expr

mutual

def height : Expr → Nat
  | .literal _ => 0
  | .empty => 0
  | .concat factors => heightAbove factors
  | .union alternatives => heightAbove alternatives
  | .star inner => height inner + 1

def heightAbove : List Expr → Nat
  | [] => 0
  | operand :: operands => max (height operand + 1) (heightAbove operands)

end

mutual

def literals : Expr → List Char
  | .literal symbol => [symbol]
  | .empty => []
  | .concat factors => chainLiterals factors
  | .union alternatives => chainLiterals alternatives
  | .star inner => literals inner

def chainLiterals : List Expr → List Char
  | [] => []
  | operand :: operands => literals operand ++ chainLiterals operands

end

/-! ### Places -/

def charactersAt (expr : Expr) (level : Nat) : List Char :=
  parenthesize level expr expr.characters

variable {expr : Expr} {level : Nat}

theorem charactersAt_of_le (tight : level ≤ expr.precedence) :
    expr.charactersAt level = expr.characters := by
  unfold charactersAt parenthesize
  rw [if_neg (Nat.not_lt.mpr tight)]

theorem charactersAt_of_lt (loose : expr.precedence < level) :
    expr.charactersAt level = '(' :: expr.characters ++ [')'] := by
  unfold charactersAt parenthesize
  rw [if_pos loose]

theorem charactersAt_star (inner : Expr) :
    (star inner).charactersAt factorLevel = inner.charactersAt factorLevel ++ ['*'] := by
  rw [charactersAt_of_le (Nat.le_refl 2), characters, charactersAt]

theorem charactersAt_ne_nil (expr : Expr) : expr.charactersAt factorLevel ≠ [] := by
  by_cases loose : expr.precedence < factorLevel
  · rw [charactersAt_of_lt loose]
    exact List.cons_ne_nil _ _
  · rw [charactersAt_of_le (Nat.not_lt.mp loose)]
    cases expr with
    | literal symbol => exact List.cons_ne_nil _ _
    | empty => exact List.cons_ne_nil _ _
    | concat factors => exact absurd (Nat.lt_succ_self 1) loose
    | union alternatives => exact absurd Nat.zero_lt_two loose
    | star inner =>
        rw [characters]
        exact List.append_ne_nil_of_right_ne_nil _ (List.cons_ne_nil _ _)

mutual

/-- Whether each factor behind another one is printed with a character that starts a factor. -/
def Legible : Expr → Prop
  | .literal _ => True
  | .empty => True
  | .concat factors =>
      EachLegible factors ∧
        ∀ factor ∈ factors.tail, Grammar.StartsFactor (factor.charactersAt factorLevel)
  | .union alternatives => EachLegible alternatives
  | .star inner => inner.Legible

def EachLegible : List Expr → Prop
  | [] => True
  | operand :: operands => operand.Legible ∧ EachLegible operands

end

end Expr

namespace Grammar

open RegularWords.Expr (factorLevel alternativeLevel charactersAt_of_le charactersAt_of_lt)

variable {alphabet : Alphabet} {expr : Expr}

/-! ### Derivations that write an expression -/

structure Form.Writes (form : Form) (derivation : form.Derivation) (expr : Expr)
    (text : List Char) (room : Nat) : Prop where
  valid : form.Valid derivation
  text : form.text derivation = text
  tree : (form.subtree derivation).expr = expr.normalized
  height : (form.subtree derivation).height ≤ expr.height
  groups : form.groups derivation ≤ room

theorem writes_last_factor {factor : StarDerivation} {text : List Char} {room : Nat}
    (normal : expr.normalized.isNormal = true)
    (writes : (starForm alphabet).Writes factor expr text room) :
    (concatForm alphabet).Writes (.last factor) expr text room where
  valid := writes.valid
  text := writes.text
  tree := by
    change Expr.concatAll [factor.subtree.expr] = expr.normalized
    have tree : factor.subtree.expr = expr.normalized := writes.tree
    rw [tree]
    exact Expr.judges_isNormal.build_singleton .concat normal
  height := by
    change max factor.subtree.height 0 + 0 ≤ expr.height
    have height : factor.subtree.height ≤ expr.height := writes.height
    omega
  groups := writes.groups

theorem writes_last_alternative {alternative : ConcatDerivation} {text : List Char} {room : Nat}
    (normal : expr.normalized.isNormal = true)
    (writes : (concatForm alphabet).Writes alternative expr text room) :
    (unionForm alphabet).Writes (.last alternative) expr text room where
  valid := writes.valid
  text := writes.text
  tree := by
    change Expr.unionAll [alternative.subtree.expr] = expr.normalized
    have tree : alternative.subtree.expr = expr.normalized := writes.tree
    rw [tree]
    exact Expr.judges_isNormal.build_singleton .union normal
  height := by
    change max alternative.subtree.height 0 + 0 ≤ expr.height
    have height : alternative.subtree.height ≤ expr.height := writes.height
    omega
  groups := writes.groups

theorem writes_group {inside : UnionDerivation} {text : List Char} {room : Nat}
    (writes : (unionForm alphabet).Writes inside expr text room) :
    (starForm alphabet).Writes (.starred (.group inside) 0) expr ('(' :: text ++ [')'])
      (room + 1) where
  valid := writes.valid
  text := by
    change '(' :: (inside.text ++ [')']) ++ [] = '(' :: text ++ [')']
    have same : inside.text = text := writes.text
    rw [same, List.append_nil, List.cons_append]
  tree := writes.tree
  height := writes.height
  groups := Nat.succ_le_succ writes.groups

/-- An expression is printed if its text has a derivation wherever it may be an operand. -/
structure Printed (alphabet : Alphabet) (expr : Expr) : Prop where
  union : ∃ derivation,
    (unionForm alphabet).Writes derivation expr expr.characters expr.height
  concat : ∃ derivation, (concatForm alphabet).Writes derivation expr
    (expr.charactersAt alternativeLevel) (expr.height + 1)
  star : ∃ derivation, (starForm alphabet).Writes derivation expr
    (expr.charactersAt factorLevel) (expr.height + 1)

theorem Form.Writes.mono {form : Form} {derivation : form.Derivation} {text : List Char}
    {room larger : Nat} (writes : form.Writes derivation expr text room)
    (enough : room ≤ larger) : form.Writes derivation expr text larger :=
  { writes with groups := Nat.le_trans writes.groups enough }

theorem StartsFactor.append {text : List Char} (starts : StartsFactor text) (some : text ≠ [])
    (rest : List Char) : StartsFactor (text ++ rest) := by
  cases text with
  | nil => exact absurd rfl some
  | cons initial others => exact starts

theorem startsFactor_group {text : List Char} : StartsFactor ('(' :: text) := by
  intro initial isInitial
  cases Option.some.inj isInitial
  decide

theorem printed_of_star {derivation : StarDerivation} (normal : expr.normalized.isNormal = true)
    (tight : factorLevel ≤ expr.precedence)
    (writes : (starForm alphabet).Writes derivation expr expr.characters expr.height) :
    Printed alphabet expr := by
  have looser : alternativeLevel ≤ expr.precedence := Nat.le_trans (by decide) tight
  have writesConcat := writes_last_factor normal writes
  exact
    { union := ⟨_, writes_last_alternative normal writesConcat⟩
      concat := ⟨_, by rw [charactersAt_of_le looser]; exact writesConcat.mono (Nat.le_succ _)⟩
      star := ⟨derivation, by rw [charactersAt_of_le tight]; exact writes.mono (Nat.le_succ _)⟩ }

theorem printed_of_concat {derivation : ConcatDerivation}
    (normal : expr.normalized.isNormal = true) (loose : expr.precedence < factorLevel)
    (tight : alternativeLevel ≤ expr.precedence)
    (writes : (concatForm alphabet).Writes derivation expr expr.characters expr.height) :
    Printed alphabet expr := by
  have writesUnion := writes_last_alternative normal writes
  have writesStar := writes_group writesUnion
  rw [← charactersAt_of_lt loose] at writesStar
  exact
    { union := ⟨_, writesUnion⟩
      concat := ⟨derivation, by rw [charactersAt_of_le tight]; exact writes.mono (Nat.le_succ _)⟩
      star := ⟨_, writesStar⟩ }

theorem printed_of_union {derivation : UnionDerivation}
    (normal : expr.normalized.isNormal = true) (loose : expr.precedence < alternativeLevel)
    (writes : (unionForm alphabet).Writes derivation expr expr.characters expr.height) :
    Printed alphabet expr := by
  have looser : expr.precedence < factorLevel := Nat.lt_trans loose (by decide)
  have writesStar := writes_group writes
  have writesConcat := writes_last_factor normal writesStar
  rw [← charactersAt_of_lt looser] at writesStar
  rw [← charactersAt_of_lt loose] at writesConcat
  exact
    { union := ⟨derivation, writes⟩
      concat := ⟨_, writesConcat⟩
      star := ⟨_, writesStar⟩ }

/-! ### Chains -/

theorem exists_factors {first : Expr} {factors : List Expr}
    (printed : ∀ factor ∈ first :: factors, Printed alphabet factor)
    (starts : ∀ factor ∈ factors, StartsFactor (factor.charactersAt factorLevel)) :
    ∃ derivation : ConcatDerivation, derivation.Valid alphabet ∧
      derivation.text = Expr.factorCharacters (first :: factors) ∧
        derivation.factors.map Subtree.expr = Expr.normalizedChain (first :: factors) ∧
          (derivation.factors.map Subtree.height).foldr max 0 + 1 ≤
              Expr.heightAbove (first :: factors) ∧
            derivation.groups ≤ Expr.heightAbove (first :: factors) := by
  induction factors generalizing first with
  | nil =>
      obtain ⟨factor, writes⟩ := (printed first List.mem_cons_self).star
      refine ⟨.last factor, writes.valid, ?_, ?_, ?_, ?_⟩
      · rw [Expr.factorCharacters, Expr.factorCharacters, List.append_nil]
        exact writes.text
      · rw [Expr.normalizedChain, Expr.normalizedChain]
        exact congrArg (· :: []) writes.tree
      · have height : factor.subtree.height ≤ first.height := writes.height
        change max factor.subtree.height 0 + 1 ≤ max (first.height + 1) 0
        omega
      · have groups : factor.groups ≤ first.height + 1 := writes.groups
        change factor.groups ≤ max (first.height + 1) 0
        omega
  | cons second factors inductionHypothesis =>
      obtain ⟨isPrinted, othersPrinted⟩ := List.forall_mem_cons.mp printed
      obtain ⟨factor, writes⟩ := isPrinted.star
      obtain ⟨startsSecond, othersStart⟩ := List.forall_mem_cons.mp starts
      obtain ⟨later, laterValid, laterText, laterTrees, laterHeights, laterGroups⟩ :=
        inductionHypothesis othersPrinted othersStart
      have startsLater : StartsFactor later.text := by
        rw [laterText, Expr.factorCharacters]
        exact startsSecond.append second.charactersAt_ne_nil _
      refine ⟨.more factor later, ⟨writes.valid, laterValid, startsLater⟩, ?_, ?_, ?_, ?_⟩
      · rw [Expr.factorCharacters, ← laterText]
        exact congrArg (· ++ later.text) writes.text
      · rw [Expr.normalizedChain, ← laterTrees]
        exact congrArg (· :: _) writes.tree
      · have height : factor.subtree.height ≤ first.height := writes.height
        change max factor.subtree.height _ + 1 ≤ max (first.height + 1) _
        omega
      · have groups : factor.groups ≤ first.height + 1 := writes.groups
        change max factor.groups later.groups ≤ max (first.height + 1) _
        omega

theorem exists_alternatives {first : Expr} {alternatives : List Expr}
    (printed : ∀ alternative ∈ first :: alternatives, Printed alphabet alternative) :
    ∃ derivation : UnionDerivation, derivation.Valid alphabet ∧
      derivation.text = Expr.alternativeCharacters (first :: alternatives) ∧
        derivation.alternatives.map Subtree.expr = Expr.normalizedChain (first :: alternatives) ∧
          (derivation.alternatives.map Subtree.height).foldr max 0 + 1 ≤
              Expr.heightAbove (first :: alternatives) ∧
            derivation.groups ≤ Expr.heightAbove (first :: alternatives) := by
  induction alternatives generalizing first with
  | nil =>
      obtain ⟨alternative, writes⟩ := (printed first List.mem_cons_self).concat
      refine ⟨.last alternative, writes.valid, ?_, ?_, ?_, ?_⟩
      · rw [Expr.alternativeCharacters]
        exact writes.text
      · rw [Expr.normalizedChain, Expr.normalizedChain]
        exact congrArg (· :: []) writes.tree
      · have height : alternative.subtree.height ≤ first.height := writes.height
        change max alternative.subtree.height 0 + 1 ≤ max (first.height + 1) 0
        omega
      · have groups : alternative.groups ≤ first.height + 1 := writes.groups
        change alternative.groups ≤ max (first.height + 1) 0
        omega
  | cons second alternatives inductionHypothesis =>
      obtain ⟨isPrinted, othersPrinted⟩ := List.forall_mem_cons.mp printed
      obtain ⟨alternative, writes⟩ := isPrinted.concat
      obtain ⟨later, laterValid, laterText, laterTrees, laterHeights, laterGroups⟩ :=
        inductionHypothesis othersPrinted
      refine ⟨.more alternative later, ⟨writes.valid, laterValid⟩, ?_, ?_, ?_, ?_⟩
      · rw [Expr.alternativeCharacters, ← laterText]
        exact congrArg (· ++ '+' :: later.text) writes.text
      · rw [Expr.normalizedChain, ← laterTrees]
        exact congrArg (· :: _) writes.tree
      · have height : alternative.subtree.height ≤ first.height := writes.height
        change max alternative.subtree.height _ + 1 ≤ max (first.height + 1) _
        omega
      · have groups : alternative.groups ≤ first.height + 1 := writes.groups
        change max alternative.groups later.groups ≤ max (first.height + 1) _
        omega

theorem height_chain_le {build : List Expr → Expr} {operands : List Subtree} {bound : Nat}
    (low : (operands.map Subtree.height).foldr max 0 + 1 ≤ bound) :
    (Subtree.chain build operands).height ≤ bound := by
  change _ + (if operands.length ≤ 1 then 0 else 1) ≤ bound
  split
  · omega
  · exact low

theorem starred_succ (stars : Nat) (subtree : Subtree) :
    subtree.starred (stars + 1) =
      { expr := .star (subtree.starred stars).expr,
        height := (subtree.starred stars).height + 1 } := by
  induction stars generalizing subtree with
  | zero => rfl
  | succ stars inductionHypothesis => exact inductionHypothesis _

theorem exists_starred {inner : Expr} (printed : Printed alphabet inner) :
    ∃ derivation, (starForm alphabet).Writes derivation (.star inner)
      (Expr.star inner).characters (Expr.star inner).height := by
  obtain ⟨⟨primary, stars⟩, writes⟩ := printed.star
  have text : primary.text ++ List.replicate stars '*' =
      inner.charactersAt factorLevel := writes.text
  have tree : (primary.subtree.starred stars).expr = inner.normalized := writes.tree
  have height : (primary.subtree.starred stars).height ≤ inner.height := writes.height
  refine ⟨.starred primary (stars + 1), writes.valid, ?_, ?_, ?_, writes.groups⟩
  · change primary.text ++ List.replicate (stars + 1) '*' = _
    rw [List.replicate_succ', ← List.append_assoc, text, Expr.characters, Expr.charactersAt]
  · change (primary.subtree.starred (stars + 1)).expr = _
    rw [starred_succ, tree, Expr.normalized]
  · change (primary.subtree.starred (stars + 1)).height ≤ _
    rw [starred_succ, Expr.height]
    exact Nat.succ_le_succ height

/-! ### Every legible expression is printed -/

def Readable (alphabet : Alphabet) (literals : List Char) : Prop :=
  ∀ symbol ∈ literals, symbol ∈ alphabet.symbols ∧ symbol ≠ '(' ∧ symbol ≠ '@'

theorem printed_literal {symbol : Char} (readable : Readable alphabet [symbol]) :
    Printed alphabet (.literal symbol) := by
  have valid : (StarDerivation.starred (.symbol symbol) 0).Valid alphabet :=
    readable symbol List.mem_cons_self
  have writes : (starForm alphabet).Writes (.starred (.symbol symbol) 0) (.literal symbol)
      [symbol] 0 := ⟨valid, rfl, rfl, Nat.le_refl 0, Nat.le_refl 0⟩
  exact printed_of_star rfl (Nat.le_succ 2) writes

theorem printed_empty : Printed alphabet .empty := by
  have writes : (starForm alphabet).Writes (.starred .emptyWord 0) .empty ['@'] 0 :=
    ⟨trivial, rfl, rfl, Nat.le_refl 0, Nat.le_refl 0⟩
  exact printed_of_star rfl (Nat.le_succ 2) writes

mutual

theorem printed_of_legible : ∀ {expr : Expr}, expr.unionsNonempty = true → expr.Legible →
    Readable alphabet expr.literals → Printed alphabet expr
  | .literal symbol, _, _, readable => printed_literal readable
  | .empty, _, _, _ => printed_empty
  | .concat [], _, _, _ => by
      have writes : (concatForm alphabet).Writes (.last (.starred .emptyWord 0)) (.concat [])
          ['@'] 0 := ⟨trivial, rfl, rfl, Nat.le_refl 0, Nat.le_refl 0⟩
      exact printed_of_concat rfl (Nat.le_refl 2) (Nat.le_refl 1) writes
  | .concat (factor :: factors), nonempty, legible, readable => by
      rw [Expr.Legible] at legible
      obtain ⟨derivation, valid, text, trees, heights, groups⟩ :=
        exists_factors (printed_operands_of_legible nonempty legible.1 readable) legible.2
      have writes : (concatForm alphabet).Writes derivation (.concat (factor :: factors))
          (Expr.concat (factor :: factors)).characters
          (Expr.concat (factor :: factors)).height := by
        refine ⟨valid, ?_, ?_, height_chain_le heights, groups⟩
        · rw [Expr.characters]
          exact text
        · rw [Expr.normalized, ← trees]
          rfl
      exact printed_of_concat (Expr.isNormal_normalized nonempty) (Nat.le_refl 2)
        (Nat.le_refl 1) writes
  | .union [], nonempty, _, _ => by simp [Expr.unionsNonempty] at nonempty
  | .union (alternative :: alternatives), nonempty, legible, readable => by
      rw [Expr.Legible] at legible
      have operandsNonempty := nonempty
      simp only [Expr.unionsNonempty, Bool.and_eq_true] at operandsNonempty
      obtain ⟨derivation, valid, text, trees, heights, groups⟩ :=
        exists_alternatives (printed_operands_of_legible operandsNonempty.2 legible readable)
      have writes : (unionForm alphabet).Writes derivation
          (.union (alternative :: alternatives))
          (Expr.union (alternative :: alternatives)).characters
          (Expr.union (alternative :: alternatives)).height := by
        refine ⟨valid, ?_, ?_, height_chain_le heights, groups⟩
        · rw [Expr.characters]
          exact text
        · rw [Expr.normalized, ← trees]
          rfl
      exact printed_of_union (Expr.isNormal_normalized nonempty) (Nat.le_refl 1) writes
  | .star inner, nonempty, legible, readable => by
      rw [Expr.Legible] at legible
      have innerPrinted : Printed alphabet inner := printed_of_legible nonempty legible readable
      obtain ⟨derivation, writes⟩ := exists_starred innerPrinted
      exact printed_of_star (Expr.isNormal_normalized nonempty) (Nat.le_refl 2) writes

theorem printed_operands_of_legible : ∀ {operands : List Expr},
    Expr.allUnionsNonempty operands = true → Expr.EachLegible operands →
      Readable alphabet (Expr.chainLiterals operands) →
        ∀ operand ∈ operands, Printed alphabet operand
  | [], _, _, _ => List.forall_mem_nil _
  | operand :: operands, nonempty, legible, readable => by
      rw [Expr.allUnionsNonempty, Bool.and_eq_true] at nonempty
      rw [Expr.EachLegible] at legible
      rw [Expr.chainLiterals] at readable
      obtain ⟨first, others⟩ := List.forall_mem_append.mp readable
      exact List.forall_mem_cons.mpr
        ⟨printed_of_legible nonempty.1 legible.1 first,
          printed_operands_of_legible nonempty.2 legible.2 others⟩

end

theorem parse_print_of_legible (nonempty : expr.unionsNonempty = true)
    (low : expr.height ≤ depthLimit) (legible : expr.Legible)
    (readable : Readable alphabet expr.literals) :
    parse alphabet expr.print = .ok expr.normalized := by
  obtain ⟨derivation, writes⟩ := (printed_of_legible nonempty legible readable).union
  have text : derivation.text = expr.print.toList := by
    rw [Expr.print, String.toList_ofList]
    exact writes.text
  have derives : derivation.Derives alphabet expr.print.toList :=
    ⟨writes.valid, Nat.le_trans writes.groups low, Nat.le_trans writes.height low, text⟩
  exact parse_eq_ok_iff.mpr ⟨derivation, derives, writes.tree⟩

/-! ### Expressions without reserved literals -/

def Spells (alphabet : Alphabet) (literals : List Char) : Prop :=
  ∀ symbol ∈ literals, symbol ∈ alphabet.symbols ∧ symbol ∉ Alphabet.operators

theorem Spells.readable {literals : List Char} (spells : Spells alphabet literals) :
    Readable alphabet literals := by
  intro symbol isLiteral
  obtain ⟨isSymbol, noOperator⟩ := spells symbol isLiteral
  refine ⟨isSymbol, ?_, ?_⟩
  · rintro rfl
    exact noOperator (by decide)
  · rintro rfl
    exact noOperator (by decide)

theorem startsFactor_of_spells : ∀ {expr : Expr}, Spells alphabet expr.literals →
    StartsFactor (expr.charactersAt factorLevel)
  | .literal symbol, spells => by
      obtain ⟨_, noOperator⟩ := spells symbol List.mem_cons_self
      have other : ∀ operator ∈ Alphabet.operators, symbol ≠ operator := by
        intro operator isOperator same
        rw [same] at noOperator
        exact noOperator isOperator
      intro initial isInitial
      cases Option.some.inj isInitial
      exact ⟨other '+' (by decide), other '*' (by decide), other ')' (by decide)⟩
  | .empty, _ => by
      intro initial isInitial
      cases Option.some.inj isInitial
      decide
  | .concat factors, _ => by
      rw [charactersAt_of_lt (Nat.lt_succ_self 1)]
      exact startsFactor_group
  | .union alternatives, _ => by
      rw [charactersAt_of_lt Nat.zero_lt_two]
      exact startsFactor_group
  | .star inner, spells => by
      have starts : StartsFactor (inner.charactersAt factorLevel) := startsFactor_of_spells spells
      rw [Expr.charactersAt_star]
      exact starts.append inner.charactersAt_ne_nil _

mutual

theorem legible_of_spells : ∀ {expr : Expr}, Spells alphabet expr.literals → expr.Legible
  | .literal symbol, _ => trivial
  | .empty, _ => trivial
  | .concat factors, spells => by
      obtain ⟨legible, start⟩ := eachLegible_of_spells spells
      exact ⟨legible, fun factor isFactor => start factor (List.mem_of_mem_tail isFactor)⟩
  | .union alternatives, spells => (eachLegible_of_spells spells).1
  | .star inner, spells => by
      rw [Expr.Legible]
      exact legible_of_spells spells

theorem eachLegible_of_spells : ∀ {operands : List Expr},
    Spells alphabet (Expr.chainLiterals operands) →
      Expr.EachLegible operands ∧
        ∀ operand ∈ operands, StartsFactor (operand.charactersAt factorLevel)
  | [], _ => ⟨trivial, List.forall_mem_nil _⟩
  | operand :: operands, spells => by
      rw [Expr.chainLiterals] at spells
      obtain ⟨first, others⟩ := List.forall_mem_append.mp spells
      obtain ⟨legible, start⟩ := eachLegible_of_spells others
      exact ⟨⟨legible_of_spells first, legible⟩,
        List.forall_mem_cons.mpr ⟨startsFactor_of_spells first, start⟩⟩

end

theorem parse_print_of_spells (nonempty : expr.unionsNonempty = true)
    (low : expr.height ≤ depthLimit) (spells : Spells alphabet expr.literals) :
    parse alphabet expr.print = .ok expr.normalized :=
  parse_print_of_legible nonempty low (legible_of_spells spells) spells.readable

theorem lists_words_normalized (nonempty : expr.unionsNonempty = true) :
    expr.normalized.words.Lists expr.listing := by
  rw [← Expr.listing_normalized]
  apply Words.lists_words
  exact Expr.unionsNonempty_of_isNormal (Expr.isNormal_normalized nonempty)

/-- The printed text of an expression is read as its normal form, which has the same words in the
same order. -/
theorem parse_print (nonempty : expr.unionsNonempty = true) (low : expr.height ≤ depthLimit)
    (literals : ∀ symbol ∈ expr.literals,
      symbol ∈ alphabet.symbols ∧ symbol ∉ Alphabet.operators) :
    parse alphabet expr.print = .ok expr.normalized ∧
      (expr.isNormal = true → expr.normalized = expr) ∧
        ∀ number,
          (expr.normalized.words.after number).Returns ∧ (expr.words.after number).Returns ∧
            (expr.normalized.words.after number).next.1 =
              (expr.words.after number).next.1 := by
  refine ⟨parse_print_of_spells nonempty low literals, Expr.normalized_of_isNormal, ?_⟩
  intro number
  obtain ⟨normalizedReturns, normalizedGives⟩ := (lists_words_normalized nonempty).call number
  obtain ⟨returns, gives⟩ := (Words.lists_words nonempty).call number
  exact ⟨normalizedReturns, returns, normalizedGives.trans gives.symm⟩

/-- `(a)*` and the empty concatenation are read as `a*` and `@`. -/
theorem parse_print_raw_chains :
    let alphabet : Alphabet := ⟨['a'], by decide, by decide⟩
    let expr := Expr.concat [.star (.concat [.literal 'a']), .concat []]
    expr.unionsNonempty = true ∧ expr.height ≤ depthLimit ∧
      (∀ symbol ∈ expr.literals, symbol ∈ alphabet.symbols ∧ symbol ∉ Alphabet.operators) ∧
        expr.print = "(a)*(@)" ∧
          parse alphabet expr.print = .ok (.concat [.star (.literal 'a'), .empty]) := by
  intro alphabet expr
  have nonempty : expr.unionsNonempty = true := rfl
  have low : expr.height ≤ depthLimit := by decide
  have literals : ∀ symbol ∈ expr.literals,
      symbol ∈ alphabet.symbols ∧ symbol ∉ Alphabet.operators := by
    intro symbol isLiteral
    rw [List.mem_singleton.mp isLiteral]
    exact ⟨List.mem_cons_self, by decide⟩
  exact ⟨nonempty, low, literals, rfl, (parse_print nonempty low literals).1⟩

end Grammar

end RegularWords
