import RegularWords.Grammar.Parser

/-!
Derivations in the grammar of expressions.

A derivation has one node for each use of a rule, so it keeps the groups and the shape of the chains
that the tree built from it may lose.  A text over an alphabet has at most one derivation: a primary
shows by itself where it ends, and the next character shows it for the other forms.
-/

namespace RegularWords.Grammar

mutual

/-- `'(' Union ')' | '@' | symbol` -/
inductive PrimaryDerivation where
  | group (inside : UnionDerivation)
  | emptyWord
  | symbol (character : Char)

/-- `Primary '*'*` -/
inductive StarDerivation where
  | starred (primary : PrimaryDerivation) (stars : Nat)

/-- `Star Star*` -/
inductive ConcatDerivation where
  | last (factor : StarDerivation)
  | more (factor : StarDerivation) (later : ConcatDerivation)

/-- `Concat ( '+' Concat )*` -/
inductive UnionDerivation where
  | last (alternative : ConcatDerivation)
  | more (alternative : ConcatDerivation) (later : UnionDerivation)

end

/-! ### Texts -/

mutual

def PrimaryDerivation.text : PrimaryDerivation → List Char
  | .group inside => '(' :: (inside.text ++ [')'])
  | .emptyWord => ['@']
  | .symbol character => [character]

def StarDerivation.text : StarDerivation → List Char
  | .starred primary stars => primary.text ++ List.replicate stars '*'

def ConcatDerivation.text : ConcatDerivation → List Char
  | .last factor => factor.text
  | .more factor later => factor.text ++ later.text

def UnionDerivation.text : UnionDerivation → List Char
  | .last alternative => alternative.text
  | .more alternative later => alternative.text ++ '+' :: later.text

end

/-! ### Trees -/

def Subtree.starred : Nat → Subtree → Subtree
  | 0, subtree => subtree
  | stars + 1, subtree =>
      starred stars { expr := .star subtree.expr, height := subtree.height + 1 }

/-- The chain of some operands in order.  Two or more operands add a level. -/
def Subtree.chain (build : List Expr → Expr) (operands : List Subtree) : Subtree where
  expr := build (operands.map expr)
  height := (operands.map height).foldr max 0 + if operands.length ≤ 1 then 0 else 1

mutual

def PrimaryDerivation.subtree : PrimaryDerivation → Subtree
  | .group inside => .chain Expr.unionAll inside.alternatives
  | .emptyWord => { expr := .empty, height := 0 }
  | .symbol character => { expr := .literal character, height := 0 }

def StarDerivation.subtree : StarDerivation → Subtree
  | .starred primary stars => primary.subtree.starred stars

def ConcatDerivation.factors : ConcatDerivation → List Subtree
  | .last factor => [factor.subtree]
  | .more factor later => factor.subtree :: later.factors

def UnionDerivation.alternatives : UnionDerivation → List Subtree
  | .last alternative => [.chain Expr.concatAll alternative.factors]
  | .more alternative later =>
      .chain Expr.concatAll alternative.factors :: later.alternatives

end

def ConcatDerivation.subtree (derivation : ConcatDerivation) : Subtree :=
  .chain Expr.concatAll derivation.factors

def UnionDerivation.subtree (derivation : UnionDerivation) : Subtree :=
  .chain Expr.unionAll derivation.alternatives

/-! ### Open groups -/

mutual

/-- The most groups that are open at once. -/
def PrimaryDerivation.groups : PrimaryDerivation → Nat
  | .group inside => inside.groups + 1
  | .emptyWord => 0
  | .symbol _ => 0

def StarDerivation.groups : StarDerivation → Nat
  | .starred primary _ => primary.groups

def ConcatDerivation.groups : ConcatDerivation → Nat
  | .last factor => factor.groups
  | .more factor later => max factor.groups later.groups

def UnionDerivation.groups : UnionDerivation → Nat
  | .last alternative => alternative.groups
  | .more alternative later => max alternative.groups later.groups

end

/-! ### Derivations over an alphabet -/

/-- Behind a factor, the characters `+`, `*` and `)` start no further one. -/
def StartsFactor (text : List Char) : Prop :=
  ∀ initial ∈ text.head?, initial ≠ '+' ∧ initial ≠ '*' ∧ initial ≠ ')'

mutual

/-- Whether the symbols of a derivation can be read as symbols where they stand. -/
def PrimaryDerivation.Valid (alphabet : Alphabet) : PrimaryDerivation → Prop
  | .group inside => inside.Valid alphabet
  | .emptyWord => True
  | .symbol character => character ∈ alphabet.symbols ∧ character ≠ '(' ∧ character ≠ '@'

def StarDerivation.Valid (alphabet : Alphabet) : StarDerivation → Prop
  | .starred primary _ => primary.Valid alphabet

def ConcatDerivation.Valid (alphabet : Alphabet) : ConcatDerivation → Prop
  | .last factor => factor.Valid alphabet
  | .more factor later =>
      factor.Valid alphabet ∧ later.Valid alphabet ∧ StartsFactor later.text

def UnionDerivation.Valid (alphabet : Alphabet) : UnionDerivation → Prop
  | .last alternative => alternative.Valid alphabet
  | .more alternative later => alternative.Valid alphabet ∧ later.Valid alphabet

end

structure UnionDerivation.Derives (alphabet : Alphabet) (derivation : UnionDerivation)
    (text : List Char) : Prop where
  valid : derivation.Valid alphabet
  groups : derivation.groups ≤ depthLimit
  height : derivation.subtree.height ≤ depthLimit
  text : derivation.text = text

/-! ### Texts start with a character -/

theorem PrimaryDerivation.exists_text_eq_cons (derivation : PrimaryDerivation) :
    ∃ initial rest, derivation.text = initial :: rest := by
  cases derivation with
  | group inside => exact ⟨_, _, by rw [text]⟩
  | emptyWord => exact ⟨_, _, by rw [text]⟩
  | symbol character => exact ⟨_, _, by rw [text]⟩

theorem StarDerivation.exists_text_eq_cons (derivation : StarDerivation) :
    ∃ initial rest, derivation.text = initial :: rest := by
  cases derivation with
  | starred primary stars =>
      obtain ⟨initial, rest, starts⟩ := primary.exists_text_eq_cons
      exact ⟨initial, rest ++ List.replicate stars '*', by rw [text, starts, List.cons_append]⟩

theorem ConcatDerivation.exists_text_eq_cons (derivation : ConcatDerivation) :
    ∃ initial rest, derivation.text = initial :: rest := by
  cases derivation with
  | last factor =>
      rw [text]
      exact factor.exists_text_eq_cons
  | more factor later =>
      obtain ⟨initial, rest, starts⟩ := factor.exists_text_eq_cons
      exact ⟨initial, rest ++ later.text, by rw [text, starts, List.cons_append]⟩

theorem ConcatDerivation.head?_text_append (derivation : ConcatDerivation) (rest : List Char) :
    (derivation.text ++ rest).head? = derivation.text.head? := by
  obtain ⟨initial, others, starts⟩ := derivation.exists_text_eq_cons
  rw [starts, List.cons_append, List.head?_cons, List.head?_cons]

/-! ### A text has one derivation -/

def StarDerivation.EndsBefore (next : Option Char) : Prop :=
  next ≠ some '*'

def ConcatDerivation.EndsBefore (next : Option Char) : Prop :=
  ∀ character ∈ next, character = '+' ∨ character = ')'

def UnionDerivation.EndsBefore (next : Option Char) : Prop :=
  ∀ character ∈ next, character = ')'

theorem ConcatDerivation.EndsBefore.star {next : Option Char}
    (ends : ConcatDerivation.EndsBefore next) : StarDerivation.EndsBefore next := by
  rintro rfl
  rcases ends '*' rfl with impossible | impossible <;> cases impossible

theorem UnionDerivation.EndsBefore.concat {next : Option Char}
    (ends : UnionDerivation.EndsBefore next) : ConcatDerivation.EndsBefore next :=
  fun character isNext => .inr (ends character isNext)

theorem UnionDerivation.endsBefore_nil :
    UnionDerivation.EndsBefore ([] : List Char).head? := by
  intro character isNext
  cases isNext

theorem UnionDerivation.endsBefore_closing (rest : List Char) :
    UnionDerivation.EndsBefore (')' :: rest).head? := by
  intro character isNext
  exact (Option.some.inj isNext).symm

theorem ConcatDerivation.endsBefore_plus (rest : List Char) :
    ConcatDerivation.EndsBefore ('+' :: rest).head? := by
  intro character isNext
  exact .inl (Option.some.inj isNext).symm

/-- Between two factors the first one ends, but not the concatenation. -/
theorem ConcatDerivation.endsBefore_later {alphabet : Alphabet} {factor : StarDerivation}
    {later : ConcatDerivation} (valid : (ConcatDerivation.more factor later).Valid alphabet)
    (rest : List Char) :
    StarDerivation.EndsBefore (later.text ++ rest).head? ∧
      ¬ ConcatDerivation.EndsBefore (later.text ++ rest).head? := by
  rw [ConcatDerivation.Valid] at valid
  obtain ⟨initial, others, starts⟩ := later.exists_text_eq_cons
  rw [later.head?_text_append, starts, List.head?_cons]
  obtain ⟨notPlus, notStar, notClosing⟩ := valid.2.2 initial (by rw [starts]; rfl)
  constructor
  · intro isStar
    exact notStar (Option.some.inj isStar)
  · intro ends
    rcases ends initial rfl with isPlus | isClosing
    · exact notPlus isPlus
    · exact notClosing isClosing

theorem replicate_append_unambiguous {character : Char} {first second : List Char} {m n : Nat}
    (same : List.replicate m character ++ first = List.replicate n character ++ second)
    (firstEnds : first.head? ≠ some character) (secondEnds : second.head? ≠ some character) :
    m = n ∧ first = second := by
  induction m generalizing n with
  | zero =>
      cases n with
      | zero => exact ⟨rfl, same⟩
      | succ n =>
          refine absurd ?_ firstEnds
          rw [List.replicate_zero, List.nil_append] at same
          rw [same]
          rfl
  | succ m inductionHypothesis =>
      cases n with
      | zero =>
          refine absurd ?_ secondEnds
          rw [List.replicate_zero, List.nil_append] at same
          rw [← same]
          rfl
      | succ n =>
          rw [List.replicate_succ, List.replicate_succ, List.cons_append, List.cons_append] at same
          obtain ⟨rfl, rfl⟩ := inductionHypothesis (List.cons.inj same).2
          exact ⟨rfl, rfl⟩

variable {alphabet : Alphabet}

mutual

theorem PrimaryDerivation.unambiguous : ∀ {first second : PrimaryDerivation}
    {firstRest secondRest : List Char}, first.Valid alphabet → second.Valid alphabet →
      first.text ++ firstRest = second.text ++ secondRest →
        first = second ∧ firstRest = secondRest
  | .group firstInside, .group secondInside, firstRest, secondRest, firstValid, secondValid,
      same => by
      simp only [PrimaryDerivation.text, List.cons_append, List.append_assoc,
        List.nil_append] at same
      simp only [PrimaryDerivation.Valid] at firstValid secondValid
      obtain ⟨rfl, restSame⟩ := UnionDerivation.unambiguous firstValid secondValid
        (UnionDerivation.endsBefore_closing firstRest)
        (UnionDerivation.endsBefore_closing secondRest) (List.cons.inj same).2
      exact ⟨rfl, (List.cons.inj restSame).2⟩
  | .group _, .emptyWord, _, _, _, _, same => by
      simp [PrimaryDerivation.text] at same
  | .group _, .symbol character, _, _, _, secondValid, same => by
      simp only [PrimaryDerivation.Valid] at secondValid
      simp only [PrimaryDerivation.text, List.cons_append] at same
      exact absurd (List.cons.inj same).1.symm secondValid.2.1
  | .emptyWord, .group _, _, _, _, _, same => by
      simp [PrimaryDerivation.text] at same
  | .emptyWord, .emptyWord, _, _, _, _, same => by
      simpa [PrimaryDerivation.text] using same
  | .emptyWord, .symbol character, _, _, _, secondValid, same => by
      simp only [PrimaryDerivation.Valid] at secondValid
      simp only [PrimaryDerivation.text, List.cons_append] at same
      exact absurd (List.cons.inj same).1.symm secondValid.2.2
  | .symbol character, .group _, _, _, firstValid, _, same => by
      simp only [PrimaryDerivation.Valid] at firstValid
      simp only [PrimaryDerivation.text, List.cons_append] at same
      exact absurd (List.cons.inj same).1 firstValid.2.1
  | .symbol character, .emptyWord, _, _, firstValid, _, same => by
      simp only [PrimaryDerivation.Valid] at firstValid
      simp only [PrimaryDerivation.text, List.cons_append] at same
      exact absurd (List.cons.inj same).1 firstValid.2.2
  | .symbol _, .symbol _, _, _, _, _, same => by
      simpa [PrimaryDerivation.text] using same

theorem StarDerivation.unambiguous : ∀ {first second : StarDerivation}
    {firstRest secondRest : List Char}, first.Valid alphabet → second.Valid alphabet →
      StarDerivation.EndsBefore firstRest.head? → StarDerivation.EndsBefore secondRest.head? →
        first.text ++ firstRest = second.text ++ secondRest →
          first = second ∧ firstRest = secondRest
  | .starred firstPrimary firstStars, .starred secondPrimary secondStars, _, _, firstValid,
      secondValid, firstEnds, secondEnds, same => by
      simp only [StarDerivation.Valid] at firstValid secondValid
      rw [StarDerivation.text, StarDerivation.text, List.append_assoc, List.append_assoc] at same
      obtain ⟨rfl, starsSame⟩ := PrimaryDerivation.unambiguous firstValid secondValid same
      obtain ⟨rfl, rfl⟩ := replicate_append_unambiguous starsSame firstEnds secondEnds
      exact ⟨rfl, rfl⟩

theorem ConcatDerivation.unambiguous : ∀ {first second : ConcatDerivation}
    {firstRest secondRest : List Char}, first.Valid alphabet → second.Valid alphabet →
      ConcatDerivation.EndsBefore firstRest.head? → ConcatDerivation.EndsBefore secondRest.head? →
        first.text ++ firstRest = second.text ++ secondRest →
          first = second ∧ firstRest = secondRest
  | .last firstFactor, .last secondFactor, _, _, firstValid, secondValid, firstEnds, secondEnds,
      same => by
      simp only [ConcatDerivation.Valid] at firstValid secondValid
      simp only [ConcatDerivation.text] at same
      obtain ⟨rfl, rfl⟩ := StarDerivation.unambiguous firstValid secondValid firstEnds.star
        secondEnds.star same
      exact ⟨rfl, rfl⟩
  | .last firstFactor, .more secondFactor secondLater, _, secondRest, firstValid, secondValid,
      firstEnds, _, same => by
      -- The next character would end the one concatenation and go on with the other.
      obtain ⟨starEnds, goesOn⟩ := ConcatDerivation.endsBefore_later secondValid secondRest
      simp only [ConcatDerivation.Valid] at firstValid secondValid
      simp only [ConcatDerivation.text, List.append_assoc] at same
      obtain ⟨rfl, rfl⟩ := StarDerivation.unambiguous firstValid secondValid.1 firstEnds.star
        starEnds same
      exact absurd firstEnds goesOn
  | .more firstFactor firstLater, .last secondFactor, firstRest, _, firstValid, secondValid, _,
      secondEnds, same => by
      obtain ⟨starEnds, goesOn⟩ := ConcatDerivation.endsBefore_later firstValid firstRest
      simp only [ConcatDerivation.Valid] at firstValid secondValid
      simp only [ConcatDerivation.text, List.append_assoc] at same
      obtain ⟨rfl, rfl⟩ := StarDerivation.unambiguous firstValid.1 secondValid starEnds
        secondEnds.star same
      exact absurd secondEnds goesOn
  | .more firstFactor firstLater, .more secondFactor secondLater, firstRest, secondRest,
      firstValid, secondValid, firstEnds, secondEnds, same => by
      obtain ⟨firstStarEnds, _⟩ := ConcatDerivation.endsBefore_later firstValid firstRest
      obtain ⟨secondStarEnds, _⟩ := ConcatDerivation.endsBefore_later secondValid secondRest
      simp only [ConcatDerivation.Valid] at firstValid secondValid
      simp only [ConcatDerivation.text, List.append_assoc] at same
      obtain ⟨rfl, laterSame⟩ := StarDerivation.unambiguous firstValid.1 secondValid.1
        firstStarEnds secondStarEnds same
      obtain ⟨rfl, rfl⟩ := ConcatDerivation.unambiguous firstValid.2.1 secondValid.2.1 firstEnds
        secondEnds laterSame
      exact ⟨rfl, rfl⟩

theorem UnionDerivation.unambiguous : ∀ {first second : UnionDerivation}
    {firstRest secondRest : List Char}, first.Valid alphabet → second.Valid alphabet →
      UnionDerivation.EndsBefore firstRest.head? → UnionDerivation.EndsBefore secondRest.head? →
        first.text ++ firstRest = second.text ++ secondRest →
          first = second ∧ firstRest = secondRest
  | .last firstAlternative, .last secondAlternative, _, _, firstValid, secondValid, firstEnds,
      secondEnds, same => by
      simp only [UnionDerivation.Valid] at firstValid secondValid
      simp only [UnionDerivation.text] at same
      obtain ⟨rfl, rfl⟩ := ConcatDerivation.unambiguous firstValid secondValid firstEnds.concat
        secondEnds.concat same
      exact ⟨rfl, rfl⟩
  | .last firstAlternative, .more secondAlternative secondLater, _, _, firstValid, secondValid,
      firstEnds, _, same => by
      simp only [UnionDerivation.Valid] at firstValid secondValid
      simp only [UnionDerivation.text, List.append_assoc, List.cons_append] at same
      obtain ⟨rfl, rfl⟩ := ConcatDerivation.unambiguous firstValid secondValid.1 firstEnds.concat
        (ConcatDerivation.endsBefore_plus _) same
      exact absurd (firstEnds '+' rfl) (by decide)
  | .more firstAlternative firstLater, .last secondAlternative, _, _, firstValid, secondValid, _,
      secondEnds, same => by
      simp only [UnionDerivation.Valid] at firstValid secondValid
      simp only [UnionDerivation.text, List.append_assoc, List.cons_append] at same
      obtain ⟨rfl, rfl⟩ := ConcatDerivation.unambiguous firstValid.1 secondValid
        (ConcatDerivation.endsBefore_plus _) secondEnds.concat same
      exact absurd (secondEnds '+' rfl) (by decide)
  | .more firstAlternative firstLater, .more secondAlternative secondLater, _, _, firstValid,
      secondValid, firstEnds, secondEnds, same => by
      simp only [UnionDerivation.Valid] at firstValid secondValid
      simp only [UnionDerivation.text, List.append_assoc, List.cons_append] at same
      obtain ⟨rfl, laterSame⟩ := ConcatDerivation.unambiguous firstValid.1 secondValid.1
        (ConcatDerivation.endsBefore_plus _) (ConcatDerivation.endsBefore_plus _) same
      obtain ⟨rfl, rfl⟩ := UnionDerivation.unambiguous firstValid.2 secondValid.2 firstEnds
        secondEnds (List.cons.inj laterSame).2
      exact ⟨rfl, rfl⟩

end

/-- Whatever the limits of depth are. -/
theorem UnionDerivation.eq_of_text_eq {first second : UnionDerivation}
    (firstValid : first.Valid alphabet) (secondValid : second.Valid alphabet)
    (same : first.text = second.text) : first = second := by
  have sameRest : first.text ++ [] = second.text ++ [] := by rw [same]
  exact (UnionDerivation.unambiguous firstValid secondValid UnionDerivation.endsBefore_nil
    UnionDerivation.endsBefore_nil sameRest).1

theorem UnionDerivation.Derives.unique {text : List Char} {first second : UnionDerivation}
    (firstDerives : first.Derives alphabet text) (secondDerives : second.Derives alphabet text) :
    first = second :=
  UnionDerivation.eq_of_text_eq firstDerives.valid secondDerives.valid
    (firstDerives.text.trans secondDerives.text.symm)

end RegularWords.Grammar
