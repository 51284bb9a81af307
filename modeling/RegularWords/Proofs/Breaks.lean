import RegularWords.Proofs.Recognition

/-!
Derivations that break off.

A text goes wrong where a factor has to start and none does, or at its end while a group is open.
What stands before that place is a derivation cut short: groups that are not closed, and in each of
them the operands that are complete.  It can be repaired there, by an empty word and closing
parentheses, and whatever goes on with the next character that is really there has no derivation.
-/

namespace RegularWords.Grammar

mutual

/-- Nothing of the primary is there, or it is a group that breaks off. -/
inductive PrimaryBreak where
  | missing
  | group (inside : GroupBreak)

inductive GroupBreak where
  | inside (union : UnionBreak)
  | unclosed (union : UnionDerivation)

inductive ConcatBreak where
  | here (factor : PrimaryBreak)
  | behind (factor : StarDerivation) (later : ConcatBreak)

inductive UnionBreak where
  | here (alternative : ConcatBreak)
  | behind (alternative : ConcatDerivation) (later : UnionBreak)

end

mutual

def PrimaryBreak.text : PrimaryBreak → List Char
  | .missing => []
  | .group inside => '(' :: inside.text

def GroupBreak.text : GroupBreak → List Char
  | .inside union => union.text
  | .unclosed union => union.text

def ConcatBreak.text : ConcatBreak → List Char
  | .here factor => factor.text
  | .behind factor later => factor.text ++ later.text

def UnionBreak.text : UnionBreak → List Char
  | .here alternative => alternative.text
  | .behind alternative later => alternative.text ++ '+' :: later.text

end

def missingFactor (next : Option Char) (position : Position) : SyntaxError :=
  match next with
  | none => .unexpectedEnd position
  | some character => .unexpectedChar position character

mutual

def PrimaryBreak.error (next : Option Char) (position : Position) : PrimaryBreak → SyntaxError
  | .missing => missingFactor next position
  | .group inside => inside.error next position

def GroupBreak.error (next : Option Char) (position : Position) : GroupBreak → SyntaxError
  | .inside union => union.error next position
  | .unclosed union =>
      .unmatchedParen { offset := position.offset - (union.text.length + 1) } position none

def ConcatBreak.error (next : Option Char) (position : Position) : ConcatBreak → SyntaxError
  | .here factor => factor.error next position
  | .behind _ later => later.error next position

def UnionBreak.error (next : Option Char) (position : Position) : UnionBreak → SyntaxError
  | .here alternative => alternative.error next position
  | .behind _ later => later.error next position

end

structure FollowsFactor (next : Option Char) : Prop where
  endsStar : StarDerivation.EndsBefore next
  goesOn : ¬ ConcatDerivation.EndsBefore next

mutual

/-- Whether the complete parts fit in the room that is left for groups, and the derivation really
breaks off where the text goes on with the given character, or ends. -/
def PrimaryBreak.Fits (alphabet : Alphabet) (room : Nat) (next : Option Char) :
    PrimaryBreak → Prop
  | .missing =>
      ∀ character ∈ next, character ≠ '(' ∧ character ≠ '@' ∧ character ∉ alphabet.symbols
  | .group inside => inside.Fits alphabet room next

def GroupBreak.Fits (alphabet : Alphabet) (room : Nat) (next : Option Char) : GroupBreak → Prop
  | .inside union => 0 < room ∧ union.Fits alphabet (room - 1) next
  | .unclosed union => (groupForm alphabet).Fits room union ∧ next = none

def ConcatBreak.Fits (alphabet : Alphabet) (room : Nat) (next : Option Char) : ConcatBreak → Prop
  | .here factor => factor.Fits alphabet room next
  | .behind factor later =>
      (starForm alphabet).Fits room factor ∧ later.Fits alphabet room next ∧
        FollowsFactor (later.text.head?.or next)

def UnionBreak.Fits (alphabet : Alphabet) (room : Nat) (next : Option Char) : UnionBreak → Prop
  | .here alternative => alternative.Fits alphabet room next
  | .behind alternative later =>
      (concatForm alphabet).Fits room alternative ∧ later.Fits alphabet room next

end

variable {alphabet : Alphabet} {room : Nat} {next : Option Char}

/-! ### Repairs -/

mutual

/-- The derivation that goes on with an empty word, if a factor is missing, and closes all groups. -/
def PrimaryBreak.repaired : PrimaryBreak → PrimaryDerivation
  | .missing => .emptyWord
  | .group inside => .group inside.repaired

def GroupBreak.repaired : GroupBreak → UnionDerivation
  | .inside union => union.repaired
  | .unclosed union => union

def ConcatBreak.repaired : ConcatBreak → ConcatDerivation
  | .here factor => .last (.starred factor.repaired 0)
  | .behind factor later => .more factor later.repaired

def UnionBreak.repaired : UnionBreak → UnionDerivation
  | .here alternative => .last alternative.repaired
  | .behind alternative later => .more alternative later.repaired

end

mutual

theorem PrimaryBreak.text_isPrefix : ∀ brk : PrimaryBreak, brk.text <+: brk.repaired.text
  | .missing => List.nil_prefix
  | .group inside => by
      rw [PrimaryBreak.text, PrimaryBreak.repaired, PrimaryDerivation.text, List.prefix_cons_inj]
      exact inside.text_isPrefix.trans (List.prefix_append _ _)

theorem GroupBreak.text_isPrefix : ∀ brk : GroupBreak, brk.text <+: brk.repaired.text
  | .inside union => union.text_isPrefix
  | .unclosed _ => List.prefix_rfl

theorem ConcatBreak.text_isPrefix : ∀ brk : ConcatBreak, brk.text <+: brk.repaired.text
  | .here factor => factor.text_isPrefix.trans (List.prefix_append _ _)
  | .behind factor later => by
      rw [ConcatBreak.text, ConcatBreak.repaired, ConcatDerivation.text,
        List.prefix_append_right_inj]
      exact later.text_isPrefix

theorem UnionBreak.text_isPrefix : ∀ brk : UnionBreak, brk.text <+: brk.repaired.text
  | .here alternative => alternative.text_isPrefix
  | .behind alternative later => by
      rw [UnionBreak.text, UnionBreak.repaired, UnionDerivation.text,
        List.prefix_append_right_inj, List.prefix_cons_inj]
      exact later.text_isPrefix

end

theorem PrimaryBreak.head?_repaired (brk : PrimaryBreak) :
    brk.repaired.text.head? = brk.text.head?.or (some '@') := by
  cases brk with
  | missing => rfl
  | group inside => rfl

/-- A repair adds nothing before the place where the concatenation breaks off. -/
theorem ConcatBreak.head?_repaired (brk : ConcatBreak) :
    brk.repaired.text.head? = brk.text.head?.or (some '@') := by
  cases brk with
  | here factor =>
      rw [ConcatBreak.text, ← factor.head?_repaired]
      exact congrArg List.head? (List.append_nil _)
  | behind factor later =>
      obtain ⟨initial, rest, starts⟩ := factor.exists_text_eq_cons
      rw [ConcatBreak.text, ConcatBreak.repaired, ConcatDerivation.text, starts]
      rfl

theorem FollowsFactor.exists_character (follows : FollowsFactor next) :
    ∃ character ∈ next, character ≠ '+' ∧ character ≠ '*' ∧ character ≠ ')' := by
  cases next with
  | none => exact absurd UnionDerivation.endsBefore_nil.concat follows.goesOn
  | some character =>
      refine ⟨character, rfl, ?_, ?_, ?_⟩
      · rintro rfl
        exact follows.goesOn (ConcatDerivation.endsBefore_plus [])
      · rintro rfl
        exact follows.endsStar rfl
      · rintro rfl
        exact follows.goesOn (UnionDerivation.endsBefore_closing []).concat

theorem FollowsFactor.startsFactor {text : List Char} {first : Option Char}
    (follows : FollowsFactor (first.or next)) (starts : text.head? = first.or (some '@')) :
    StartsFactor text := by
  intro initial isInitial
  rw [starts] at isInitial
  cases first with
  | none =>
      cases Option.some.inj isInitial
      decide
  | some character =>
      obtain ⟨other, isNext, noOperator⟩ := follows.exists_character
      cases Option.some.inj isNext
      cases Option.some.inj isInitial
      exact noOperator

mutual

theorem PrimaryBreak.valid_repaired : ∀ {brk : PrimaryBreak} {room : Nat},
    brk.Fits alphabet room next → brk.repaired.Valid alphabet
  | .missing, _, _ => trivial
  | .group _, _, fits => GroupBreak.valid_repaired fits

theorem GroupBreak.valid_repaired : ∀ {brk : GroupBreak} {room : Nat},
    brk.Fits alphabet room next → brk.repaired.Valid alphabet
  | .inside _, _, fits => UnionBreak.valid_repaired fits.2
  | .unclosed _, _, fits => fits.1.valid

theorem ConcatBreak.valid_repaired : ∀ {brk : ConcatBreak} {room : Nat},
    brk.Fits alphabet room next → brk.repaired.Valid alphabet
  | .here _, _, fits => PrimaryBreak.valid_repaired fits
  | .behind _ later, _, fits =>
      ⟨fits.1.valid, ConcatBreak.valid_repaired fits.2.1,
        fits.2.2.startsFactor later.head?_repaired⟩

theorem UnionBreak.valid_repaired : ∀ {brk : UnionBreak} {room : Nat},
    brk.Fits alphabet room next → brk.repaired.Valid alphabet
  | .here _, _, fits => ConcatBreak.valid_repaired fits
  | .behind _ _, _, fits => ⟨fits.1.valid, UnionBreak.valid_repaired fits.2⟩

end

/-! ### No derivation goes on from where one breaks off -/

mutual

theorem PrimaryBreak.ne_text : ∀ {brk : PrimaryBreak} {derivation : PrimaryDerivation}
    {room : Nat} {rest behind : List Char}, brk.Fits alphabet room rest.head? →
      derivation.Valid alphabet → derivation.text ++ behind ≠ brk.text ++ rest
  | .missing, derivation, _, rest, behind, fits, valid => by
      intro same
      rw [PrimaryBreak.text, List.nil_append] at same
      rw [← same] at fits
      cases derivation with
      | group inside => exact (fits '(' rfl).1 rfl
      | emptyWord => exact (fits '@' rfl).2.1 rfl
      | symbol character => exact (fits character rfl).2.2 valid.1
  | .group brk, .group inside, _, rest, behind, fits, valid => by
      intro same
      rw [PrimaryBreak.text, PrimaryDerivation.text, List.cons_append, List.cons_append,
        List.append_assoc] at same
      exact GroupBreak.ne_text fits valid (List.cons.inj same).2
  | .group _, .emptyWord, _, _, _, _, _ => fun same => by cases (List.cons.inj same).1
  | .group _, .symbol character, _, _, _, _, valid => fun same =>
      valid.2.1 (List.cons.inj same).1

theorem GroupBreak.ne_text : ∀ {brk : GroupBreak} {derivation : UnionDerivation}
    {room : Nat} {rest behind : List Char}, brk.Fits alphabet room rest.head? →
      derivation.Valid alphabet → derivation.text ++ ')' :: behind ≠ brk.text ++ rest
  | .inside brk, _, _, _, _, fits, valid =>
      UnionBreak.ne_text fits.2 valid (UnionDerivation.endsBefore_closing _)
  | .unclosed union, derivation, _, rest, behind, fits, valid => by
      intro same
      obtain ⟨unionFits, atEnd⟩ := fits
      cases List.head?_eq_none_iff.mp atEnd
      cases (UnionDerivation.unambiguous valid unionFits.valid
        (UnionDerivation.endsBefore_closing behind) UnionDerivation.endsBefore_nil same).2

theorem ConcatBreak.ne_text : ∀ {brk : ConcatBreak} {derivation : ConcatDerivation}
    {room : Nat} {rest behind : List Char}, brk.Fits alphabet room rest.head? →
      derivation.Valid alphabet → ConcatDerivation.EndsBefore behind.head? →
        derivation.text ++ behind ≠ brk.text ++ rest
  | .here _, .last (.starred primary stars), _, _, _, fits, valid, _ => by
      rw [ConcatDerivation.text, StarDerivation.text, List.append_assoc]
      exact PrimaryBreak.ne_text fits valid
  | .here _, .more (.starred primary stars) later, _, _, _, fits, valid, _ => by
      rw [ConcatDerivation.text, StarDerivation.text, List.append_assoc, List.append_assoc]
      exact PrimaryBreak.ne_text fits valid.1
  | .behind factor brk, .last other, _, rest, behind, fits, valid, ends => by
      intro same
      obtain ⟨factorFits, _, follows⟩ := fits
      rw [← List.head?_append] at follows
      rw [ConcatBreak.text, ConcatDerivation.text, List.append_assoc] at same
      obtain ⟨rfl, rfl⟩ :=
        StarDerivation.unambiguous valid factorFits.valid ends.star follows.endsStar same
      exact follows.goesOn ends
  | .behind factor brk, .more other later, _, rest, behind, fits, valid, ends => by
      intro same
      obtain ⟨starEnds, _⟩ := ConcatDerivation.endsBefore_later valid behind
      obtain ⟨factorFits, laterFits, follows⟩ := fits
      rw [← List.head?_append] at follows
      rw [ConcatBreak.text, ConcatDerivation.text, List.append_assoc, List.append_assoc] at same
      obtain ⟨rfl, laterSame⟩ :=
        StarDerivation.unambiguous valid.1 factorFits.valid starEnds follows.endsStar same
      exact ConcatBreak.ne_text laterFits valid.2.1 ends laterSame

theorem UnionBreak.ne_text : ∀ {brk : UnionBreak} {derivation : UnionDerivation}
    {room : Nat} {rest behind : List Char}, brk.Fits alphabet room rest.head? →
      derivation.Valid alphabet → UnionDerivation.EndsBefore behind.head? →
        derivation.text ++ behind ≠ brk.text ++ rest
  | .here _, .last _, _, _, _, fits, valid, ends => ConcatBreak.ne_text fits valid ends.concat
  | .here _, .more alternative later, _, _, behind, fits, valid, _ => by
      rw [UnionDerivation.text, List.append_assoc, List.cons_append]
      exact ConcatBreak.ne_text fits valid.1 (ConcatDerivation.endsBefore_plus _)
  | .behind alternative brk, .last other, _, rest, behind, fits, valid, ends => by
      intro same
      rw [UnionBreak.text, UnionDerivation.text, List.append_assoc, List.cons_append] at same
      obtain ⟨_, rfl⟩ := ConcatDerivation.unambiguous valid fits.1.valid ends.concat
        (ConcatDerivation.endsBefore_plus _) same
      exact absurd (ends '+' rfl) (by decide)
  | .behind alternative brk, .more other later, _, rest, behind, fits, valid, ends => by
      intro same
      rw [UnionBreak.text, UnionDerivation.text, List.append_assoc, List.append_assoc,
        List.cons_append, List.cons_append] at same
      obtain ⟨_, laterSame⟩ := ConcatDerivation.unambiguous valid.1 fits.1.valid
        (ConcatDerivation.endsBefore_plus _) (ConcatDerivation.endsBefore_plus _) same
      exact UnionBreak.ne_text fits.2 valid.2 ends (List.cons.inj laterSame).2

end

end RegularWords.Grammar
