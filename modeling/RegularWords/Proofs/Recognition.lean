import RegularWords.Proofs.Reading

/-!
The parser accepts exactly what the grammar derives.

Each rule reads exactly the derivations of its form whose groups fit in the room that is left and
whose trees stay within the limit.  Going up from primaries to unions, the form of the operands
decides that of the chain; groups are read by induction on the room.
-/

namespace RegularWords.Grammar

variable {alphabet : Alphabet} {room : Nat}

/-! ### Forms -/

/-- A form of the grammar: its derivations and what may stand behind them. -/
structure Form where
  Derivation : Type
  text : Derivation → List Char
  subtree : Derivation → Subtree
  groups : Derivation → Nat
  Valid : Derivation → Prop
  EndsBefore : Option Char → Prop

structure Form.Fits (form : Form) (room : Nat) (derivation : form.Derivation) : Prop where
  valid : form.Valid derivation
  groups : form.groups derivation ≤ room
  height : (form.subtree derivation).height ≤ depthLimit

/-- A rule reads a form if it stops exactly where a fitting derivation ends, with its tree. -/
def Rule.Reads (rule : Rule) (form : Form) (room : Nat) : Prop :=
  ∀ {start stop : Cursor} {result : Subtree}, (rule start).outcome = .ok (result, stop) ↔
    ∃ derivation, form.Fits room derivation ∧ start.Spans (form.text derivation) stop ∧
      form.EndsBefore stop.peek ∧ form.subtree derivation = result

def primaryForm (alphabet : Alphabet) : Form where
  Derivation := PrimaryDerivation
  text := PrimaryDerivation.text
  subtree := PrimaryDerivation.subtree
  groups := PrimaryDerivation.groups
  Valid := PrimaryDerivation.Valid alphabet
  EndsBefore := fun _ => True

def starForm (alphabet : Alphabet) : Form where
  Derivation := StarDerivation
  text := StarDerivation.text
  subtree := StarDerivation.subtree
  groups := StarDerivation.groups
  Valid := StarDerivation.Valid alphabet
  EndsBefore := StarDerivation.EndsBefore

def concatForm (alphabet : Alphabet) : Form where
  Derivation := ConcatDerivation
  text := ConcatDerivation.text
  subtree := ConcatDerivation.subtree
  groups := ConcatDerivation.groups
  Valid := ConcatDerivation.Valid alphabet
  EndsBefore := ConcatDerivation.EndsBefore

def unionForm (alphabet : Alphabet) : Form where
  Derivation := UnionDerivation
  text := UnionDerivation.text
  subtree := UnionDerivation.subtree
  groups := UnionDerivation.groups
  Valid := UnionDerivation.Valid alphabet
  EndsBefore := UnionDerivation.EndsBefore

def groupForm (alphabet : Alphabet) : Form where
  Derivation := UnionDerivation
  text := fun inside => inside.text ++ [')']
  subtree := UnionDerivation.subtree
  groups := fun inside => inside.groups + 1
  Valid := UnionDerivation.Valid alphabet
  EndsBefore := fun _ => True

theorem Rule.Reads.height_le {rule : Rule} {form : Form} (reads : rule.Reads form room)
    {start next : Cursor} {subtree : Subtree}
    (read : (rule start).outcome = .ok (subtree, next)) : subtree.height ≤ depthLimit := by
  obtain ⟨derivation, fits, _, _, rfl⟩ := reads.mp read
  exact fits.height

/-! ### Primaries and repetitions -/

theorem primary_reads {group : Position → Rule}
    (groupReads : ∀ opened, (group opened).Reads (groupForm alphabet) room) :
    (primary alphabet group).Reads (primaryForm alphabet) room := by
  rintro ⟨_ | ⟨character, rest⟩, position⟩ stop result
  · rw [outcome_primary_nil]
    constructor
    · intro failed
      cases failed
    · intro derived
      obtain ⟨derivation, -, spans, -, -⟩ := derived
      obtain ⟨initial, others, starts⟩ := PrimaryDerivation.exists_text_eq_cons derivation
      change Cursor.Spans _ derivation.text stop at spans
      rw [starts] at spans
      exact absurd spans Cursor.not_nil_spans_cons
  · rw [outcome_primary_cons]
    constructor
    · intro read
      split at read
      · rename_i isOpening
        obtain ⟨inside, fits, spans, _, rfl⟩ := (groupReads position).mp read
        refine ⟨.group inside, ⟨fits.valid, fits.groups, fits.height⟩, ?_, trivial, rfl⟩
        exact Cursor.cons_spans_cons_iff.mpr ⟨isOpening, spans⟩
      · rename_i notOpening
        split at read
        · rename_i isEmptyWord
          cases read
          refine ⟨.emptyWord, ⟨trivial, Nat.zero_le _, Nat.zero_le _⟩, ?_, trivial, rfl⟩
          exact Cursor.cons_spans_cons_iff.mpr ⟨isEmptyWord, Cursor.spans_nil_iff.mpr rfl⟩
        · rename_i notEmptyWord
          split at read
          · rename_i isSymbol
            cases read
            have valid : (PrimaryDerivation.symbol character).Valid alphabet :=
              ⟨Alphabet.contains_iff.mp isSymbol, notOpening, notEmptyWord⟩
            refine ⟨.symbol character, ⟨valid, Nat.zero_le _, Nat.zero_le _⟩, ?_, trivial, rfl⟩
            exact Cursor.cons_spans_cons_iff.mpr ⟨rfl, Cursor.spans_nil_iff.mpr rfl⟩
          · cases read
    · intro derived
      obtain ⟨derivation, fits, spans, -, rfl⟩ := derived
      cases derivation with
      | group inside =>
          obtain ⟨rfl, spansInside⟩ := Cursor.cons_spans_cons_iff.mp spans
          rw [if_pos rfl]
          exact (groupReads position).mpr
            ⟨inside, ⟨fits.valid, fits.groups, fits.height⟩, spansInside, trivial, rfl⟩
      | emptyWord =>
          obtain ⟨rfl, atEnd⟩ := Cursor.cons_spans_cons_iff.mp spans
          cases Cursor.spans_nil_iff.mp atEnd
          rfl
      | symbol symbol =>
          obtain ⟨rfl, atEnd⟩ := Cursor.cons_spans_cons_iff.mp spans
          cases Cursor.spans_nil_iff.mp atEnd
          obtain ⟨isSymbol, notOpening, notEmptyWord⟩ := fits.valid
          rw [if_neg notOpening, if_neg notEmptyWord, if_pos (Alphabet.contains_iff.mpr isSymbol)]
          rfl

theorem repeated_reads {part : Rule} (partReads : part.Reads (primaryForm alphabet) room) :
    (repeated part).Reads (starForm alphabet) room := by
  intro start stop result
  rw [outcome_repeated_eq_ok_iff partReads.height_le]
  constructor
  · intro repeats
    obtain ⟨subtree, here, number, read, spansStars, ends, rfl, low⟩ := repeats
    obtain ⟨derivation, fits, spans, _, rfl⟩ := partReads.mp read
    refine ⟨.starred derivation number, ⟨fits.valid, fits.groups, low⟩, ?_, ends, rfl⟩
    exact Cursor.spans_append_iff.mpr ⟨here, spans, spansStars⟩
  · intro derived
    obtain ⟨derivation, fits, spans, ends, rfl⟩ := derived
    cases derivation with
    | starred derivation number =>
        obtain ⟨here, spansPrimary, spansStars⟩ := Cursor.spans_append_iff.mp spans
        have low : (derivation.subtree.starred number).height ≤ depthLimit := fits.height
        have lowPrimary : derivation.subtree.height ≤ depthLimit := by
          rw [Subtree.height_starred] at low
          omega
        refine ⟨derivation.subtree, here, number, ?_, spansStars, ends, rfl, low⟩
        exact partReads.mpr
          ⟨derivation, ⟨fits.valid, fits.groups, lowPrimary⟩, spansPrimary, trivial, rfl⟩

/-! ### Chains -/

theorem height_le_of_mem_of_chain {build : List Expr → Expr} {operands : List Subtree}
    {bound : Nat} (low : (Subtree.chain build operands).height ≤ bound) :
    ∀ operand ∈ operands, operand.height ≤ bound := by
  have largest : (operands.map Subtree.height).foldr max 0 ≤ bound :=
    Nat.le_trans (Nat.le_add_right _ _) low
  rwa [foldr_max_le_iff, List.forall_mem_map] at largest

theorem follow_concatenation_eq_none_iff {here : Cursor} :
    concatenation.follow here = none ↔ ConcatDerivation.EndsBefore here.peek := by
  simp only [concatenation, ConcatDerivation.EndsBefore]
  cases next : here.peek with
  | none => simp
  | some character =>
      by_cases isPlus : character = '+'
      · simp [isPlus]
      · simp [isPlus]

theorem follow_concatenation_eq_some_iff {here : Cursor}
    {there : { next : Cursor // next.remaining ≤ here.remaining }} :
    concatenation.follow here = some there ↔
      there.val = here ∧ ¬ ConcatDerivation.EndsBefore here.peek := by
  rw [← follow_concatenation_eq_none_iff]
  rcases there with ⟨there, notFarther⟩
  simp only [concatenation]
  cases next : here.peek with
  | none => simp
  | some character =>
      by_cases ends : character = '+' ∨ character = ')'
      · simp [ends]
      · simp [ends, eq_comm]

theorem follow_alternation_eq_none_iff {here : Cursor} :
    alternation.follow here = none ↔ here.peek ≠ some '+' := by
  rw [← Cursor.eat_eq_none_iff]
  simp only [alternation]
  split <;> simp_all

theorem follow_alternation_eq_some_iff {here : Cursor}
    {there : { next : Cursor // next.remaining ≤ here.remaining }} :
    alternation.follow here = some there ↔ here.Spans ['+'] there := by
  rw [← Cursor.eat_eq_some_iff]
  simp only [alternation]
  split <;> simp_all [Subtype.ext_iff]

theorem ConcatDerivation.peek_of_spans {derivation : ConcatDerivation} {start stop : Cursor}
    (spans : start.Spans derivation.text stop) : start.peek = derivation.text.head? := by
  obtain ⟨initial, others, starts⟩ := derivation.exists_text_eq_cons
  rw [starts] at spans ⊢
  exact spans.peek

theorem exists_derivation_of_chains_concatenation {factor : Rule}
    (factorReads : factor.Reads (starForm alphabet) room) {start stop : Cursor}
    {subtrees : List Subtree} (chains : concatenation.Chains factor start subtrees stop) :
    ∃ derivation : ConcatDerivation, derivation.Valid alphabet ∧ derivation.groups ≤ room ∧
      start.Spans derivation.text stop ∧ ConcatDerivation.EndsBefore stop.peek ∧
        derivation.factors = subtrees := by
  induction chains with
  | last read ends =>
      obtain ⟨derivation, fits, spans, _, rfl⟩ := factorReads.mp read
      exact ⟨.last derivation, fits.valid, fits.groups, spans,
        follow_concatenation_eq_none_iff.mp ends, rfl⟩
  | @more start here stop subtree subtrees there read goesOn later inductionHypothesis =>
      obtain ⟨first, fits, spans, starEnds, rfl⟩ := factorReads.mp read
      obtain ⟨rest, restValid, restGroups, restSpans, ends, rfl⟩ := inductionHypothesis
      obtain ⟨sameCursor, notEnd⟩ := follow_concatenation_eq_some_iff.mp goesOn
      rw [sameCursor] at restSpans
      have starts : here.peek = rest.text.head? := ConcatDerivation.peek_of_spans restSpans
      rw [starts] at notEnd starEnds
      refine ⟨.more first rest, ⟨fits.valid, restValid, ?_⟩,
        Nat.max_le.mpr ⟨fits.groups, restGroups⟩,
        Cursor.spans_append_iff.mpr ⟨here, spans, restSpans⟩, ends, rfl⟩
      intro initial isInitial
      rw [Option.mem_def] at isInitial
      rw [isInitial] at notEnd starEnds
      refine ⟨?_, ?_, ?_⟩
      · rintro rfl
        exact notEnd fun character isNext => .inl (Option.some.inj isNext).symm
      · rintro rfl
        exact starEnds rfl
      · rintro rfl
        exact notEnd fun character isNext => .inr (Option.some.inj isNext).symm

theorem chains_concatenation_of_derivation {factor : Rule}
    (factorReads : factor.Reads (starForm alphabet) room) :
    ∀ {derivation : ConcatDerivation} {start stop : Cursor}, derivation.Valid alphabet →
      derivation.groups ≤ room → (∀ operand ∈ derivation.factors, operand.height ≤ depthLimit) →
        start.Spans derivation.text stop → ConcatDerivation.EndsBefore stop.peek →
          concatenation.Chains factor start derivation.factors stop
  | .last derivation, start, stop, valid, groups, low, spans, ends => by
      have fits : (starForm alphabet).Fits room derivation :=
        ⟨valid, groups, low _ List.mem_cons_self⟩
      exact .last (factorReads.mpr ⟨derivation, fits, spans, ends.star, rfl⟩)
        (follow_concatenation_eq_none_iff.mpr ends)
  | .more first rest, start, stop, valid, groups, low, spans, ends => by
      obtain ⟨starEnds, goesOn⟩ := ConcatDerivation.endsBefore_later valid []
      obtain ⟨firstValid, restValid, _⟩ := valid
      obtain ⟨firstGroups, restGroups⟩ := Nat.max_le.mp groups
      obtain ⟨firstLow, restLow⟩ := List.forall_mem_cons.mp low
      obtain ⟨here, firstSpans, restSpans⟩ := Cursor.spans_append_iff.mp spans
      rw [List.append_nil, ← ConcatDerivation.peek_of_spans restSpans] at starEnds goesOn
      have fits : (starForm alphabet).Fits room first := ⟨firstValid, firstGroups, firstLow⟩
      have follows : concatenation.follow here = some ⟨here, Nat.le_refl _⟩ :=
        follow_concatenation_eq_some_iff.mpr ⟨rfl, goesOn⟩
      exact .more (factorReads.mpr ⟨first, fits, firstSpans, starEnds, rfl⟩) follows
        (chains_concatenation_of_derivation factorReads restValid restGroups restLow restSpans ends)

theorem chain_concatenation_reads {factor : Rule}
    (factorReads : factor.Reads (starForm alphabet) room) :
    (chain concatenation factor).Reads (concatForm alphabet) room := by
  intro start stop result
  rw [outcome_chain_eq_ok_iff factorReads.height_le]
  constructor
  · intro chained
    obtain ⟨subtrees, chains, rfl, low⟩ := chained
    obtain ⟨derivation, valid, groups, spans, ends, rfl⟩ :=
      exists_derivation_of_chains_concatenation factorReads chains
    exact ⟨derivation, ⟨valid, groups, low⟩, spans, ends, rfl⟩
  · intro derived
    obtain ⟨derivation, fits, spans, ends, rfl⟩ := derived
    have chains := chains_concatenation_of_derivation factorReads fits.valid fits.groups
      (height_le_of_mem_of_chain fits.height) spans ends
    exact ⟨_, chains, rfl, fits.height⟩

theorem UnionDerivation.endsBefore_iff {next : Option Char} :
    UnionDerivation.EndsBefore next ↔ ConcatDerivation.EndsBefore next ∧ next ≠ some '+' := by
  constructor
  · intro ends
    refine ⟨ends.concat, ?_⟩
    rintro rfl
    exact absurd (ends '+' rfl) (by decide)
  · rintro ⟨ends, notPlus⟩ character isNext
    rcases ends character isNext with rfl | isClosing
    · exact absurd isNext notPlus
    · exact isClosing

theorem exists_derivation_of_chains_alternation {alternative : Rule}
    (alternativeReads : alternative.Reads (concatForm alphabet) room) {start stop : Cursor}
    {subtrees : List Subtree} (chains : alternation.Chains alternative start subtrees stop) :
    ∃ derivation : UnionDerivation, derivation.Valid alphabet ∧ derivation.groups ≤ room ∧
      start.Spans derivation.text stop ∧ UnionDerivation.EndsBefore stop.peek ∧
        derivation.alternatives = subtrees := by
  induction chains with
  | last read ends =>
      obtain ⟨derivation, fits, spans, concatEnds, rfl⟩ := alternativeReads.mp read
      exact ⟨.last derivation, fits.valid, fits.groups, spans,
        UnionDerivation.endsBefore_iff.mpr ⟨concatEnds, follow_alternation_eq_none_iff.mp ends⟩,
        rfl⟩
  | @more start here stop subtree subtrees there read goesOn later inductionHypothesis =>
      obtain ⟨first, fits, spans, _, rfl⟩ := alternativeReads.mp read
      obtain ⟨rest, restValid, restGroups, restSpans, ends, rfl⟩ := inductionHypothesis
      have plusSpans := follow_alternation_eq_some_iff.mp goesOn
      refine ⟨.more first rest, ⟨fits.valid, restValid⟩,
        Nat.max_le.mpr ⟨fits.groups, restGroups⟩, ?_, ends, rfl⟩
      exact Cursor.spans_append_iff.mpr
        ⟨here, spans, Cursor.spans_append_iff.mpr ⟨there, plusSpans, restSpans⟩⟩

theorem chains_alternation_of_derivation {alternative : Rule}
    (alternativeReads : alternative.Reads (concatForm alphabet) room) :
    ∀ {derivation : UnionDerivation} {start stop : Cursor}, derivation.Valid alphabet →
      derivation.groups ≤ room →
        (∀ operand ∈ derivation.alternatives, operand.height ≤ depthLimit) →
          start.Spans derivation.text stop → UnionDerivation.EndsBefore stop.peek →
            alternation.Chains alternative start derivation.alternatives stop
  | .last derivation, start, stop, valid, groups, low, spans, ends => by
      have fits : (concatForm alphabet).Fits room derivation :=
        ⟨valid, groups, low _ List.mem_cons_self⟩
      obtain ⟨concatEnds, notPlus⟩ := UnionDerivation.endsBefore_iff.mp ends
      exact .last (alternativeReads.mpr ⟨derivation, fits, spans, concatEnds, rfl⟩)
        (follow_alternation_eq_none_iff.mpr notPlus)
  | .more first rest, start, stop, valid, groups, low, spans, ends => by
      obtain ⟨firstValid, restValid⟩ := valid
      obtain ⟨firstGroups, restGroups⟩ := Nat.max_le.mp groups
      obtain ⟨firstLow, restLow⟩ := List.forall_mem_cons.mp low
      obtain ⟨here, firstSpans, behindSpans⟩ := Cursor.spans_append_iff.mp spans
      have plusRestSpans : here.Spans (['+'] ++ rest.text) stop := behindSpans
      obtain ⟨there, plusSpans, restSpans⟩ := Cursor.spans_append_iff.mp plusRestSpans
      have notFarther : there.remaining ≤ here.remaining :=
        Nat.le_of_lt (Cursor.remaining_of_eat (Cursor.eat_eq_some_iff.mpr plusSpans))
      have follows : alternation.follow here = some ⟨there, notFarther⟩ :=
        follow_alternation_eq_some_iff.mpr plusSpans
      have concatEnds : ConcatDerivation.EndsBefore here.peek := by
        rw [plusSpans.peek]
        exact ConcatDerivation.endsBefore_plus []
      have fits : (concatForm alphabet).Fits room first := ⟨firstValid, firstGroups, firstLow⟩
      exact .more (alternativeReads.mpr ⟨first, fits, firstSpans, concatEnds, rfl⟩) follows
        (chains_alternation_of_derivation alternativeReads restValid restGroups restLow restSpans
          ends)

theorem chain_alternation_reads {alternative : Rule}
    (alternativeReads : alternative.Reads (concatForm alphabet) room) :
    (chain alternation alternative).Reads (unionForm alphabet) room := by
  intro start stop result
  rw [outcome_chain_eq_ok_iff alternativeReads.height_le]
  constructor
  · intro chained
    obtain ⟨subtrees, chains, rfl, low⟩ := chained
    obtain ⟨derivation, valid, groups, spans, ends, rfl⟩ :=
      exists_derivation_of_chains_alternation alternativeReads chains
    exact ⟨derivation, ⟨valid, groups, low⟩, spans, ends, rfl⟩
  · intro derived
    obtain ⟨derivation, fits, spans, ends, rfl⟩ := derived
    have chains := chains_alternation_of_derivation alternativeReads fits.valid fits.groups
      (height_le_of_mem_of_chain fits.height) spans ends
    exact ⟨_, chains, rfl, fits.height⟩

/-! ### Groups and whole texts -/

theorem union_reads {group : Position → Rule}
    (groupReads : ∀ opened, (group opened).Reads (groupForm alphabet) room) :
    (union alphabet group).Reads (unionForm alphabet) room :=
  chain_alternation_reads (chain_concatenation_reads (repeated_reads (primary_reads groupReads)))

theorem group_reads (opened : Position) :
    (group alphabet room opened).Reads (groupForm alphabet) room := by
  induction room generalizing opened with
  | zero =>
      intro start stop result
      constructor
      · intro read
        cases read
      · intro derived
        obtain ⟨inside, fits, _⟩ := derived
        exact absurd fits.groups (Nat.not_succ_le_zero _)
  | succ room inductionHypothesis =>
      have unionReads : (union alphabet (group alphabet room)).Reads (unionForm alphabet) room :=
        union_reads inductionHypothesis
      intro start stop result
      rw [group, outcome_closeGroup_eq_ok_iff]
      constructor
      · intro closed
        obtain ⟨here, read, closes⟩ := closed
        obtain ⟨inside, fits, spans, _, rfl⟩ := unionReads.mp read
        refine ⟨inside, ⟨fits.valid, Nat.succ_le_succ fits.groups, fits.height⟩, ?_, trivial, rfl⟩
        exact Cursor.spans_append_iff.mpr ⟨here, spans, closes⟩
      · intro derived
        obtain ⟨inside, fits, spans, _, rfl⟩ := derived
        obtain ⟨here, insideSpans, closes⟩ := Cursor.spans_append_iff.mp spans
        have ends : UnionDerivation.EndsBefore here.peek := by
          rw [closes.peek]
          exact UnionDerivation.endsBefore_closing []
        refine ⟨here, unionReads.mpr ⟨inside, ?_, insideSpans, ends, rfl⟩, closes⟩
        exact ⟨fits.valid, Nat.le_of_succ_le_succ fits.groups, fits.height⟩

theorem outcome_parsing_eq_ok_iff {text : List Char} {result : Subtree} :
    (parsing alphabet text).outcome = .ok result ↔
      ∃ derivation : UnionDerivation,
        derivation.Derives alphabet text ∧ derivation.subtree = result := by
  have unionReads : (union alphabet (group alphabet depthLimit)).Reads (unionForm alphabet)
      depthLimit := union_reads group_reads
  rw [parsing, outcome_ofReading_eq_ok_iff]
  constructor
  · intro accepted
    obtain ⟨stop, read, atEnd⟩ := accepted
    obtain ⟨derivation, fits, spans, _, rfl⟩ := unionReads.mp read
    refine ⟨derivation, ⟨fits.valid, fits.groups, fits.height, ?_⟩, rfl⟩
    have whole : text = derivation.text ++ stop.rest := spans.rest
    rw [whole, List.head?_eq_none_iff.mp atEnd, List.append_nil]
  · intro derived
    obtain ⟨derivation, derives, rfl⟩ := derived
    refine ⟨{ rest := [], position := { offset := text.length } }, ?_, rfl⟩
    refine unionReads.mpr ⟨derivation, ⟨derives.valid, derives.groups, derives.height⟩, ?_, ?_, rfl⟩
    · rw [← derives.text]
      exact ⟨(List.append_nil _).symm, (Nat.zero_add _).symm⟩
    · exact UnionDerivation.endsBefore_nil

theorem parse_eq_ok_iff {text : String} {expr : Expr} :
    parse alphabet text = .ok expr ↔
      ∃ derivation : UnionDerivation,
        derivation.Derives alphabet text.toList ∧ derivation.subtree.expr = expr := by
  unfold parse
  cases parsed : (parsing alphabet text.toList).outcome with
  | error error =>
      constructor
      · intro failed
        cases failed
      · intro derived
        obtain ⟨derivation, derives, _⟩ := derived
        rw [outcome_parsing_eq_ok_iff.mpr ⟨derivation, derives, rfl⟩] at parsed
        cases parsed
  | ok subtree =>
      obtain ⟨derivation, derives, rfl⟩ := outcome_parsing_eq_ok_iff.mp parsed
      constructor
      · intro same
        cases same
        exact ⟨derivation, derives, rfl⟩
      · intro derived
        obtain ⟨other, otherDerives, rfl⟩ := derived
        rw [otherDerives.unique derives]
        rfl

/-- The parser accepts exactly the texts with a derivation within the limits, which is the only one,
and gives the tree of the derivation. -/
theorem parse_recognizes_grammar (alphabet : Alphabet) (text : String) :
    (∀ expr : Expr, parse alphabet text = .ok expr ↔
      ∃ derivation : UnionDerivation,
        derivation.Derives alphabet text.toList ∧ derivation.subtree.expr = expr) ∧
      ∀ first second : UnionDerivation, first.Derives alphabet text.toList →
        second.Derives alphabet text.toList → first = second :=
  ⟨fun _ => parse_eq_ok_iff, fun _ _ firstDerives => firstDerives.unique⟩

end RegularWords.Grammar
