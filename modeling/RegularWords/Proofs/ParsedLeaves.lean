import Mathlib.Data.List.Intervals
import RegularWords.Proofs.Findings
import RegularWords.Proofs.RoundTrip

/-!
Parsed trees and the characters at their leaves.

The parser visits a primary wherever it expects one.  If it finds no group there, the character at
that place becomes a leaf.  Every other character that it consumes is an operator.
-/

namespace RegularWords

/-! ### Leaves -/

namespace Expr

mutual

/-- The leaves of a tree from the left, the empty word as an at sign. -/
def leaves : Expr → List Char
  | .literal symbol => [symbol]
  | .empty => ['@']
  | .concat factors => chainLeaves factors
  | .union alternatives => chainLeaves alternatives
  | .star inner => leaves inner

def chainLeaves : List Expr → List Char
  | [] => []
  | operand :: operands => leaves operand ++ chainLeaves operands

end

theorem chainLeaves_eq_flatMap (operands : List Expr) :
    chainLeaves operands = operands.flatMap leaves := by
  induction operands with
  | nil => rfl
  | cons operand operands inductionHypothesis =>
      rw [chainLeaves, inductionHypothesis, List.flatMap_cons]

theorem leaves_build (kind : ChainKind) (operands : List Expr) :
    (kind.build operands).leaves = operands.flatMap leaves := by
  apply kind.gather_build
  intro operands
  rw [← chainLeaves_eq_flatMap]
  cases kind with
  | concat => rfl
  | union => rfl

/-! ### Nodes -/

mutual

theorem allowed_of_mem_preorder {allowed : Expr → Prop} (hereditary : Hereditary allowed)
    {node : Expr} : ∀ {expr : Expr}, allowed expr → node ∈ expr.preorder → allowed node
  | .literal symbol, permitted, isNode => by
      rw [preorder] at isNode
      rwa [List.mem_singleton.mp isNode]
  | .empty, permitted, isNode => by
      rw [preorder] at isNode
      rwa [List.mem_singleton.mp isNode]
  | .concat factors, permitted, isNode => by
      rw [preorder] at isNode
      rcases List.mem_cons.mp isNode with rfl | inside
      · exact permitted
      · exact allowed_of_mem_chainPreorder hereditary (hereditary.concat permitted) inside
  | .union alternatives, permitted, isNode => by
      rw [preorder] at isNode
      rcases List.mem_cons.mp isNode with rfl | inside
      · exact permitted
      · exact allowed_of_mem_chainPreorder hereditary (hereditary.union permitted) inside
  | .star inner, permitted, isNode => by
      rw [preorder] at isNode
      rcases List.mem_cons.mp isNode with rfl | inside
      · exact permitted
      · exact allowed_of_mem_preorder hereditary (hereditary.star permitted) inside

theorem allowed_of_mem_chainPreorder {allowed : Expr → Prop} (hereditary : Hereditary allowed)
    {node : Expr} : ∀ {operands : List Expr}, (∀ operand ∈ operands, allowed operand) →
      node ∈ chainPreorder operands → allowed node
  | [], _, isNode => by
      rw [chainPreorder] at isNode
      cases isNode
  | operand :: operands, permitted, isNode => by
      rw [chainPreorder] at isNode
      obtain ⟨first, others⟩ := List.forall_mem_cons.mp permitted
      rcases List.mem_append.mp isNode with inside | later
      · exact allowed_of_mem_preorder hereditary first inside
      · exact allowed_of_mem_chainPreorder hereditary others later

end

end Expr

namespace Grammar

/-! ### Places of leaves -/

/-- Where primaries other than groups were visited, in the order of the visits. -/
def leafPlaces (text : List Char) (visits : List Visit) : List Nat :=
  (visits.filter fun visit =>
    visit.production = .primary ∧ text[visit.position.offset]? ≠ some '(').map
      fun visit => visit.position.offset

def marks : List Char :=
  ['(', ')', '+', '*']

theorem leafPlaces_append (text : List Char) (first second : List Visit) :
    leafPlaces text (first ++ second) = leafPlaces text first ++ leafPlaces text second := by
  rw [leafPlaces, List.filter_append, List.map_append]
  rfl

theorem leafPlaces_otherwise {text : List Char} {visit : Visit}
    (otherwise : visit.production ≠ .primary) : leafPlaces text [visit] = [] := by
  simp [leafPlaces, otherwise]

section Primaries

variable {text : List Char} {position : Position}

theorem leafPlaces_group (atPlace : text[position.offset]? = some '(') :
    leafPlaces text [{ production := .primary, position }] = [] := by
  simp [leafPlaces, atPlace]

theorem leafPlaces_leaf {character : Char} (atPlace : text[position.offset]? = some character)
    (noGroup : character ≠ '(') :
    leafPlaces text [{ production := .primary, position }] = [position.offset] := by
  simp [leafPlaces, atPlace, noGroup]

end Primaries

/-- What was read from one place of a text to another: the characters at some increasing places are
the leaves, and all others are marks.  The visits come latest first. -/
structure Consumes (text : List Char) (first last : Nat) (visits : List Visit)
    (leaves : List Char) : Prop where
  ordered : first ≤ last
  places : (leafPlaces text visits.reverse).Sublist (List.Ico first last)
  leaves : (leafPlaces text visits.reverse).map (text[·]?) = leaves.map some
  others : ∀ place ∈ List.Ico first last, place ∉ leafPlaces text visits.reverse →
    ∃ mark ∈ marks, text[place]? = some mark

namespace Consumes

variable {text leaves later : List Char} {first middle last : Nat} {visits inside : List Visit}
  {character : Char}

theorem append (consumes : Consumes text first middle visits leaves)
    (consumesLater : Consumes text middle last inside later) :
    Consumes text first last (inside ++ visits) (leaves ++ later) := by
  have split := List.Ico.append_consecutive consumes.ordered consumesLater.ordered
  have joined : leafPlaces text (inside ++ visits).reverse =
      leafPlaces text visits.reverse ++ leafPlaces text inside.reverse := by
    rw [List.reverse_append, leafPlaces_append]
  refine ⟨consumes.ordered.trans consumesLater.ordered, ?_, ?_, ?_⟩
  · rw [joined, ← split]
    exact consumes.places.append consumesLater.places
  · rw [joined, List.map_append, List.map_append, consumes.leaves, consumesLater.leaves]
  · rw [joined, ← split]
    intro place isPlace noLeaf
    obtain ⟨notBefore, notLater⟩ := not_or.mp (mt List.mem_append.mpr noLeaf)
    rcases List.mem_append.mp isPlace with before | behind
    · exact consumes.others place before notBefore
    · exact consumesLater.others place behind notLater

theorem nothing (noLeaf : leafPlaces text visits.reverse = []) :
    Consumes text first first visits [] where
  ordered := Nat.le_refl first
  places := by
    rw [noLeaf]
    exact List.nil_sublist _
  leaves := by
    rw [noLeaf]
    rfl
  others := by
    rw [List.Ico.self_empty]
    exact fun _ isPlace => absurd isPlace List.not_mem_nil

theorem mark (noLeaf : leafPlaces text visits.reverse = []) (isMark : character ∈ marks)
    (atPlace : text[first]? = some character) :
    Consumes text first (first + 1) visits [] where
  ordered := Nat.le_succ first
  places := by
    rw [noLeaf]
    exact List.nil_sublist _
  leaves := by
    rw [noLeaf]
    rfl
  others := by
    rw [List.Ico.succ_singleton]
    intro place isPlace _
    obtain rfl := List.mem_singleton.mp isPlace
    exact ⟨character, isMark, atPlace⟩

theorem leaf (alone : leafPlaces text visits.reverse = [first])
    (atPlace : text[first]? = some character) :
    Consumes text first (first + 1) visits [character] where
  ordered := Nat.le_succ first
  places := by
    rw [alone, List.Ico.succ_singleton]
  leaves := by
    rw [alone, List.map_singleton, atPlace]
    rfl
  others := by
    rw [alone, List.Ico.succ_singleton]
    exact fun _ isPlace noLeaf => absurd isPlace noLeaf

/-- A mark behind what was read. -/
theorem append_mark (consumes : Consumes text first middle visits leaves)
    (isMark : character ∈ marks) (atPlace : text[middle]? = some character) :
    Consumes text first (middle + 1) visits leaves := by
  have alone : Consumes text middle (middle + 1) [] [] := mark rfl isMark atPlace
  have extended := consumes.append alone
  rwa [List.nil_append, List.append_nil] at extended

end Consumes

/-! ### Readings -/

def Cursor.In (text : List Char) (cursor : Cursor) : Prop :=
  cursor.rest = text.drop cursor.position.offset

theorem Cursor.advance_in {text : List Char} {cursor next : Cursor} {character : Char}
    (inText : cursor.In text) (advanced : cursor.advance = some (character, next)) :
    text[cursor.position.offset]? = some character ∧ next.In text ∧
      next.position.offset = cursor.position.offset + 1 := by
  rcases cursor with ⟨_ | ⟨initial, rest⟩, position⟩
  · cases advanced
  · cases advanced
    unfold Cursor.In at inText ⊢
    refine ⟨?_, ?_, rfl⟩
    · rw [← List.head?_drop, ← inText]
      rfl
    · change rest = text.drop (position.offset + 1)
      rw [← List.tail_drop, ← inText]
      rfl

theorem Cursor.eat_in {text : List Char} {cursor next : Cursor} {expected : Char}
    (inText : cursor.In text) (eaten : cursor.eat expected = some next) :
    text[cursor.position.offset]? = some expected ∧ next.In text ∧
      next.position.offset = cursor.position.offset + 1 :=
  Cursor.advance_in inText (Cursor.advance_of_eat eaten)

def Reading.Gathers (text : List Char) {start : Cursor} : Reading start → Prop
  | .failed _ _ => True
  | .read subtree visits next _ =>
      next.In text ∧
        Consumes text start.position.offset next.position.offset visits subtree.expr.leaves

def Rule.Gathers (text : List Char) (rule : Rule) : Prop :=
  ∀ start : Cursor, start.In text → (rule start).Gathers text

variable {alphabet : Alphabet} {text : List Char} {start : Cursor}

theorem primary_gathers {group : Position → Rule}
    (groupsGather : ∀ opened, (group opened).Gathers text) :
    (primary alphabet group).Gathers text := by
  intro start inText
  unfold primary
  simp only
  split
  · trivial
  · rename_i character next advanced
    obtain ⟨atPlace, nextIn, nextOffset⟩ := Cursor.advance_in inText advanced
    by_cases isOpening : character = '('
    · rw [if_pos isOpening]
      subst isOpening
      have gathers := groupsGather start.position next nextIn
      have opening : Consumes text start.position.offset next.position.offset
          [{ production := .primary, position := start.position }] [] := by
        rw [nextOffset]
        exact .mark (leafPlaces_group atPlace) (by decide) atPlace
      split
      · trivial
      · rename_i subtree inside behind shorter read
        rw [read] at gathers
        exact ⟨gathers.1, opening.append gathers.2⟩
    · rw [if_neg isOpening]
      have consumes : Consumes text start.position.offset next.position.offset
          [{ production := .primary, position := start.position }] [character] := by
        rw [nextOffset]
        exact .leaf (leafPlaces_leaf atPlace isOpening) atPlace
      by_cases isEmptyWord : character = '@'
      · rw [if_pos isEmptyWord]
        subst isEmptyWord
        exact ⟨nextIn, consumes⟩
      · rw [if_neg isEmptyWord]
        split
        · exact ⟨nextIn, consumes⟩
        · trivial

theorem stars_gathers {subtree : Subtree} {visits : List Visit} {here : Cursor}
    {closer : here.remaining < start.remaining} (hereIn : here.In text)
    (consumes : Consumes text start.position.offset here.position.offset visits
      subtree.expr.leaves) : (stars subtree visits here closer).Gathers text := by
  fun_induction stars subtree visits here closer with
  | case1 => exact ⟨hereIn, consumes⟩
  | case2 => trivial
  | case3 subtree here closer next eaten height deeper shorter inductionHypothesis =>
      obtain ⟨atPlace, nextIn, nextOffset⟩ := Cursor.eat_in hereIn eaten
      apply inductionHypothesis nextIn
      rw [nextOffset, Expr.leaves]
      exact consumes.append_mark (by decide) atPlace

theorem repeated_gathers {part : Rule} (gathers : part.Gathers text) :
    (repeated part).Gathers text := by
  intro start inText
  have partGathers := gathers start inText
  unfold repeated
  split
  · trivial
  · rename_i subtree visits next closer read
    rw [read] at partGathers
    exact stars_gathers partGathers.1 partGathers.2

/-! ### Chains -/

/-- A chain goes on behind a mark or at once, and has the leaves of its operands. -/
structure ChainOperator.Gathers (text : List Char) (operator : ChainOperator) : Prop where
  follow : ∀ {here : Cursor} {there}, here.In text → operator.follow here = some there →
    there.1.In text ∧ Consumes text here.position.offset there.1.position.offset [] []
  build : ∀ operands, (operator.build operands).leaves = operands.flatMap Expr.leaves
  notPrimary : operator.production ≠ .primary

theorem concatenation_gathers : concatenation.Gathers text where
  follow := by
    intro here there hereIn goesOn
    simp only [concatenation] at goesOn
    split at goesOn
    · cases goesOn
    · split at goesOn
      · cases goesOn
      · cases goesOn
        exact ⟨hereIn, .nothing rfl⟩
  build := Expr.leaves_build .concat
  notPrimary := by decide

theorem alternation_gathers : alternation.Gathers text where
  follow := by
    intro here there hereIn goesOn
    simp only [alternation] at goesOn
    split at goesOn
    · cases goesOn
    · rename_i next eaten
      cases goesOn
      obtain ⟨atPlace, nextIn, nextOffset⟩ := Cursor.eat_in hereIn eaten
      rw [nextOffset]
      exact ⟨nextIn, .mark rfl (by decide) atPlace⟩
  build := Expr.leaves_build .union
  notPrimary := by decide

variable {operator : ChainOperator} {operand : Rule} {operands : List Subtree}

theorem expr_of_assemble {position : Position} {subtree : Subtree}
    (assembled : operator.assemble position operands = .ok subtree) :
    subtree.expr = operator.build (operands.reverse.map Subtree.expr) := by
  rw [← List.reverse_reverse operands, assemble_reverse] at assembled
  split at assembled
  · cases assembled
    rfl
  · cases assembled

theorem operandsFrom_gathers (operatorGathers : operator.Gathers text)
    (operandsGather : operand.Gathers text) {visits : List Visit} {here : Cursor}
    {closer : here.remaining < start.remaining} (hereIn : here.In text)
    (consumes : Consumes text start.position.offset here.position.offset visits
      ((operands.reverse.map Subtree.expr).flatMap Expr.leaves)) :
    (operandsFrom operator operand operands visits here closer).Gathers text := by
  fun_induction operandsFrom operator operand operands visits here closer with
  | case1 => trivial
  | case2 operands visits here closer ends subtree assembled =>
      rw [← operatorGathers.build, ← expr_of_assemble assembled] at consumes
      exact ⟨hereIn, consumes⟩
  | case3 => trivial
  | case4 operands visits here closer there notFarther goesOn subtree inside next shorter read
      nextCloser inductionHypothesis =>
      obtain ⟨thereIn, between⟩ := operatorGathers.follow hereIn goesOn
      have gathers := operandsGather there thereIn
      rw [read] at gathers
      apply inductionHypothesis gathers.1
      have extended := (consumes.append between).append gathers.2
      rw [List.nil_append, List.append_nil] at extended
      rwa [List.reverse_cons, List.map_append, List.flatMap_append, List.map_singleton,
        List.flatMap_singleton]

theorem chain_gathers (operatorGathers : operator.Gathers text)
    (operandsGather : operand.Gathers text) : (chain operator operand).Gathers text := by
  intro start inText
  have gathers := operandsGather start inText
  unfold chain
  simp only
  split
  · trivial
  · rename_i subtree inside next closer read
    rw [read] at gathers
    have visited : Consumes text start.position.offset start.position.offset
        [{ production := operator.production, position := start.position }] [] :=
      .nothing (leafPlaces_otherwise operatorGathers.notPrimary)
    refine operandsFrom_gathers operatorGathers operandsGather gathers.1 ?_
    rw [List.reverse_singleton, List.map_singleton, List.flatMap_singleton]
    exact visited.append gathers.2

theorem union_gathers {group : Position → Rule}
    (groupsGather : ∀ opened, (group opened).Gathers text) :
    (union alphabet group).Gathers text :=
  chain_gathers alternation_gathers (chain_gathers concatenation_gathers
    (repeated_gathers (primary_gathers groupsGather)))

/-! ### Groups and whole texts -/

theorem closeGroup_gathers {opened : Position} {reading : Reading start}
    (gathers : reading.Gathers text) : (closeGroup opened reading).Gathers text := by
  unfold closeGroup
  split
  · trivial
  · split
    · trivial
    · rename_i next eaten
      obtain ⟨atPlace, nextIn, nextOffset⟩ := Cursor.eat_in gathers.1 eaten
      refine ⟨nextIn, ?_⟩
      rw [nextOffset]
      exact gathers.2.append_mark (by decide) atPlace

theorem group_gathers (room : Nat) (opened : Position) :
    (group alphabet room opened).Gathers text := by
  induction room generalizing opened with
  | zero => exact fun start _ => trivial
  | succ room inductionHypothesis =>
      exact fun start inText => closeGroup_gathers (union_gathers inductionHypothesis start inText)

theorem consumes_of_accepted {reading : Reading start} {subtree : Subtree}
    (gathers : reading.Gathers text)
    (accepted : (Parsing.ofReading reading).outcome = .ok subtree) :
    ∃ last, text.length ≤ last ∧ Consumes text start.position.offset last
      (Parsing.ofReading reading).visits.reverse subtree.expr.leaves := by
  obtain ⟨stop, read, atEnd⟩ := outcome_ofReading_eq_ok_iff.mp accepted
  cases reading with
  | failed error visits => cases read
  | read subtree visits next closer =>
      cases read
      obtain ⟨nextIn, consumes⟩ := gathers
      have noRest : stop.rest = [] := List.head?_eq_none_iff.mp atEnd
      rw [nextIn, List.drop_eq_nil_iff] at noRest
      refine ⟨stop.position.offset, noRest, ?_⟩
      change Consumes text _ _ visits.reverse.reverse _
      rwa [List.reverse_reverse]

/-- A text that is read as an expression has its leaves, in order, at the places of the primaries
that are not groups, and nothing but marks elsewhere. -/
theorem leaves_of_parse {text : String} {expr : Expr} (readable : parse alphabet text = .ok expr) :
    (leafPlaces text.toList (parsing alphabet text.toList).visits).map (text.toList[·]?) =
        expr.leaves.map some ∧
      (leafPlaces text.toList (parsing alphabet text.toList).visits).Pairwise (· < ·) ∧
        ∀ place < text.length,
          place ∉ leafPlaces text.toList (parsing alphabet text.toList).visits →
            ∃ mark ∈ marks, text.toList[place]? = some mark := by
  obtain ⟨derivation, derives, rfl⟩ := parse_eq_ok_iff.mp readable
  have accepted := outcome_parsing_eq_ok_iff.mpr ⟨derivation, derives, rfl⟩
  have gathers : (union alphabet (group alphabet depthLimit)
      (Cursor.ofList text.toList)).Gathers text.toList :=
    union_gathers (group_gathers depthLimit) _ rfl
  obtain ⟨last, atEnd, consumes⟩ := consumes_of_accepted gathers accepted
  obtain ⟨_, places, leaves, others⟩ := consumes
  rw [List.reverse_reverse] at places leaves others
  refine ⟨leaves, (List.Ico.pairwise_lt 0 last).sublist places, ?_⟩
  intro place within
  apply others
  rw [← String.length_toList] at within
  exact List.Ico.mem.mpr ⟨Nat.zero_le place, Nat.lt_of_lt_of_le within atEnd⟩

/-! ### Parsed trees -/

structure Proper (alphabet : Alphabet) (expr : Expr) : Prop where
  normal : expr.isNormal = true
  readable : Readable alphabet expr.literals

theorem mem_chainLiterals {operand : Expr} {operands : List Expr} (isOperand : operand ∈ operands)
    {symbol : Char} (isLiteral : symbol ∈ operand.literals) :
    symbol ∈ Expr.chainLiterals operands := by
  rw [Expr.chainLiterals_eq_flatMap]
  exact List.mem_flatMap.mpr ⟨operand, isOperand, isLiteral⟩

theorem hereditary_proper : Hereditary (Proper alphabet) where
  concat := by
    intro factors proper factor isFactor
    obtain ⟨normal, readable⟩ := proper
    rw [Expr.literals] at readable
    exact ⟨((Expr.isNormal_concat_iff.mp normal).2 factor isFactor).2,
      fun symbol isLiteral => readable symbol (mem_chainLiterals isFactor isLiteral)⟩
  union := by
    intro alternatives proper alternative isAlternative
    obtain ⟨normal, readable⟩ := proper
    rw [Expr.literals] at readable
    exact ⟨((Expr.isNormal_union_iff.mp normal).2 alternative isAlternative).2,
      fun symbol isLiteral => readable symbol (mem_chainLiterals isAlternative isLiteral)⟩
  star := by
    intro inner proper
    obtain ⟨normal, readable⟩ := proper
    rw [Expr.isNormal] at normal
    rw [Expr.literals] at readable
    exact ⟨normal, readable⟩

/-- In a tree that a text is parsed to, every chain has two or more operands, none of which is a
chain of the same operator, every literal is a symbol that is no opening parenthesis or at sign, and
there are no more levels than the limit allows.  From the left its leaves are the characters of the
text at which primaries were read that are no groups, and the other characters are operators. -/
theorem parsed_tree {text : String} {expr : Expr} (readable : parse alphabet text = .ok expr) :
    (∀ node ∈ expr.preorder,
      (∀ factors, node = .concat factors →
        2 ≤ factors.length ∧ ∀ factor ∈ factors, ∀ inner, factor ≠ .concat inner) ∧
      (∀ alternatives, node = .union alternatives →
        2 ≤ alternatives.length ∧
          ∀ alternative ∈ alternatives, ∀ inner, alternative ≠ .union inner) ∧
      node ≠ .union [] ∧
      ∀ symbol, node = .literal symbol →
        symbol ∈ alphabet.symbols ∧ symbol ≠ '(' ∧ symbol ≠ '@') ∧
      expr.height ≤ 256 ∧
      let places := leafPlaces text.toList (parsing alphabet text.toList).visits
      places.map (text.toList[·]?) = expr.leaves.map some ∧ places.Pairwise (· < ·) ∧
        ∀ place < text.length, place ∉ places →
          ∃ mark ∈ ['(', ')', '+', '*'], text.toList[place]? = some mark := by
  refine ⟨?_, height_le_of_parse readable, leaves_of_parse readable⟩
  intro node isNode
  have proper : Proper alphabet expr := ⟨isNormal_of_parse readable, readable_of_parse readable⟩
  obtain ⟨normal, literals⟩ := Expr.allowed_of_mem_preorder hereditary_proper proper isNode
  refine ⟨?_, ?_, ?_, ?_⟩
  · rintro factors rfl
    obtain ⟨length, operands⟩ := Expr.isNormal_concat_iff.mp normal
    refine ⟨length, ?_⟩
    rintro factor isFactor inner rfl
    cases (operands _ isFactor).1
  · rintro alternatives rfl
    obtain ⟨length, operands⟩ := Expr.isNormal_union_iff.mp normal
    refine ⟨length, ?_⟩
    rintro alternative isAlternative inner rfl
    cases (operands _ isAlternative).1
  · rintro rfl
    obtain ⟨length, _⟩ := Expr.isNormal_union_iff.mp normal
    cases length
  · rintro symbol rfl
    exact literals symbol (List.mem_singleton_self symbol)

/-- With the plus sign as a symbol, in a group that is joined to the union around it. -/
theorem parsed_tree_plus_symbol :
    let alphabet : Alphabet := ⟨['a', '+'], by decide, by decide⟩
    let text := "a+((+)@*+(a))"
    let expr := Expr.union [.literal 'a', .concat [.literal '+', .star .empty], .literal 'a']
    parse alphabet text = .ok expr ∧ expr.height ≤ 256 ∧
      leafPlaces text.toList (parsing alphabet text.toList).visits = [0, 4, 6, 10] ∧
      (leafPlaces text.toList (parsing alphabet text.toList).visits).map (text.toList[·]?) =
        ['a', '+', '@', 'a'].map some := by
  intro alphabet text expr
  have readable : parse alphabet text = .ok expr := by decide +kernel
  obtain ⟨_, low, leaves, _⟩ := parsed_tree readable
  exact ⟨readable, low, by decide +kernel, leaves⟩

end Grammar

end RegularWords
