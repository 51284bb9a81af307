import RegularWords.Proofs.Answers
import RegularWords.Proofs.Language
import RegularWords.Proofs.RoundTrip

/-!
Words as they are shown.

A word is shown as its symbols, and the empty word as an at sign.  No word of an expression has an at
sign, even if it is a symbol, so what is shown can be told apart and read back.
-/

namespace RegularWords

/-! ### Symbols of words -/

namespace Expr

mutual

/-- The words of an expression are made of its literals. -/
theorem subset_literals_of_mem_language : ∀ {expr : Expr} {word : Word},
    word ∈ expr.language → word ⊆ expr.literals
  | .literal symbol, word, denoted => by
      rw [language] at denoted
      rw [literals, Set.mem_singleton_iff.mp denoted]
      exact List.Subset.refl _
  | .empty, word, denoted => by
      rw [language, Language.mem_one] at denoted
      rw [denoted]
      exact List.nil_subset _
  | .concat factors, word, denoted => by
      rw [language] at denoted
      rw [literals]
      exact subset_literals_of_mem_factorLanguage denoted
  | .union alternatives, word, denoted => by
      rw [language] at denoted
      rw [literals]
      exact subset_literals_of_mem_alternativeLanguage denoted
  | .star inner, word, denoted => by
      rw [language, Language.mem_kstar] at denoted
      obtain ⟨parts, rfl, inInner⟩ := denoted
      rw [literals]
      intro symbol occurs
      obtain ⟨part, isPart, inPart⟩ := List.mem_flatten.mp occurs
      exact subset_literals_of_mem_language (inInner part isPart) inPart

theorem subset_literals_of_mem_factorLanguage : ∀ {factors : List Expr} {word : Word},
    word ∈ factorLanguage factors → word ⊆ chainLiterals factors
  | [], word, denoted => by
      rw [factorLanguage, Language.mem_one] at denoted
      rw [denoted]
      exact List.nil_subset _
  | factor :: factors, word, denoted => by
      rw [factorLanguage] at denoted
      obtain ⟨stem, inFactor, part, inFactors, rfl⟩ := Language.mem_mul.mp denoted
      rw [chainLiterals, List.append_subset]
      constructor
      · exact List.subset_append_of_subset_left _ (subset_literals_of_mem_language inFactor)
      · exact List.subset_append_of_subset_right _
          (subset_literals_of_mem_factorLanguage inFactors)

theorem subset_literals_of_mem_alternativeLanguage :
    ∀ {alternatives : List Expr} {word : Word},
      word ∈ alternativeLanguage alternatives → word ⊆ chainLiterals alternatives
  | [], word, denoted => by
      rw [alternativeLanguage] at denoted
      exact absurd denoted (Language.notMem_zero word)
  | alternative :: alternatives, word, denoted => by
      rw [alternativeLanguage, Language.mem_add] at denoted
      rw [chainLiterals]
      rcases denoted with inFirst | inLater
      · exact List.subset_append_of_subset_left _ (subset_literals_of_mem_language inFirst)
      · exact List.subset_append_of_subset_right _
          (subset_literals_of_mem_alternativeLanguage inLater)

end

end Expr

/-! ### Reading shown words -/

namespace Word

def ofShown (characters : List Char) : Word :=
  if characters = ['@'] then [] else characters

def ofShownLines (text : String) : List Word :=
  (text.toList.splitOn '\n').dropLast.map ofShown

variable {word : Word}

theorem toList_render_cons (symbol : Char) (symbols : Word) :
    (render (symbol :: symbols)).toList = symbol :: symbols := by
  rw [render, String.toList_ofList]

theorem ofShown_render (noMark : '@' ∉ word) : ofShown word.render.toList = word := by
  cases word with
  | nil => rfl
  | cons symbol symbols =>
      have unmarked : symbol :: symbols ≠ ['@'] := by
        intro marked
        rw [marked] at noMark
        exact noMark List.mem_cons_self
      rw [toList_render_cons, ofShown, if_neg unmarked]

theorem eq_of_render_eq {other : Word} (noMark : '@' ∉ word) (noOtherMark : '@' ∉ other)
    (shownAlike : word.render = other.render) : word = other := by
  rw [← ofShown_render noMark, shownAlike, ofShown_render noOtherMark]

theorem render_eq_mark_iff (noMark : '@' ∉ word) : word.render = "@" ↔ word = [] := by
  constructor
  · intro marked
    exact eq_of_render_eq noMark List.not_mem_nil marked
  · rintro rfl
    rfl

theorem newline_not_mem_render (oneLine : '\n' ∉ word) : '\n' ∉ word.render.toList := by
  cases word with
  | nil => decide
  | cons symbol symbols => rwa [toList_render_cons]

theorem toList_renderLines_cons (words : List Word) :
    (renderLines (word :: words)).toList =
      word.render.toList ++ '\n' :: (renderLines words).toList := by
  rw [renderLines, List.map_cons, String.join_cons, String.toList_append, String.toList_append,
    List.append_assoc]
  rfl

/-- Cutting at the newlines gives the words as they are shown, and nothing is behind the last
newline. -/
theorem splitOn_renderLines {words : List Word} (oneLine : ∀ word ∈ words, '\n' ∉ word) :
    (renderLines words).toList.splitOn '\n' =
      (words.map fun word => word.render.toList) ++ [[]] := by
  induction words with
  | nil => rfl
  | cons word words inductionHypothesis =>
      obtain ⟨firstOneLine, laterOneLine⟩ := List.forall_mem_cons.mp oneLine
      have noBreak : ∀ character ∈ word.render.toList, (character == '\n') = false := by
        intro character occurs
        rw [beq_eq_false_iff_ne]
        rintro rfl
        exact newline_not_mem_render firstOneLine occurs
      have later := inductionHypothesis laterOneLine
      rw [List.splitOn_eq_splitOnP] at later ⊢
      rw [toList_renderLines_cons,
        List.splitOnP_append_cons_of_forall_mem noBreak '\n' (beq_self_eq_true '\n'), later]
      rfl

theorem ofShownLines_renderLines {words : List Word} (oneLine : ∀ word ∈ words, '\n' ∉ word)
    (noMark : ∀ word ∈ words, '@' ∉ word) : ofShownLines (renderLines words) = words := by
  have readBack : ∀ word ∈ words, ofShown word.render.toList = word :=
    fun word isWord => ofShown_render (noMark word isWord)
  rw [ofShownLines, splitOn_renderLines oneLine, List.dropLast_concat, List.map_map]
  exact (List.map_congr_left readBack).trans (List.map_id words)

end Word

/-! ### Answers -/

namespace Request

variable {request : Request} {expr : Expr}

theorem mem_of_mem_arrange {taken : List Word} {word : Word}
    (arranged : word ∈ request.arrange taken) : word ∈ taken := by
  have isKept : word ∈ request.kept taken := (request.perm_arrange taken).mem_iff.mp arranged
  unfold kept at isKept
  split at isKept
  · exact List.mem_eraseDups.mp isKept
  · exact isKept

/-- An answer has words of the expression alone. -/
theorem mem_language_of_mem_arrange (nonempty : expr.unionsNonempty = true) {number : Nat}
    {word : Word} (arranged : word ∈ request.arrange (expr.words.take number).1) :
    word ∈ expr.language := by
  have isTaken := mem_of_mem_arrange arranged
  rw [(Words.lists_words nonempty).take] at isTaken
  exact Stream'.Seq.take_all (fun _ => Expr.mem_language_of_mem_listing) isTaken

/-- A request for the words of an expression is answered.  The words are made of symbols of the
alphabet other than the opening parenthesis and the at sign.  So they are shown apart, an at sign
stands for the empty word alone, and unless a newline is a symbol the words are read back from their
lines. -/
theorem answer_read_back
    (readable : Grammar.parse request.alphabet request.expression = .ok expr) :
    ∃ words, request.Answers (.ok words) ∧ request.answer = .ok words ∧
      (∀ word ∈ words, ∀ symbol ∈ word,
        symbol ∈ request.alphabet.symbols ∧ symbol ≠ '(' ∧ symbol ≠ '@') ∧
      (∀ word ∈ words, ∀ other ∈ words, word.render = other.render → word = other) ∧
      (∀ word ∈ words, word.render = "@" ↔ word = []) ∧
      ('\n' ∉ request.alphabet.symbols → Word.ofShownLines (renderLines words) = words) := by
  have nonempty := Grammar.unionsNonempty_of_parse readable
  have literals := Grammar.readable_of_parse readable
  let words := request.arrange (expr.words.take request.count.number).1
  have madeOf : ∀ word ∈ words, ∀ symbol ∈ word,
      symbol ∈ request.alphabet.symbols ∧ symbol ≠ '(' ∧ symbol ≠ '@' := by
    intro word isWord symbol occurs
    have denoted := mem_language_of_mem_arrange nonempty isWord
    exact literals symbol (Expr.subset_literals_of_mem_language denoted occurs)
  have noMark : ∀ word ∈ words, '@' ∉ word :=
    fun word isWord occurs => (madeOf word isWord '@' occurs).2.2 rfl
  refine ⟨words, request.answers_arrange readable, answer_eq_arrange readable, madeOf, ?_, ?_, ?_⟩
  · intro word isWord other isOther
    exact Word.eq_of_render_eq (noMark word isWord) (noMark other isOther)
  · intro word isWord
    exact Word.render_eq_mark_iff (noMark word isWord)
  · intro noNewline
    have oneLine : ∀ word ∈ words, '\n' ∉ word :=
      fun word isWord occurs => noNewline (madeOf word isWord '\n' occurs).1
    exact Word.ofShownLines_renderLines oneLine noMark

/-- With the star and the at sign as symbols, `@+*a` has the words that are shown as `@` and `*a`. -/
theorem answer_read_back_operators :
    let request : Request :=
      .plain ⟨['*', '@', 'a'], by decide, by decide⟩ "@+*a" { number := 3, positive := by decide }
    Grammar.parse request.alphabet request.expression =
        .ok (.union [.empty, .concat [.literal '*', .literal 'a']]) ∧
      ∃ words, request.answer = .ok words ∧ (∀ word ∈ words, word.render = "@" ↔ word = []) ∧
        Word.ofShownLines (renderLines words) = words := by
  intro request
  have readable : Grammar.parse request.alphabet request.expression =
      .ok (.union [.empty, .concat [.literal '*', .literal 'a']]) := by decide +kernel
  obtain ⟨words, _, answered, _, _, onlyEmpty, readBack⟩ := answer_read_back readable
  exact ⟨readable, words, answered, onlyEmpty, readBack (by decide)⟩

end Request

end RegularWords
