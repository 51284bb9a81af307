import RegularWords.Proofs.Sorting
import RegularWords.Proofs.Termination

/-!
What a request is answered with.

The words taken are those of the first calls, and what is done with them depends on the wishes of
the request alone: dropping repeats keeps the first of equal words in place, and sorting leaves no
choice.  Only a text that is no expression is refused.
-/

namespace RegularWords

open Stream' (Seq)

/-! ### The words taken -/

namespace Words

/-- The words that an enumeration gives in its first calls, up to a number of calls.  Every call
returns, also those behind the last word. -/
structure Begins (words : Words) (number : Nat) (taken : List Word) : Prop where
  returns : ∀ index, (words.after index).Returns
  given : ∀ index, taken[index]? = if index < number then (words.after index).next.1 else none

variable {words : Words} {listing : Listing} {number : Nat} {taken : List Word}

theorem Lists.begins (lists : words.Lists listing) (number : Nat) :
    words.Begins number (words.take number).1 where
  returns := fun index => (lists.call index).1
  given := fun index => by rw [lists.take, Seq.getElem?_take, (lists.call index).2]

theorem Begins.eq_take (begins : words.Begins number taken) (lists : words.Lists listing) :
    taken = listing.take number := by
  apply List.ext_getElem?
  intro index
  rw [begins.given, Seq.getElem?_take, (lists.call index).2]

end Words

/-! ### What is done with them -/

namespace Request

def kept (request : Request) (taken : List Word) : List Word :=
  if request.distinct then taken.eraseDups else taken

structure Arranges (request : Request) (taken result : List Word) : Prop where
  asTaken : request.sorted = false → result = request.kept taken
  inOrder : request.sorted = true → ∀ words,
    words = result ↔ words.Perm (request.kept taken) ∧ request.alphabet.Ascending words
  increasing : request.distinct = true → request.sorted = true →
    request.alphabet.Increasing result

variable (request : Request)

theorem arrange_eq (taken : List Word) :
    request.arrange taken =
      if request.sorted then request.alphabet.sort (request.kept taken)
      else request.kept taken := by
  rw [arrange, kept, Distinct.firsts_eq_eraseDups]

theorem arranges_arrange (taken : List Word) :
    request.Arranges taken (request.arrange taken) where
  asTaken := by
    intro unsorted
    rw [arrange_eq, unsorted]
    rfl
  inOrder := by
    intro sorted words
    rw [arrange_eq, if_pos sorted, Alphabet.eq_sort_iff]
  increasing := by
    intro distinct sorted
    have once : (request.kept taken).Nodup := by
      rw [kept, if_pos distinct, ← Distinct.firsts_eq_eraseDups]
      exact Distinct.nodup_firsts taken
    rw [arrange_eq, if_pos sorted]
    exact (Alphabet.ascending_sort _).increasing ((Alphabet.perm_sort _).nodup_iff.mpr once)

theorem perm_arrange (taken : List Word) :
    (request.arrange taken).Perm (request.kept taken) := by
  rw [arrange_eq]
  split
  · exact Alphabet.perm_sort _
  · exact .refl _

theorem answers_arrange {expr : Expr}
    (readable : Grammar.parse request.alphabet request.expression = .ok expr) :
    request.Answers (.ok (request.arrange (expr.words.take request.count.number).1)) := by
  rw [← answer_eq_arrange readable]
  exact request.answers_answer

theorem answer_eq_error_iff {failure : Failure} :
    request.answer = .error failure ↔
      ∃ error, Grammar.parse request.alphabet request.expression = .error error ∧
        failure = .notAnExpression error := by
  unfold answer
  cases Grammar.parse request.alphabet request.expression with
  | error error => simp [eq_comm]
  | ok expr => simp

/-- A request fails if its text is no expression, with the error of the text, and not otherwise.
Otherwise the words of the first calls are taken, as many as there are up to the count, and the
answer is what remains of them, in the order of the enumeration or of the alphabet.  Dropping
repeats and sorting can change places. -/
theorem answer_arranges_first_words :
    (∀ failure, request.answer = .error failure ↔
      ∃ error, Grammar.parse request.alphabet request.expression = .error error ∧
        failure = .notAnExpression error) ∧
      (∀ expr, Grammar.parse request.alphabet request.expression = .ok expr →
        ∃ taken result, expr.words.Begins request.count.number taken ∧
          request.answer = .ok result ∧ request.Arranges taken result) ∧
        ∀ taken : List Word, request.alphabet.sort taken.eraseDups =
          (request.alphabet.sort taken).eraseDups := by
  refine ⟨fun failure => request.answer_eq_error_iff, ?_, ?_⟩
  · intro expr parsed
    have lists := Words.lists_words (Grammar.unionsNonempty_of_parse parsed)
    exact ⟨_, _, lists.begins _, answer_eq_arrange parsed, request.arranges_arrange _⟩
  · intro taken
    rw [← Distinct.firsts_eq_eraseDups, ← Distinct.firsts_eq_eraseDups, Alphabet.sort_firsts]

/-- Of the first six words of `(a+b+@)*` the empty word comes twice, and `b` goes before `a`. -/
theorem answer_arranges_first_words_star_union :
    let request : Request :=
      { alphabet := { symbols := ['b', 'a'], nonempty := by decide, distinct := by decide }
        expression := "(a+b+@)*"
        count := { number := 6, positive := by decide }
        distinct := true
        sorted := true }
    request.answer = .ok [[], ['b'], ['a'], ['a', 'b'], ['a', 'a']] := by
  intro request
  have parsed : Grammar.parse request.alphabet request.expression =
      .ok (.star (.union [.literal 'a', .literal 'b', .empty])) := by decide +kernel
  obtain ⟨taken, result, begins, answered, arranges⟩ :=
    (answer_arranges_first_words request).2.1 _ parsed
  have firstSix : taken = [[], ['a'], ['b'], [], ['a', 'a'], ['a', 'b']] :=
    begins.eq_take (Words.lists_words rfl)
  subst firstSix
  have inOrder := (arranges.inOrder rfl [[], ['b'], ['a'], ['a', 'b'], ['a', 'a']]).mpr
    ⟨by decide, by decide⟩
  rw [answered, inOrder]

end Request

end RegularWords
