import RegularWords.Proofs.Answers

/-!
Answers to requests that differ in the count alone.

The words of the first calls begin the words of more calls, and dropping repeats keeps it that way,
because what is kept of a word depends on the words before it.  Sorting puts more words in between,
and a word that changed places with another would be equal to it.
-/

namespace RegularWords

/-! ### The words taken -/

namespace Words

variable {words : Words} {number more : Nat} {taken others : List Word}

theorem Begins.length_le (begins : words.Begins number taken) : taken.length ≤ number := by
  have pastEnd := begins.given number
  rw [if_neg (Nat.lt_irrefl number)] at pastEnd
  exact List.getElem?_eq_none_iff.mp pastEnd

theorem Begins.isPrefix (begins : words.Begins number taken) (beginsMore : words.Begins more others)
    (atLeast : number ≤ more) : taken <+: others := by
  rw [List.prefix_iff_getElem?]
  intro index inside
  have early : index < number := inside.trans_le begins.length_le
  rw [beginsMore.given, if_pos (early.trans_le atLeast), ← List.getElem?_eq_getElem inside,
    begins.given, if_pos early]

/-- As many words as calls are taken exactly if every call gives one. -/
theorem Begins.length_eq_iff (begins : words.Begins number taken) :
    taken.length = number ↔ ∀ index < number, (words.after index).next.1 ≠ none := by
  constructor
  · intro full index early noWord
    have missing := begins.given index
    rw [if_pos early, noWord, List.getElem?_eq_none_iff, full] at missing
    exact Nat.not_le_of_lt early missing
  · intro allGiven
    refine Nat.le_antisymm begins.length_le (Nat.not_lt.mp fun short => ?_)
    have pastEnd := begins.given taken.length
    rw [if_pos short, List.getElem?_eq_none (Nat.le_refl _)] at pastEnd
    exact allGiven taken.length short pastEnd.symm

/-- Behind the last word more calls give no more words. -/
theorem Begins.eq_of_length_lt (begins : words.Begins number taken)
    (beginsMore : words.Begins more others) (atLeast : number ≤ more)
    (short : taken.length < number) : others = taken := by
  have noWord := begins.given taken.length
  rw [if_pos short, List.getElem?_eq_none (Nat.le_refl _)] at noWord
  have pastEnd := beginsMore.given taken.length
  rw [if_pos (short.trans_le atLeast), ← noWord, List.getElem?_eq_none_iff] at pastEnd
  exact ((begins.isPrefix beginsMore atLeast).eq_of_length_le pastEnd).symm

end Words

/-! ### What is done with them -/

namespace Request

variable (request : Request) {taken others : List Word}

theorem kept_isPrefix (begun : taken <+: others) : request.kept taken <+: request.kept others := by
  obtain ⟨rest, rfl⟩ := begun
  rw [kept, kept]
  split
  · rw [List.eraseDups_append]
    exact List.prefix_append _ _
  · exact List.prefix_append _ _

theorem arrange_isPrefix (unsorted : request.sorted = false) (begun : taken <+: others) :
    request.arrange taken <+: request.arrange others := by
  rw [(request.arranges_arrange taken).asTaken unsorted,
    (request.arranges_arrange others).asTaken unsorted]
  exact request.kept_isPrefix begun

theorem arrange_sublist (begun : taken <+: others) :
    (request.arrange taken).Sublist (request.arrange others) := by
  have fewer := (request.kept_isPrefix begun).sublist
  rw [arrange_eq, arrange_eq]
  split
  · exact Alphabet.sublist_sort fewer
  · exact fewer

theorem length_arrange_le (taken : List Word) : (request.arrange taken).length ≤ taken.length := by
  rw [(request.perm_arrange taken).length_eq, kept]
  split
  · rw [← Distinct.firsts_eq_eraseDups]
    exact (Distinct.sublist_firsts taken).length_le
  · exact Nat.le_refl _

theorem length_arrange (withRepeats : request.distinct = false) (taken : List Word) :
    (request.arrange taken).length = taken.length := by
  rw [(request.perm_arrange taken).length_eq, kept, withRepeats]
  rfl

/-- A larger count adds words to an answer and keeps the others in their order; in an answer that is
not sorted it adds them at the end.  An answer has at most as many words as the count says.  If
repeats stay, it has fewer exactly if the enumeration ends before, and then a larger count adds
nothing. -/
theorem answer_grows_with_count {expr : Expr}
    (readable : Grammar.parse request.alphabet request.expression = .ok expr)
    {more : Count} (atLeast : request.count.number ≤ more.number) :
    ∃ words others,
      (request.Answers (.ok words) ∧ request.answer = .ok words) ∧
      ({ request with count := more }.Answers (.ok others) ∧
        { request with count := more }.answer = .ok others) ∧
      words.Sublist others ∧ (request.sorted = false → words <+: others) ∧
      words.length ≤ request.count.number ∧
      (request.distinct = false →
        (words.length = request.count.number ↔
          ∀ index < request.count.number, (expr.words.after index).next.1 ≠ none) ∧
        (words.length < request.count.number → others = words)) := by
  have lists := Words.lists_words (Grammar.unionsNonempty_of_parse readable)
  have begins := lists.begins request.count.number
  have beginsMore := lists.begins more.number
  let taken := (expr.words.take request.count.number).1
  let takenMore := (expr.words.take more.number).1
  let larger : Request := { request with count := more }
  have begun : taken <+: takenMore := begins.isPrefix beginsMore atLeast
  -- The wishes are the same, so both answers are arranged alike.
  refine ⟨request.arrange taken, request.arrange takenMore,
    ⟨request.answers_arrange readable, answer_eq_arrange readable⟩,
    ⟨larger.answers_arrange readable, @answer_eq_arrange larger expr readable⟩,
    request.arrange_sublist begun, fun unsorted => request.arrange_isPrefix unsorted begun,
    (request.length_arrange_le taken).trans begins.length_le, ?_⟩
  intro withRepeats
  rw [request.length_arrange withRepeats]
  constructor
  · exact begins.length_eq_iff
  · intro short
    have noMore : takenMore = taken := begins.eq_of_length_lt beginsMore atLeast short
    rw [noMore]

/-- The first three words of `(a+b+@)*` stay among the first six, and others come in between. -/
theorem answer_grows_with_count_star_union :
    let request : Request :=
      { alphabet := { symbols := ['a', 'b'], nonempty := by decide, distinct := by decide }
        expression := "(a+b+@)*"
        count := { number := 3, positive := by decide }
        distinct := true
        sorted := true }
    let more : Count := { number := 6, positive := by decide }
    ∃ words others, request.answer = .ok words ∧ words = [[], ['a'], ['b']] ∧
      { request with count := more }.answer = .ok others ∧
      others = [[], ['a'], ['a', 'a'], ['a', 'b'], ['b']] ∧ words.Sublist others := by
  intro request more
  have readable : Grammar.parse request.alphabet request.expression =
      .ok (.star (.union [.literal 'a', .literal 'b', .empty])) := by decide +kernel
  have nonempty : (Expr.star (.union [.literal 'a', .literal 'b', .empty])).unionsNonempty = true :=
    rfl
  obtain ⟨words, others, ⟨_, answered⟩, ⟨_, answeredMore⟩, sublist, _⟩ :=
    request.answer_grows_with_count readable (show request.count.number ≤ more.number by decide)
  refine ⟨words, others, answered, ?_, answeredMore, ?_, sublist⟩
  · rw [answer_eq_arrange readable, (Words.lists_words nonempty).take, arrange_eq, if_pos rfl]
      at answered
    rw [← Except.ok.inj answered]
    exact (Alphabet.eq_sort_iff.mpr ⟨by decide, by decide⟩).symm
  · rw [@answer_eq_arrange { request with count := more } _ readable,
      (Words.lists_words nonempty).take, arrange_eq, if_pos rfl] at answeredMore
    rw [← Except.ok.inj answeredMore]
    exact (Alphabet.eq_sort_iff.mpr ⟨by decide, by decide⟩).symm

end Request

end RegularWords
