import Std.Data.HashSet

/-!
Repeated elements of a list, told apart by when they first occur.

`Distinct.firsts` keeps the first of every group of equal elements in place, and `Distinct.repeats`
keeps what it drops.  Both walk the list once and remember what they have seen.
-/

namespace RegularWords.Distinct

variable {α : Type} [BEq α] [Hashable α]

/-- Adds to `kept`, latest first, the elements that have not been seen. -/
def firstsFrom (seen : Std.HashSet α) (kept : List α) : List α → List α
  | [] => kept.reverse
  | x :: xs =>
      if seen.contains x then
        firstsFrom seen kept xs
      else
        firstsFrom (seen.insert x) (x :: kept) xs

/-- The elements without the later occurrences of any.  They come out of a set that is documented
to be gone through in the order of insertion and to ignore an element that is inserted again. -/
def firsts (xs : List α) : List α :=
  firstsFrom ∅ [] xs

def repeatsFrom (seen : Std.HashSet α) (repeated : List α) : List α → List α
  | [] => repeated.reverse
  | x :: xs =>
      if seen.contains x then
        repeatsFrom seen (x :: repeated) xs
      else
        repeatsFrom (seen.insert x) repeated xs

def repeats (xs : List α) : List α :=
  repeatsFrom ∅ [] xs

/-! ### What is kept -/

theorem sublist_firstsFrom (seen : Std.HashSet α) (kept xs : List α) :
    (firstsFrom seen kept xs).Sublist (kept.reverse ++ xs) := by
  induction xs generalizing seen kept with
  | nil => simp [firstsFrom]
  | cons x xs inductionHypothesis =>
      unfold firstsFrom
      split
      · exact (inductionHypothesis seen kept).trans ((List.sublist_cons_self x xs).append_left _)
      · have keepsNext := inductionHypothesis (seen.insert x) (x :: kept)
        rwa [List.reverse_cons, List.append_assoc, List.singleton_append] at keepsNext

/-- What is kept stays in order. -/
theorem sublist_firsts (xs : List α) : (firsts xs).Sublist xs :=
  sublist_firstsFrom ∅ [] xs

section Lawful

variable [LawfulBEq α]

theorem mem_firstsFrom {seen : Std.HashSet α} {kept xs : List α} {a : α} :
    a ∈ firstsFrom seen kept xs ↔ a ∈ kept ∨ (a ∈ xs ∧ a ∉ seen) := by
  induction xs generalizing seen kept with
  | nil => simp [firstsFrom]
  | cons x xs inductionHypothesis =>
      unfold firstsFrom
      split <;> rename_i seenBefore
      · rw [inductionHypothesis]
        constructor
        · rintro (inKept | ⟨inRest, fresh⟩)
          · exact .inl inKept
          · exact .inr ⟨.tail _ inRest, fresh⟩
        · rintro (inKept | ⟨inAll, fresh⟩)
          · exact .inl inKept
          · rcases List.mem_cons.mp inAll with same | inRest
            · exact absurd (same ▸ seenBefore) fresh
            · exact .inr ⟨inRest, fresh⟩
      · rw [inductionHypothesis]
        by_cases same : a = x
        · subst same
          constructor
          · intro _
            exact .inr ⟨.head _, seenBefore⟩
          · intro _
            exact .inl (.head _)
        · simp [same, Ne.symm same]

theorem nodup_firstsFrom {seen : Std.HashSet α} {kept xs : List α}
    (keptNodup : kept.Nodup) (keptSeen : ∀ a ∈ kept, a ∈ seen) :
    (firstsFrom seen kept xs).Nodup := by
  induction xs generalizing seen kept with
  | nil => exact List.pairwise_reverse.mpr (keptNodup.imp Ne.symm)
  | cons x xs inductionHypothesis =>
      unfold firstsFrom
      split <;> rename_i seenBefore
      · exact inductionHypothesis keptNodup keptSeen
      · apply inductionHypothesis
        · exact List.nodup_cons.mpr ⟨fun inKept => seenBefore (keptSeen x inKept), keptNodup⟩
        · intro a inNew
          rcases List.mem_cons.mp inNew with same | inKept
          · simp [same]
          · simp [keptSeen a inKept]

/-- The same elements occur as before. -/
theorem mem_firsts {xs : List α} {a : α} : a ∈ firsts xs ↔ a ∈ xs := by
  simp [firsts, mem_firstsFrom]

/-- No element occurs twice. -/
theorem nodup_firsts (xs : List α) : (firsts xs).Nodup :=
  nodup_firstsFrom List.nodup_nil (fun _ inNil => absurd inNil List.not_mem_nil)

theorem firsts_eq_nil_iff {xs : List α} : firsts xs = [] ↔ xs = [] := by
  simp only [List.eq_nil_iff_forall_not_mem, mem_firsts]

theorem firstsFrom_eq_append (seen : Std.HashSet α) (kept xs : List α) :
    firstsFrom seen kept xs =
      kept.reverse ++ (xs.filter fun x => !seen.contains x).eraseDups := by
  induction xs generalizing seen kept with
  | nil => rw [firstsFrom, List.filter_nil, List.eraseDups_nil, List.append_nil]
  | cons x xs inductionHypothesis =>
      unfold firstsFrom
      split <;> rename_i seenBefore
      · rw [inductionHypothesis, List.filter_cons_of_neg (by rw [seenBefore]; decide)]
      · have fresh : (x :: xs).filter (fun y => !seen.contains y) =
            x :: xs.filter fun y => !seen.contains y :=
          List.filter_cons_of_pos (by simpa using seenBefore)
        have others : (fun y => !(seen.insert x).contains y) =
            fun y => (!y == x) && !seen.contains y := by
          funext y
          rw [Std.HashSet.contains_insert, Bool.not_or, BEq.comm]
        rw [inductionHypothesis, fresh, List.eraseDups_cons, List.filter_filter, others,
          List.reverse_cons, List.append_assoc, List.singleton_append]

theorem firsts_eq_eraseDups (xs : List α) : firsts xs = xs.eraseDups := by
  have noneSeen : (xs.filter fun x => !(∅ : Std.HashSet α).contains x) = xs :=
    List.filter_eq_self.mpr fun x _ => by simp
  rw [firsts, firstsFrom_eq_append, noneSeen, List.reverse_nil, List.nil_append]

/-- Elements behind others change nothing of what is kept of these. -/
theorem firsts_prefix (xs ys : List α) : firsts xs <+: firsts (xs ++ ys) := by
  rw [firsts_eq_eraseDups, firsts_eq_eraseDups, List.eraseDups_append]
  exact List.prefix_append _ _

/-! ### One more element -/

theorem firsts_concat_of_mem {xs : List α} {x : α} (known : x ∈ xs) :
    firsts (xs ++ [x]) = firsts xs := by
  have nothing : [x].removeAll xs = [] := by simp [List.removeAll, known]
  rw [firsts_eq_eraseDups, firsts_eq_eraseDups, List.eraseDups_append, nothing,
    List.eraseDups_nil, List.append_nil]

theorem firsts_concat_of_not_mem {xs : List α} {x : α} (new : x ∉ xs) :
    firsts (xs ++ [x]) = firsts xs ++ [x] := by
  have everything : [x].removeAll xs = [x] := by simp [List.removeAll, new]
  rw [firsts_eq_eraseDups, firsts_eq_eraseDups, List.eraseDups_append, everything,
    List.eraseDups_cons, List.filter_nil, List.eraseDups_nil]

theorem repeatsFrom_concat (seen : Std.HashSet α) (repeated xs : List α) (x : α) :
    repeatsFrom seen repeated (xs ++ [x]) =
      repeatsFrom seen repeated xs ++ if x ∈ seen ∨ x ∈ xs then [x] else [] := by
  induction xs generalizing seen repeated with
  | nil => by_cases seenBefore : x ∈ seen <;> simp [repeatsFrom, seenBefore]
  | cons y xs inductionHypothesis =>
      rw [List.cons_append, repeatsFrom, repeatsFrom]
      split <;> rename_i seenBefore
      · have sameKnown : (x ∈ seen ∨ x ∈ y :: xs) ↔ (x ∈ seen ∨ x ∈ xs) := by
          constructor
          · rintro (inSeen | inAll)
            · exact .inl inSeen
            · rcases List.mem_cons.mp inAll with same | inRest
              · exact .inl (same ▸ seenBefore)
              · exact .inr inRest
          · exact Or.imp_right (List.mem_cons_of_mem y)
        simp only [inductionHypothesis, sameKnown]
      · have sameKnown : (x ∈ seen ∨ x ∈ y :: xs) ↔ (x ∈ seen.insert y ∨ x ∈ xs) := by
          rw [Std.HashSet.mem_insert, beq_iff_eq, List.mem_cons, or_left_comm, or_assoc, eq_comm]
        simp only [inductionHypothesis, sameKnown]

theorem repeats_concat_of_mem {xs : List α} {x : α} (known : x ∈ xs) :
    repeats (xs ++ [x]) = repeats xs ++ [x] := by
  rw [repeats, repeatsFrom_concat, if_pos (.inr known), repeats]

theorem repeats_concat_of_not_mem {xs : List α} {x : α} (new : x ∉ xs) :
    repeats (xs ++ [x]) = repeats xs := by
  have unknown : ¬ (x ∈ (∅ : Std.HashSet α) ∨ x ∈ xs) := not_or.mpr ⟨Std.HashSet.not_mem_empty, new⟩
  rw [repeats, repeatsFrom_concat, if_neg unknown, List.append_nil, repeats]

end Lawful

end RegularWords.Distinct
