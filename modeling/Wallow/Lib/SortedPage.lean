import Mathlib.Data.List.Sort

/-!
# The first page of a sorted list

What a query that sorts its rows and takes the first ones finds.  The rows that a test picks out are
the ties of one element `x`; the first of them is on the page exactly when fewer rows than the page
takes come before `x`.
-/

namespace SortedPage

variable {α : Type*} (r : α → α → Prop) [DecidableRel r]

/-- `OrderBy`, which is stable, and `Take`. -/
def page (k : Nat) (l : List α) : List α := (l.insertionSort r).take k

/-- The number of rows before `x`. -/
def rank (x : α) (l : List α) : Nat := l.countP fun a => !decide (r x a)

variable {r} {p : α → Bool} {x : α}

section Sorting

variable [Std.Total r] [IsTrans α r]

omit [Std.Total r] in
/-- Ties keep their order. -/
theorem filter_insertionSort (hties : ∀ a, p a = true ↔ r x a ∧ r a x) (l : List α) :
    (l.insertionSort r).filter p = l.filter p := by
  have hpairwise : (l.filter p).Pairwise r := by
    rw [List.pairwise_filter]
    refine List.pairwise_of_forall fun a b ha hb => ?_
    exact IsTrans.trans a x b ((hties a).mp ha).2 ((hties b).mp hb).1
  have hsublist : ((l.filter p).filter p).Sublist ((l.insertionSort r).filter p) :=
    (List.sublist_insertionSort hpairwise List.filter_sublist).filter p
  rw [List.filter_filter] at hsublist
  simp only [Bool.and_self] at hsublist
  exact (hsublist.eq_of_length ((List.perm_insertionSort r l).filter p).length_eq.symm).symm

omit [Std.Total r] in
theorem find?_insertionSort (hties : ∀ a, p a = true ↔ r x a ∧ r a x) (l : List α) :
    (l.insertionSort r).find? p = l.find? p := by
  rw [← List.head?_filter, filter_insertionSort hties, List.head?_filter]

end Sorting

theorem find?_take_of_pairwise (hties : ∀ a, p a = true ↔ r x a ∧ r a x) {l : List α}
    (hsorted : l.Pairwise r) (htrans : ∀ a b c, r a b → r b c → r a c) {k : Nat}
    (hrank : rank r x l < k) : (l.take k).find? p = l.find? p := by
  induction l generalizing k with
  | nil => rw [List.take_nil]
  | cons a l ih =>
    obtain ⟨k, rfl⟩ := Nat.exists_eq_succ_of_ne_zero (Nat.ne_zero_of_lt hrank)
    obtain ⟨hfirst, hrest⟩ := List.pairwise_cons.mp hsorted
    rw [List.take_succ_cons]
    cases hp : p a with
    | true => rw [List.find?_cons_of_pos hp, List.find?_cons_of_pos hp]
    | false =>
      rw [List.find?_cons_of_neg (by simp [hp]), List.find?_cons_of_neg (by simp [hp])]
      by_cases hbefore : r x a
      · -- `a` comes after `x` and is no tie of it, so nothing behind `a` is.
        have hnone : l.find? p = none := List.find?_eq_none.mpr fun b hb htie => by
          have hax := htrans a b x (hfirst b hb) ((hties b).mp htie).2
          rw [(hties a).mpr ⟨hbefore, hax⟩] at hp
          cases hp
        rw [hnone]
        exact List.find?_eq_none.mpr fun b hb =>
          List.find?_eq_none.mp hnone b (List.mem_of_mem_take hb)
      · have hcount : rank r x (a :: l) = rank r x l + 1 := by
          rw [rank, List.countP_cons_of_pos (by simpa using hbefore)]
          rfl
        exact ih hrest (by omega)

variable [Std.Total r] [IsTrans α r]

/-- The page finds what the whole list holds. -/
theorem find?_page (hties : ∀ a, p a = true ↔ r x a ∧ r a x) {l : List α} {k : Nat}
    (hrank : rank r x l < k) : (page r k l).find? p = l.find? p := by
  have hperm : rank r x (l.insertionSort r) = rank r x l :=
    (List.perm_insertionSort r l).countP_eq _
  rw [page, find?_take_of_pairwise hties (List.pairwise_insertionSort r l)
    IsTrans.trans (hperm ▸ hrank), find?_insertionSort hties]

end SortedPage
