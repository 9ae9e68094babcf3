import Mathlib.Data.List.Basic

/-!
# Splitting text

Text is cut at a separator: at every occurrence, or at the last one.
-/

namespace SplitText

variable {α : Type*}

/-- Puts an element in front of the first piece. -/
def consHead (a : α) : List (List α) → List (List α)
  | [] => [[a]]
  | piece :: pieces => (a :: piece) :: pieces

theorem consHead_append {a : α} {xs ys : List (List α)} (h : xs ≠ []) :
    consHead a (xs ++ ys) = consHead a xs ++ ys := by
  cases xs with
  | nil => exact absurd rfl h
  | cons piece pieces => rfl

variable [DecidableEq α]

/-- The pieces between the separators; a text without one is its own only piece. -/
def split (sep : α) : List α → List (List α)
  | [] => [[]]
  | a :: rest => if a = sep then [] :: split sep rest else consHead a (split sep rest)

/-- What stands before and after the last separator. -/
def splitLast (sep : α) : List α → Option (List α × List α)
  | [] => none
  | a :: rest =>
    match splitLast sep rest with
    | some (before, after) => some (a :: before, after)
    | none => if a = sep then some ([], rest) else none

theorem split_ne_nil (sep : α) (text : List α) : split sep text ≠ [] := by
  cases text with
  | nil => exact List.cons_ne_nil _ _
  | cons a rest =>
    rw [split]
    split
    · exact List.cons_ne_nil _ _
    · unfold consHead
      split <;> exact List.cons_ne_nil _ _

theorem split_of_not_mem {sep : α} {text : List α} (h : sep ∉ text) : split sep text = [text] := by
  induction text with
  | nil => rfl
  | cons a rest ih =>
    rw [List.mem_cons, not_or] at h
    rw [split, if_neg (Ne.symm h.1), ih h.2]
    rfl

/-- A separator between two texts keeps their pieces apart. -/
theorem split_append (sep : α) (xs ys : List α) :
    split sep (xs ++ sep :: ys) = split sep xs ++ split sep ys := by
  induction xs with
  | nil =>
    show split sep (sep :: ys) = [[]] ++ split sep ys
    rw [split, if_pos rfl]
    rfl
  | cons a rest ih =>
    rw [List.cons_append, split, split]
    split
    · rw [ih, List.cons_append]
    · rw [ih, consHead_append (split_ne_nil sep rest)]

omit [DecidableEq α] in
/-- The first separator is where the first piece ends. -/
theorem append_sep_inj {sep : α} {xs xs' ys ys' : List α} (h : sep ∉ xs) (h' : sep ∉ xs')
    (heq : xs ++ sep :: ys = xs' ++ sep :: ys') : xs = xs' ∧ ys = ys' := by
  induction xs generalizing xs' with
  | nil =>
    cases xs' with
    | nil => exact ⟨rfl, (List.cons.inj heq).2⟩
    | cons a rest => exact absurd ((List.cons.inj heq).1 ▸ List.mem_cons_self) h'
  | cons a rest ih =>
    cases xs' with
    | nil => exact absurd ((List.cons.inj heq).1 ▸ List.mem_cons_self) h
    | cons a' rest' =>
      obtain ⟨hhead, htail⟩ := List.cons.inj heq
      rw [List.mem_cons, not_or] at h h'
      obtain ⟨hrest, hys⟩ := ih h.2 h'.2 htail
      exact ⟨by rw [hhead, hrest], hys⟩

omit [DecidableEq α] in
/-- Two texts put together with a separator are one text exactly if they are cut alike, or one cut
is at a later separator. -/
theorem append_sep_eq_iff {sep : α} {xs xs' ys ys' : List α} :
    xs ++ sep :: ys = xs' ++ sep :: ys' ↔
      (xs = xs' ∧ ys = ys') ∨ (∃ mid, xs = xs' ++ sep :: mid ∧ ys' = mid ++ sep :: ys) ∨
        ∃ mid, xs' = xs ++ sep :: mid ∧ ys = mid ++ sep :: ys' := by
  constructor
  · intro h
    cases List.append_eq_append_iff.mp h with
    | inl hshort =>
      have ⟨mid, hxs, hys⟩ := hshort
      cases mid with
      | nil =>
        rw [List.append_nil] at hxs
        exact .inl ⟨hxs.symm, (List.cons.inj hys).2⟩
      | cons a mid =>
        have ⟨ha, htail⟩ := List.cons.inj hys
        subst ha
        exact .inr (.inr ⟨mid, hxs, htail⟩)
    | inr hlong =>
      have ⟨mid, hxs, hys⟩ := hlong
      cases mid with
      | nil =>
        rw [List.append_nil] at hxs
        exact .inl ⟨hxs, (List.cons.inj hys).2.symm⟩
      | cons a mid =>
        have ⟨ha, htail⟩ := List.cons.inj hys
        subst ha
        exact .inr (.inl ⟨mid, hxs, htail⟩)
  · intro h
    cases h with
    | inl hsame => rw [hsame.1, hsame.2]
    | inr hcut =>
      cases hcut with
      | inl hlong =>
        have ⟨mid, hxs, hys⟩ := hlong
        rw [hxs, hys, List.append_assoc, List.cons_append]
      | inr hshort =>
        have ⟨mid, hxs, hys⟩ := hshort
        rw [hxs, hys, List.append_assoc, List.cons_append]

/-! ## The last separator -/

theorem splitLast_eq_none {sep : α} {text : List α} (h : splitLast sep text = none) :
    sep ∉ text := by
  induction text with
  | nil => exact List.not_mem_nil
  | cons a rest ih =>
    rw [splitLast] at h
    split at h
    · cases h
    · rename_i hrest
      split at h
      · cases h
      · rename_i hne
        rw [List.mem_cons, not_or]
        exact ⟨fun heq => hne heq.symm, ih hrest⟩

theorem splitLast_of_not_mem {sep : α} {text : List α} (h : sep ∉ text) :
    splitLast sep text = none := by
  induction text with
  | nil => rfl
  | cons a rest ih =>
    rw [List.mem_cons, not_or] at h
    rw [splitLast, ih h.2]
    exact if_neg fun heq => h.1 heq.symm

theorem splitLast_append {sep : α} {after : List α} (h : sep ∉ after) (before : List α) :
    splitLast sep (before ++ sep :: after) = some (before, after) := by
  induction before with
  | nil =>
    show splitLast sep (sep :: after) = some ([], after)
    rw [splitLast, splitLast_of_not_mem h]
    exact if_pos rfl
  | cons a rest ih => rw [List.cons_append, splitLast, ih]

/-- What stands after the last separator has none, and is a part of the text. -/
theorem splitLast_eq_some {sep : α} {text before after : List α}
    (h : splitLast sep text = some (before, after)) :
    sep ∉ after ∧ text = before ++ sep :: after := by
  induction text generalizing before after with
  | nil => cases h
  | cons a rest ih =>
    rw [splitLast] at h
    split at h
    · rename_i before' after' hrest
      obtain ⟨hnone, htext⟩ := ih hrest
      cases h
      exact ⟨hnone, congrArg (a :: ·) htext⟩
    · rename_i hrest
      split at h
      · rename_i heq
        cases h
        exact ⟨splitLast_eq_none hrest, heq ▸ rfl⟩
      · cases h

/-! ## The pieces and the text they are pieces of -/

theorem sep_not_mem_of_mem_splitOn {sep : α} {text piece : List α}
    (h : piece ∈ text.splitOn sep) : sep ∉ piece := by
  induction text generalizing piece with
  | nil =>
    rw [List.splitOn_nil, List.mem_singleton] at h
    exact h ▸ List.not_mem_nil
  | cons a rest ih =>
    rw [List.splitOn_cons_eq_if_modifyHead] at h
    split at h
    · cases List.mem_cons.mp h with
      | inl hnil => exact hnil ▸ List.not_mem_nil
      | inr hrest => exact ih hrest
    · rename_i hne
      -- the first piece of the rest has this element in front of it
      obtain ⟨first, others, hpieces⟩ :=
        List.exists_cons_of_ne_nil (List.splitOn_ne_nil sep rest)
      rw [hpieces, List.modifyHead_cons] at h
      rw [hpieces] at ih
      cases List.mem_cons.mp h with
      | inl hfirst =>
        rw [hfirst, List.mem_cons, not_or]
        refine ⟨fun heq => hne (by rw [heq, beq_self_eq_true]), ih List.mem_cons_self⟩
      | inr hother => exact ih (List.mem_cons_of_mem _ hother)

omit [DecidableEq α] in
theorem infix_intercalate_of_mem {sep : List α} {parts : List (List α)} {part : List α}
    (h : part ∈ parts) : part <:+: sep.intercalate parts := by
  induction parts with
  | nil => cases h
  | cons first rest ih =>
    by_cases hrest : rest = []
    · rw [hrest, List.mem_singleton] at h
      have hsingle : sep.intercalate [first] = first := List.intercalate_singleton
      rw [h, hrest]
      exact hsingle.symm ▸ List.infix_rfl
    · rw [List.intercalate_cons_of_ne_nil hrest]
      cases List.mem_cons.mp h with
      | inl hfirst =>
        rw [hfirst]
        exact (List.prefix_append _ _).isInfix.trans (List.prefix_append _ _).isInfix
      | inr hlater => exact (ih hlater).trans (List.suffix_append _ _).isInfix

theorem intercalate_inj {sep : α} {xs ys : List (List α)} (hxs : ∀ x ∈ xs, sep ∉ x)
    (hys : ∀ y ∈ ys, sep ∉ y) (hx : xs ≠ []) (hy : ys ≠ [])
    (h : [sep].intercalate xs = [sep].intercalate ys) : xs = ys := by
  rw [← List.splitOn_intercalate sep hxs hx, h, List.splitOn_intercalate sep hys hy]

/-- Joined texts fall into the pieces each of them falls into. -/
theorem splitOn_intercalate_eq {sep : α} {parts : List (List α)} (h : parts ≠ []) :
    ([sep].intercalate parts).splitOn sep = parts.flatMap fun part => part.splitOn sep := by
  induction parts with
  | nil => exact absurd rfl h
  | cons first rest ih =>
    by_cases hrest : rest = []
    · rw [hrest, List.intercalate_singleton, List.flatMap_cons, List.flatMap_nil, List.append_nil]
    · rw [List.intercalate_cons_of_ne_nil hrest, List.append_assoc, List.singleton_append,
        List.splitOn_append_cons_self, ih hrest, List.flatMap_cons]

/-! ## Terminated pieces -/

/-- Each piece with a separator after it. -/
def terminated (sep : α) (pieces : List (List α)) : List α := pieces.flatMap (· ++ [sep])

theorem splitOn_terminated {sep : α} {pieces : List (List α)} (h : ∀ piece ∈ pieces, sep ∉ piece) :
    (terminated sep pieces).splitOn sep = pieces ++ [[]] := by
  induction pieces with
  | nil => rfl
  | cons piece rest ih =>
    have hpiece := h piece List.mem_cons_self
    have hrest := ih fun other hother => h other (List.mem_cons_of_mem piece hother)
    show (piece ++ [sep] ++ terminated sep rest).splitOn sep = _
    rw [List.append_assoc, List.singleton_append, List.splitOn_append_cons_self,
      List.splitOn_eq_singleton hpiece, hrest]
    rfl

omit [DecidableEq α] in
theorem terminated_eq_intercalate {sep : α} {pieces : List (List α)} (h : pieces ≠ []) :
    terminated sep pieces = [sep].intercalate pieces ++ [sep] := by
  induction pieces with
  | nil => exact absurd rfl h
  | cons piece rest ih =>
    by_cases hrest : rest = []
    · rw [hrest, List.intercalate_singleton, terminated, List.flatMap_cons, List.flatMap_nil,
        List.append_nil]
    · show piece ++ [sep] ++ terminated sep rest = _
      rw [ih hrest, List.intercalate_cons_of_ne_nil hrest, List.append_assoc, List.append_assoc,
        List.append_assoc]

/-- A text that ends in a separator is its pieces but the last one, terminated. -/
theorem terminated_splitOn {sep : α} {text : List α} (h : text.getLast? = some sep) :
    terminated sep (text.splitOn sep).dropLast = text := by
  have ⟨front, hfront⟩ := List.getLast?_eq_some_iff.mp h
  rw [hfront, List.splitOn_append_cons_self, List.splitOn_nil, List.dropLast_concat,
    terminated_eq_intercalate (List.splitOn_ne_nil sep front), List.intercalate_splitOn]

end SplitText
