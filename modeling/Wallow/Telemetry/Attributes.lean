import Wallow.Telemetry.PrivacyText

/-!
# Attributes in telemetry

`sanitizeAttributes`: a walk over a value of any shape, within bounds on its depth and on the number
of values it visits, that keeps no name that is excluded and no text as it came.
-/

namespace Wallow.Telemetry.Privacy

open Js Pattern

variable {ν Ref : Type}

/-- What a walk has left, and the objects it has come across. -/
structure Walk (Ref : Type) where
  remaining : Int
  seen : List Ref

/-- `map` with a function that changes the walk. -/
def mapWalk {α β : Type} (f : α → Walk Ref → β × Walk Ref) :
    List α → Walk Ref → List β × Walk Ref
  | [], w => ([], w)
  | x :: xs, w =>
    let (y, w) := f x w
    let (ys, w) := mapWalk f xs w
    (y :: ys, w)

def cutKey (key : String) : String := String.ofList (Js.slice LIMITS.identityLength key.toList)

def redactedText : Json := .string "[redacted]"

section

variable [DecidableEq Ref] (N : Numbers ν) (hosts : WebUrl.HostParser) (heap : Heap ν Ref)

/-- The entry that stays of one of an object; the value of an excluded name is not visited. -/
def visitEntry (visit : Value ν Ref → Walk Ref → Json × Walk Ref) (entry : String × Value ν Ref)
    (w : Walk Ref) : (String × Json) × Walk Ref :=
  if isExcluded entry.1.toList then ((cutKey entry.1, redactedText), w)
  else
    let (item, w) := visit entry.2 w
    ((cutKey entry.1, item), w)

/-- `visit`, with the number of levels that may still be entered. -/
def visit : Nat → Value ν Ref → Walk Ref → Json × Walk Ref
  | 0, _, w => (.string "[limit]", { w with remaining := w.remaining - 1 })
  | levels + 1, value, w =>
    let w := { w with remaining := w.remaining - 1 }
    if w.remaining < 0 then (.string "[limit]", w)
    else
      match value with
      | .string value => (.string (String.ofList (text hosts value.toList)), w)
      | .bool value => (.bool value, w)
      | .null => (.null, w)
      | .number value => (N.toJson value, w)
      | .undefined => (redactedText, w)
      | .other => (redactedText, w)
      | .reference target =>
        if target ∈ w.seen then (.string "[circular]", w)
        else
          let w := { w with seen := target :: w.seen }
          match heap target with
          | .array items =>
            let (items, w) := mapWalk (visit levels) (items.take LIMITS.attributes) w
            (.array items, w)
          | .object entries _ =>
            let (fields, w) :=
              mapWalk (visitEntry (visit levels)) (entries.take LIMITS.attributes) w
            (.object (fromEntries fields), w)

/-- Apply the same bounded recursive policy at producer and relay boundaries. -/
def sanitizeAttributes (input : Value ν Ref) : List (String × Json) :=
  match input with
  | .reference target =>
    match heap target with
    | .array _ => []
    | .object _ _ =>
      match (visit N hosts heap (LIMITS.depth + 1) input ⟨LIMITS.nodes, []⟩).1 with
      | .object fields => fromEntries fields
      | _ => []
  | _ => []

end

/-! ## Names -/

theorem plain_literal (ps : List (Char → Bool)) : (literal ps).Plain := by
  induction ps with
  | nil => exact trivial
  | cons p ps ih =>
    cases ps with
    | nil => exact trivial
    | cons q ps => exact ⟨trivial, ih⟩

theorem plain_anyOf (as : List Pattern) (h : ∀ a ∈ as, a.Plain) : (anyOf as).Plain := by
  induction as with
  | nil => exact plain_literal []
  | cons a as ih =>
    cases as with
    | nil => exact h a List.mem_cons_self
    | cons b as =>
      exact ⟨h a List.mem_cons_self, ih fun c hc => h c (List.mem_cons_of_mem a hc)⟩

theorem plain_excluded : excluded.Plain := by
  apply plain_anyOf
  simp only [List.forall_mem_cons, List.not_mem_nil, false_implies, implies_true, and_true]
  exact ⟨plain_literal _, plain_literal _, ⟨plain_literal _, plain_literal _⟩, plain_literal _,
    plain_literal _, plain_literal _, plain_literal _, plain_literal _, plain_literal _,
    plain_literal _, plain_literal _, plain_literal _, plain_literal _, plain_literal _⟩

theorem plain_identity : identity.Plain := by
  refine ⟨plain_anyOf _ ?_, trivial⟩
  simp only [List.forall_mem_cons, List.not_mem_nil, false_implies, implies_true, and_true]
  exact ⟨plain_literal _, plain_literal _, plain_literal _⟩

/-- A name that begins with an excluded one is excluded. -/
theorem isExcluded_append {key : List Char} (rest : List Char) (h : isExcluded key = true) :
    isExcluded (key ++ rest) = true := by
  rw [isExcluded, Bool.or_eq_true] at h ⊢
  cases h with
  | inl hexcluded =>
    have ⟨u, m, v, hkey, hm⟩ := exists_accepts_of_testFrom hexcluded
    apply Or.inl
    rw [hkey, List.append_assoc, List.append_assoc]
    exact test_of_accepts (hm.anywhere plain_excluded _ _)
  | inr hidentity =>
    rw [Bool.not_eq_true', List.isEmpty_eq_false_iff_exists_mem] at hidentity
    have ⟨x, hx⟩ := hidentity
    have ⟨m, hkey, _, hm⟩ := ends_sound hx
    apply Or.inr
    rw [hkey, List.append_assoc, Bool.not_eq_true', List.isEmpty_eq_false_iff_exists_mem]
    exact ⟨_, ends_complete (hm.anywhere plain_identity _ _) _ rfl⟩

theorem isExcluded_of_cutKey {key : String} (h : isExcluded (cutKey key).toList = true) :
    isExcluded key.toList = true := by
  have ⟨rest, hkey⟩ := slice_isPrefix LIMITS.identityLength key.toList
  rw [cutKey, String.toList_ofList] at h
  rw [← hkey]
  exact isExcluded_append rest h

/-! ## Members -/

theorem mem_mapWalk {α β : Type} {f : α → Walk Ref → β × Walk Ref} {xs : List α} {y : β}
    {w : Walk Ref} (h : y ∈ (mapWalk f xs w).1) : ∃ x ∈ xs, ∃ w, y = (f x w).1 := by
  induction xs generalizing w with
  | nil => exact absurd h List.not_mem_nil
  | cons x xs ih =>
    cases List.mem_cons.mp h with
    | inl heq => exact ⟨x, List.mem_cons_self, w, heq⟩
    | inr hin =>
      have ⟨x', hx', w', hy⟩ := ih hin
      exact ⟨x', List.mem_cons_of_mem x hx', w', hy⟩

theorem length_mapWalk {α β : Type} (f : α → Walk Ref → β × Walk Ref) (xs : List α)
    (w : Walk Ref) : (mapWalk f xs w).1.length = xs.length := by
  induction xs generalizing w with
  | nil => rfl
  | cons x xs ih => exact congrArg (· + 1) (ih _)

/-- An entry whose name is excluded says nothing. -/
def EntryRedacted (field : String × Json) : Prop :=
  isExcluded field.1.toList = true → field.2 = redactedText

theorem visitEntry_redacted (visit : Value ν Ref → Walk Ref → Json × Walk Ref)
    (entry : String × Value ν Ref) (w : Walk Ref) :
    EntryRedacted (visitEntry visit entry w).1 := by
  intro hname
  rw [visitEntry] at hname ⊢
  split
  · rfl
  · rename_i hnot
    rw [if_neg hnot] at hname
    exact absurd (isExcluded_of_cutKey hname) hnot

theorem cutKey_cutKey (key : String) : cutKey (cutKey key) = cutKey key := by
  rw [cutKey, cutKey, String.toList_ofList, slice_slice]

theorem visitEntry_key (visit : Value ν Ref → Walk Ref → Json × Walk Ref)
    (entry : String × Value ν Ref) (w : Walk Ref) :
    (visitEntry visit entry w).1.1 = cutKey entry.1 := by
  rw [visitEntry]
  split <;> rfl

/-- What is known of an entry that stays. -/
structure EntryKept (field : String × Json) : Prop where
  key : cutKey field.1 = field.1
  redacted : EntryRedacted field

theorem visitEntry_kept (visit : Value ν Ref → Walk Ref → Json × Walk Ref)
    (entry : String × Value ν Ref) (w : Walk Ref) : EntryKept (visitEntry visit entry w).1 where
  key := by rw [visitEntry_key, cutKey_cutKey]
  redacted := visitEntry_redacted visit entry w

variable [DecidableEq Ref] {N : Numbers ν} {hosts : WebUrl.HostParser} {heap : Heap ν Ref}

/-- What is made of an object: no more entries than the limit, and none of an excluded name. -/
theorem visit_object {levels : Nat} {value : Value ν Ref} {w : Walk Ref}
    {fields : List (String × Json)} (h : (visit N hosts heap levels value w).1 = .object fields) :
    Arranged fields ∧ fields.length ≤ LIMITS.attributes ∧ ∀ field ∈ fields, EntryKept field := by
  cases levels with
  | zero => exact Json.noConfusion h
  | succ levels =>
    rw [visit.eq_def] at h
    dsimp only at h
    split at h
    · exact Json.noConfusion h
    · split at h
      all_goals try exact Json.noConfusion h
      · unfold Numbers.toJson at h
        split at h <;> exact Json.noConfusion h
      · split at h
        · exact Json.noConfusion h
        · split at h
          · exact Json.noConfusion h
          · rename_i entries _ _
            have hfields := (Json.object.inj h).symm
            rw [hfields]
            refine ⟨arranged_fromEntries _, ?_, fun field hfield => ?_⟩
            · apply Nat.le_trans (length_fromEntries_le _)
              rw [length_mapWalk]
              exact Nat.le_trans (List.length_take_le _ _) (Nat.le_refl _)
            · have ⟨entry, _, w', hentry⟩ := mem_mapWalk (mem_fromEntries hfield)
              rw [hentry]
              exact visitEntry_kept _ entry w'

variable (N hosts heap)

theorem sanitizeAttributes_cases (input : Value ν Ref) :
    sanitizeAttributes N hosts heap input = [] ∨
      ∃ fields, (visit N hosts heap (LIMITS.depth + 1) input ⟨LIMITS.nodes, []⟩).1 =
        .object fields ∧ sanitizeAttributes N hosts heap input = fields := by
  unfold sanitizeAttributes
  split
  · split
    · exact Or.inl rfl
    · split
      · rename_i fields hfields
        exact Or.inr ⟨fields, hfields, fromEntries_of_arranged (visit_object hfields).1⟩
      · exact Or.inl rfl
  · exact Or.inl rfl

theorem sanitizeAttributes_spec (input : Value ν Ref) :
    Arranged (sanitizeAttributes N hosts heap input) ∧
      (sanitizeAttributes N hosts heap input).length ≤ LIMITS.attributes ∧
      ∀ field ∈ sanitizeAttributes N hosts heap input, EntryKept field := by
  cases sanitizeAttributes_cases N hosts heap input with
  | inl hnone =>
    rw [hnone]
    exact ⟨List.Pairwise.nil, Nat.zero_le _, fun field h => absurd h List.not_mem_nil⟩
  | inr hsome =>
    have ⟨fields, hvisit, heq⟩ := hsome
    rw [heq]
    exact visit_object hvisit

end Wallow.Telemetry.Privacy
