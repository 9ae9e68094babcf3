import Wallow.Lib.Transition
import Mathlib.Data.List.Nodup

/-!
# One-time tokens rotated under a lock

A shared cell holds a token that may be used once; using it yields the token that replaces it.
Parties take a lock before they use the token and store its replacement before they release.
Two things make this safe: nobody takes the lock with a token other than the one in the cell, and
a token whose use failed is not tried again.
-/

namespace OneTimeToken

variable {ι τ : Type*}

/-- What the party holding the lock has still to do. -/
inductive Stage (τ : Type*) where
  /-- Use the token. -/
  | using (token : τ)
  /-- Store the replacement of a token that was used. -/
  | storing (token next : τ)
  /-- Release the lock. -/
  | leaving
  deriving DecidableEq

structure State (ι τ : Type*) where
  cell : Option τ
  used : List τ
  failed : List τ
  holder : Option (ι × Stage τ)

inductive Label (ι τ : Type*) where
  | acquire (party : ι) (token : τ)
  | succeed (next : τ)
  | fail
  | giveUp
  | store
  | release
  | clear

def step [DecidableEq τ] (s : State ι τ) : Label ι τ → Option (State ι τ)
  | .acquire party token =>
    if s.holder.isNone ∧ s.cell = some token ∧ token ∉ s.failed then
      some { s with holder := some (party, .using token) }
    else none
  | .succeed next =>
    match s.holder with
    | some (party, .using token) =>
      if next ∈ s.used ∨ next = token then none
      else some { s with used := token :: s.used, holder := some (party, .storing token next) }
    | _ => none
  | .fail =>
    match s.holder with
    | some (party, .using token) =>
      some { s with
        used := token :: s.used
        failed := token :: s.failed
        holder := some (party, .leaving) }
    | _ => none
  | .giveUp =>
    match s.holder with
    | some (party, .using _) => some { s with holder := some (party, .leaving) }
    | _ => none
  | .store =>
    match s.holder with
    | some (party, .storing _ next) =>
      some { s with cell := some next, holder := some (party, .leaving) }
    | _ => none
  | .release =>
    match s.holder with
    | some (_, .leaving) => some { s with holder := none }
    | _ => none
  | .clear => some { s with cell := none }

/-- A used token is in the cell only until its replacement is stored, unless its use failed. -/
structure Safe (s : State ι τ) : Prop where
  nodup : s.used.Nodup
  using_unused : ∀ party token, s.holder = some (party, .using token) → token ∉ s.used
  next_unused : ∀ party token next, s.holder = some (party, .storing token next) → next ∉ s.used
  cell_unused : ∀ token, s.cell = some token → token ∈ s.used → token ∈ s.failed ∨
    ∃ party next, s.holder = some (party, .storing token next)

theorem safe_initial (cell : Option τ) :
    Safe ({ cell := cell, used := [], failed := [], holder := none } : State ι τ) where
  nodup := List.nodup_nil
  using_unused _ _ h := by cases h
  next_unused _ _ _ h := by cases h
  cell_unused _ _ h := by cases h

variable [DecidableEq τ]

/-- Every step keeps the tokens single-use. -/
theorem Safe.step {s s' : State ι τ} {l : Label ι τ} (h : Safe s) (hs : step s l = some s') :
    Safe s' := by
  cases l with
  | acquire party token =>
    simp only [OneTimeToken.step] at hs
    split at hs
    · rename_i hen
      obtain ⟨hfree, hcell, hfailed⟩ := hen
      cases hs
      rw [Option.isNone_iff_eq_none] at hfree
      -- the lock is free, so no replacement of a used token is under way
      have hunused : token ∉ s.used := by
        intro hused
        rcases h.cell_unused token hcell hused with hf | ⟨_, _, hh⟩
        · exact hfailed hf
        · rw [hfree] at hh
          cases hh
      refine ⟨h.nodup, ?_, ?_, ?_⟩
      · rintro _ _ ⟨⟩
        exact hunused
      · rintro _ _ _ ⟨⟩
      · intro t ht hused
        rw [hcell, Option.some.injEq] at ht
        exact (hunused (ht ▸ hused)).elim
    · cases hs
  | succeed next =>
    simp only [OneTimeToken.step] at hs
    split at hs
    · rename_i party token hh
      split at hs
      · cases hs
      · rename_i hnew
        cases hs
        have hunused := h.using_unused party token hh
        refine ⟨List.nodup_cons.mpr ⟨hunused, h.nodup⟩, ?_, ?_, ?_⟩
        · rintro _ _ ⟨⟩
        · rintro _ _ _ ⟨⟩
          simpa [not_or, and_comm] using hnew
        · intro t ht hused
          rcases List.mem_cons.mp hused with rfl | hused
          · exact Or.inr ⟨party, next, rfl⟩
          · rcases h.cell_unused t ht hused with hf | ⟨_, _, hh'⟩
            · exact Or.inl hf
            · rw [hh] at hh'
              cases hh'
    · cases hs
  | fail =>
    simp only [OneTimeToken.step] at hs
    split at hs
    · rename_i party token hh
      cases hs
      refine ⟨List.nodup_cons.mpr ⟨h.using_unused party token hh, h.nodup⟩, ?_, ?_, ?_⟩
      · rintro _ _ ⟨⟩
      · rintro _ _ _ ⟨⟩
      · intro t ht hused
        rcases List.mem_cons.mp hused with rfl | hused
        · exact Or.inl List.mem_cons_self
        · rcases h.cell_unused t ht hused with hf | ⟨_, _, hh'⟩
          · exact Or.inl (List.mem_cons_of_mem _ hf)
          · rw [hh] at hh'
            cases hh'
    · cases hs
  | giveUp =>
    simp only [OneTimeToken.step] at hs
    split at hs
    · rename_i party token hh
      cases hs
      refine ⟨h.nodup, ?_, ?_, ?_⟩
      · rintro _ _ ⟨⟩
      · rintro _ _ _ ⟨⟩
      · intro t ht hused
        rcases h.cell_unused t ht hused with hf | ⟨_, _, hh'⟩
        · exact Or.inl hf
        · rw [hh] at hh'
          cases hh'
    · cases hs
  | store =>
    simp only [OneTimeToken.step] at hs
    split at hs
    · rename_i party token next hh
      cases hs
      refine ⟨h.nodup, ?_, ?_, ?_⟩
      · rintro _ _ ⟨⟩
      · rintro _ _ _ ⟨⟩
      · intro t ht hused
        cases ht
        exact (h.next_unused party token next hh hused).elim
    · cases hs
  | release =>
    simp only [OneTimeToken.step] at hs
    split at hs
    · rename_i party hh
      cases hs
      refine ⟨h.nodup, ?_, ?_, ?_⟩
      · rintro _ _ ⟨⟩
      · rintro _ _ _ ⟨⟩
      · intro t ht hused
        rcases h.cell_unused t ht hused with hf | ⟨_, _, hh'⟩
        · exact Or.inl hf
        · rw [hh] at hh'
          cases hh'
    · cases hs
  | clear =>
    cases hs
    exact ⟨h.nodup, h.using_unused, h.next_unused, fun _ ht => by cases ht⟩

end OneTimeToken
