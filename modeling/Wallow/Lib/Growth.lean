import Mathlib.Logic.Function.Basic

/-!
# Rows that only grow

A row of a store may be added and may move along a relation, and is never lost.  Stores are
functions from keys to optional rows.
-/

namespace Growth

variable {κ α : Type*}

/-- Every row there was is still there, moved along `R`. -/
def Grows (R : α → α → Prop) (before after : Option α) : Prop :=
  ∀ a, before = some a → ∃ b, after = some b ∧ R a b

variable {R : α → α → Prop} {o o' o'' : Option α}

theorem Grows.refl (hR : ∀ a, R a a) (o : Option α) : Grows R o o :=
  fun a h => ⟨a, h, hR a⟩

theorem Grows.trans (hR : ∀ a b c, R a b → R b c → R a c) (h : Grows R o o')
    (h' : Grows R o' o'') : Grows R o o'' := by
  intro a ha
  obtain ⟨b, hb, hab⟩ := h a ha
  obtain ⟨c, hc, hbc⟩ := h' b hb
  exact ⟨c, hc, hR a b c hab hbc⟩

theorem Grows.map {f : α → α} (hf : ∀ a, R a (f a)) (o : Option α) : Grows R o (o.map f) := by
  intro a ha
  exact ⟨f a, by rw [ha]; rfl, hf a⟩

/-- Writing one row lets every row grow, when the written one does. -/
theorem grows_update [DecidableEq κ] {store : κ → Option α} {k : κ} {b : α} (hR : ∀ a, R a a)
    (h : ∀ a, store k = some a → R a b) (k' : κ) :
    Grows R (store k') (Function.update store k (some b) k') := by
  by_cases hk : k' = k
  · subst hk
    intro a ha
    exact ⟨b, Function.update_self .., h a ha⟩
  · rw [Function.update_of_ne hk]
    exact Grows.refl hR _

end Growth
