import Mathlib.Logic.Function.Basic
import Mathlib.Data.Option.Basic

/-!
# Keyed entries with an expiry

A map whose entries may carry the instant they lapse at.  Every read is taken at a clock reading
and sees only the entries alive then, so an expired entry and a missing one cannot be told apart.
-/

/-- A stored value and the instant it lapses at, `none` for no expiry. -/
structure Expiring (α : Type*) where
  value : α
  expiresAt : Option Int
  deriving DecidableEq

namespace Expiring

variable {α : Type*}

def isAlive (e : Expiring α) (now : Int) : Bool :=
  match e.expiresAt with
  | none => true
  | some at_ => now < at_

theorem isAlive_anti {e : Expiring α} {t t' : Int} (hle : t ≤ t') (h : e.isAlive t' = true) :
    e.isAlive t = true := by
  unfold isAlive at h ⊢
  cases he : e.expiresAt with
  | none => rfl
  | some at_ =>
    rw [he] at h
    simp only [decide_eq_true_eq] at h ⊢
    omega

end Expiring

/-- A map from keys to expiring values. -/
abbrev ExpiringMap (κ α : Type*) := κ → Option (Expiring α)

namespace ExpiringMap

variable {κ α : Type*}

def empty : ExpiringMap κ α := fun _ => none

/-- The entry at `k`, unless it has lapsed. -/
def alive (m : ExpiringMap κ α) (now : Int) (k : κ) : Option (Expiring α) :=
  (m k).filter fun e => e.isAlive now

def lookup (m : ExpiringMap κ α) (now : Int) (k : κ) : Option α :=
  (m.alive now k).map (·.value)

theorem alive_eq_some_iff {m : ExpiringMap κ α} {now : Int} {k : κ} {e : Expiring α} :
    m.alive now k = some e ↔ m k = some e ∧ e.isAlive now = true := by
  simp [alive, Option.filter_eq_some_iff]

theorem lookup_eq_some_iff {m : ExpiringMap κ α} {now : Int} {k : κ} {v : α} :
    m.lookup now k = some v ↔ ∃ e, m k = some e ∧ e.isAlive now = true ∧ e.value = v := by
  simp [lookup, alive_eq_some_iff, and_assoc]

/-- Time only takes entries away. -/
theorem lookup_of_later {m : ExpiringMap κ α} {t t' : Int} {k : κ} {v : α} (hle : t ≤ t')
    (h : m.lookup t' k = some v) : m.lookup t k = some v := by
  obtain ⟨e, hk, ha, hv⟩ := lookup_eq_some_iff.mp h
  exact lookup_eq_some_iff.mpr ⟨e, hk, Expiring.isAlive_anti hle ha, hv⟩

theorem lookup_none_of_later {m : ExpiringMap κ α} {t t' : Int} {k : κ} (hle : t ≤ t')
    (h : m.lookup t k = none) : m.lookup t' k = none := by
  cases h' : m.lookup t' k with
  | none => rfl
  | some v =>
    rw [lookup_of_later hle h'] at h
    cases h

variable [DecidableEq κ]

def put (m : ExpiringMap κ α) (k : κ) (v : α) (expiresAt : Option Int) : ExpiringMap κ α :=
  Function.update m k (some ⟨v, expiresAt⟩)

def erase (m : ExpiringMap κ α) (k : κ) : ExpiringMap κ α :=
  Function.update m k none

@[simp] theorem put_self (m : ExpiringMap κ α) (k : κ) (v : α) (ex : Option Int) :
    m.put k v ex k = some ⟨v, ex⟩ := by
  simp [put]

@[simp] theorem erase_self (m : ExpiringMap κ α) (k : κ) : m.erase k k = none := by
  simp [erase]

theorem put_of_ne (m : ExpiringMap κ α) {k k' : κ} (v : α) (ex : Option Int) (h : k' ≠ k) :
    m.put k v ex k' = m k' :=
  Function.update_of_ne h _ _

theorem erase_of_ne (m : ExpiringMap κ α) {k k' : κ} (h : k' ≠ k) : m.erase k k' = m k' :=
  Function.update_of_ne h _ _

/-- An entry found after a write is the one written, or was there before. -/
theorem some_of_put {m : ExpiringMap κ α} {k k' : κ} {v : α} {ex : Option Int} {e : Expiring α}
    (h : m.put k v ex k' = some e) : (k' = k ∧ e = ⟨v, ex⟩) ∨ m k' = some e := by
  by_cases hk : k' = k
  · subst hk
    rw [put_self, Option.some.injEq] at h
    exact .inl ⟨rfl, h.symm⟩
  · rw [put_of_ne m v ex hk] at h
    exact .inr h

/-- An entry found after a removal is another one. -/
theorem some_of_erase {m : ExpiringMap κ α} {k k' : κ} {e : Expiring α}
    (h : m.erase k k' = some e) : k' ≠ k ∧ m k' = some e := by
  have hk : k' ≠ k := by
    rintro rfl
    rw [erase_self] at h
    cases h
  rw [erase_of_ne m hk] at h
  exact ⟨hk, h⟩

theorem alive_put_of_ne (m : ExpiringMap κ α) (now : Int) {k k' : κ} (v : α) (ex : Option Int)
    (h : k' ≠ k) : (m.put k v ex).alive now k' = m.alive now k' := by
  rw [alive, put_of_ne m v ex h, alive]

theorem alive_erase_of_ne (m : ExpiringMap κ α) (now : Int) {k k' : κ} (h : k' ≠ k) :
    (m.erase k).alive now k' = m.alive now k' := by
  rw [alive, erase_of_ne m h, alive]

theorem lookup_put_of_ne (m : ExpiringMap κ α) (now : Int) {k k' : κ} (v : α) (ex : Option Int)
    (h : k' ≠ k) : (m.put k v ex).lookup now k' = m.lookup now k' := by
  rw [lookup, alive_put_of_ne m now v ex h, lookup]

theorem lookup_erase_of_ne (m : ExpiringMap κ α) (now : Int) {k k' : κ} (h : k' ≠ k) :
    (m.erase k).lookup now k' = m.lookup now k' := by
  rw [lookup, alive_erase_of_ne m now h, lookup]

@[simp] theorem lookup_erase_self (m : ExpiringMap κ α) (now : Int) (k : κ) :
    (m.erase k).lookup now k = none := by
  simp [lookup, alive]

end ExpiringMap
