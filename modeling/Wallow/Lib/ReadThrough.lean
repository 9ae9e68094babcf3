import Wallow.Lib.Expiring
import Mathlib.Logic.Function.Basic

/-!
# A cache that is read through

A read takes the entry that is alive, and otherwise computes the value and leaves it in the cache.
The views `ν` of an authority are kept under `key`; the cache agrees with the authority when what is
alive under each key is what the view says now.
-/

namespace ExpiringMap

variable {ν κ α : Type*} [DecidableEq κ]

/-- The value read, and the cache after the read. -/
def readThrough (m : ExpiringMap κ α) (now ttl : Int) (k : κ) (fresh : α) : α × ExpiringMap κ α :=
  match m.lookup now k with
  | some v => (v, m)
  | none => (fresh, m.put k fresh (some (now + ttl)))

/-- Whatever is alive under a view's key is what the view says. -/
def Agrees (m : ExpiringMap κ α) (now : Int) (key : ν → κ) (view : ν → α) : Prop :=
  ∀ n v, m.lookup now (key n) = some v → v = view n

variable {m : ExpiringMap κ α} {now : Int} {key : ν → κ} {view view' : ν → α}

omit [DecidableEq κ] in
theorem agrees_empty : (empty : ExpiringMap κ α).Agrees now key view := by
  intro n v h
  cases h

omit [DecidableEq κ] in
theorem Agrees.later {now' : Int} (hle : now ≤ now') (h : m.Agrees now key view) :
    m.Agrees now' key view :=
  fun n v hv => h n v (lookup_of_later hle hv)

theorem Agrees.erase (h : m.Agrees now key view) (k : κ) : (m.erase k).Agrees now key view := by
  intro n v hv
  by_cases hk : key n = k
  · rw [hk, lookup_erase_self] at hv
    cases hv
  · rw [lookup_erase_of_ne m now hk] at hv
    exact h n v hv

theorem lookup_put_self {k : κ} {v w : α} {expiresAt : Option Int}
    (h : (m.put k v expiresAt).lookup now k = some w) : w = v := by
  obtain ⟨e, he, -, hv⟩ := lookup_eq_some_iff.mp h
  rw [put_self, Option.some.injEq] at he
  rw [← hv, ← he]

theorem Agrees.put (hkey : Function.Injective key) (h : m.Agrees now key view) (n : ν)
    (expiresAt : Option Int) : (m.put (key n) (view n) expiresAt).Agrees now key view := by
  intro n' v hv
  by_cases hk : key n' = key n
  · rw [hk] at hv
    rw [lookup_put_self hv, hkey hk]
  · rw [lookup_put_of_ne m now _ _ hk] at hv
    exact h n' v hv

theorem Agrees.readThrough (hkey : Function.Injective key) (h : m.Agrees now key view) (ttl : Int)
    (n : ν) : (m.readThrough now ttl (key n) (view n)).2.Agrees now key view := by
  unfold ExpiringMap.readThrough
  cases m.lookup now (key n) with
  | some v => exact h
  | none => exact h.put hkey n _

/-- The cache agrees exactly when every read through it says what the authority says. -/
theorem agrees_iff_readThrough (ttl : Int) :
    m.Agrees now key view ↔ ∀ n, (m.readThrough now ttl (key n) (view n)).1 = view n := by
  constructor
  · intro h n
    unfold ExpiringMap.readThrough
    cases hv : m.lookup now (key n) with
    | some v => exact h n v hv
    | none => rfl
  · intro h n v hv
    have hread := h n
    rw [ExpiringMap.readThrough, hv] at hread
    exact hread

omit [DecidableEq κ] in
/-- When the authority changes, the cache goes on agreeing exactly when no view that is alive in it
changes. -/
theorem agrees_change (h : m.Agrees now key view) :
    m.Agrees now key view' ↔
      ∀ n, (m.lookup now (key n)).isSome = true → view' n = view n := by
  constructor
  · intro h' n hn
    obtain ⟨v, hv⟩ := Option.isSome_iff_exists.mp hn
    rw [← h n v hv, ← h' n v hv]
  · intro hsame n v hv
    rw [h n v hv, hsame n (by rw [hv]; rfl)]

end ExpiringMap
