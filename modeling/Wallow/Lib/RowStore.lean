import Mathlib.Data.List.Nodup

/-!
# Versioned rows under row locks

A table keeps one committed version of each row under its primary key, and every write stamps a
fresh version, so that a writer can tell whether the row it read is still there.  Row locks are
held by transactions until they end; that no key has two holders is part of the lock table.
-/

namespace RowStore

variable {κ α : Type*}

/-- A committed row version. -/
structure Row (α : Type*) where
  value : α
  version : Nat
  deriving DecidableEq

/-- The committed rows, no two of them under one key. -/
structure Table (key : α → κ) where
  rows : List (Row α)
  keys_nodup : (rows.map (key ·.value)).Nodup

namespace Table

variable {key : α → κ}

/-- A row is determined by its key. -/
theorem eq_of_key_eq (t : Table key) {r r' : Row α} (hr : r ∈ t.rows) (hr' : r' ∈ t.rows)
    (h : key r.value = key r'.value) : r = r' :=
  List.inj_on_of_nodup_map t.keys_nodup hr hr' h

variable [DecidableEq κ]

/-- Replace the row with the key of `value`, where there is one. -/
def update (t : Table key) (value : α) (version : Nat) : Table key where
  rows := t.rows.map fun r => if key r.value = key value then ⟨value, version⟩ else r
  keys_nodup := by
    -- the new value has the key of the one it replaces
    have hkeys : (t.rows.map fun r => if key r.value = key value then ⟨value, version⟩ else r).map
        (key ·.value) = t.rows.map (key ·.value) := by
      rw [List.map_map]
      apply List.map_congr_left
      intro r _
      by_cases h : key r.value = key value
      · simp [h]
      · simp [h]
    rw [hkeys]
    exact t.keys_nodup

def delete (t : Table key) (k : κ) : Table key where
  rows := t.rows.filter fun r => key r.value ≠ k
  keys_nodup := t.keys_nodup.sublist (List.filter_sublist.map _)

/-- Add a row, where its key is free. -/
def insert (t : Table key) (value : α) (version : Nat) : Table key :=
  if h : key value ∈ t.rows.map (key ·.value) then t
  else ⟨⟨value, version⟩ :: t.rows, List.nodup_cons.mpr ⟨h, t.keys_nodup⟩⟩

/-- The row read earlier is still the committed one. -/
def Current (t : Table key) (k : κ) (version : Nat) : Prop :=
  ∃ r ∈ t.rows, key r.value = k ∧ r.version = version

instance (t : Table key) (k : κ) (version : Nat) : Decidable (t.Current k version) :=
  inferInstanceAs (Decidable (∃ r ∈ t.rows, _))

variable {t : Table key} {r : Row α} {value : α} {version : Nat} {k : κ}

theorem mem_update : r ∈ (t.update value version).rows ↔
    (r ∈ t.rows ∧ key r.value ≠ key value) ∨
      (r = ⟨value, version⟩ ∧ ∃ r' ∈ t.rows, key r'.value = key value) := by
  simp only [update, List.mem_map]
  constructor
  · rintro ⟨r', hr', rfl⟩
    by_cases h : key r'.value = key value
    · exact .inr ⟨by simp [h], r', hr', h⟩
    · exact .inl (by simpa [h] using hr')
  · rintro (⟨hr, hne⟩ | ⟨rfl, r', hr', h⟩)
    · exact ⟨r, hr, by simp [hne]⟩
    · exact ⟨r', hr', by simp [h]⟩

theorem mem_delete : r ∈ (t.delete k).rows ↔ r ∈ t.rows ∧ key r.value ≠ k := by
  simp [delete]

theorem mem_of_mem_insert (h : r ∈ (t.insert value version).rows) :
    r ∈ t.rows ∨ r = ⟨value, version⟩ := by
  unfold insert at h
  split at h
  · exact .inl h
  · exact (List.mem_cons.mp h).symm

theorem mem_insert_of_mem (h : r ∈ t.rows) : r ∈ (t.insert value version).rows := by
  unfold insert
  split
  · exact h
  · exact List.mem_cons_of_mem _ h

end Table

/-- The locks held, as pairs of holder and key. -/
structure Locks (κ : Type*) where
  held : List (Nat × κ)
  exclusive : ∀ e ∈ held, ∀ e' ∈ held, e.2 = e'.2 → e.1 = e'.1

namespace Locks

def empty : Locks κ := ⟨[], by simp⟩

def Holds (l : Locks κ) (p : Nat) (k : κ) : Prop := (p, k) ∈ l.held

theorem Holds.unique {l : Locks κ} {p q : Nat} {k : κ} (hp : l.Holds p k) (hq : l.Holds q k) :
    p = q :=
  l.exclusive _ hp _ hq rfl

section

variable [DecidableEq κ]

/-- Take the lock on `k`; `none` while somebody else holds it. -/
def acquire (l : Locks κ) (p : Nat) (k : κ) : Option (Locks κ) :=
  if h : ∀ e ∈ l.held, e.2 = k → e.1 = p then
    some ⟨(p, k) :: l.held, by
      intro e he e' he' heq
      rcases List.mem_cons.mp he with rfl | he
      · rcases List.mem_cons.mp he' with rfl | he'
        · rfl
        · exact (h e' he' heq.symm).symm
      · rcases List.mem_cons.mp he' with rfl | he'
        · exact h e he heq
        · exact l.exclusive e he e' he' heq⟩
  else none

variable {l l' : Locks κ} {p q : Nat} {k k' : κ}

theorem holds_acquire (h : l.acquire p k = some l') :
    l'.Holds q k' ↔ (q = p ∧ k' = k) ∨ l.Holds q k' := by
  unfold acquire at h
  split at h
  · cases h
    simp [Holds]
  · cases h

end

/-- The end of a transaction frees what it held. -/
def release (l : Locks κ) (p : Nat) : Locks κ where
  held := l.held.filter (·.1 ≠ p)
  exclusive := fun e he e' he' h =>
    l.exclusive e (List.mem_of_mem_filter he) e' (List.mem_of_mem_filter he') h

@[simp] theorem holds_release {l : Locks κ} {p q : Nat} {k : κ} :
    (l.release p).Holds q k ↔ l.Holds q k ∧ q ≠ p := by
  simp [Holds, release]

end Locks

end RowStore
