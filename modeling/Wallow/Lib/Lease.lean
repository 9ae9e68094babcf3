import Wallow.Lib.Expiring
import Wallow.Lib.Transition

/-!
# Locks that lapse, released by a plain delete

A caller takes a key by a conditional put with an expiry and gives it back by deleting the key,
whoever the entry belongs to by then.  Mutual exclusion among callers whose lock has not lapsed
rests on when the deletes come.
-/

namespace Lease

variable {ι κ ν : Type*}

/-- `grants` is what each caller believes: the key it took and the instant its lock lapses. -/
structure State (ι κ ν : Type*) where
  locks : ExpiringMap κ ν
  now : Int
  grants : ι → Option (κ × Int)

inductive Move (ι κ ν : Type*) where
  | acquire (caller : ι) (key : κ) (value : ν) (lapses : Int)
  | release (caller : ι)
  | elapse (time : Nat)

def State.initial (now : Int) : State ι κ ν := ⟨.empty, now, fun _ => none⟩

/-- A key is taken only while no live entry stands under it. -/
def step [DecidableEq ι] [DecidableEq κ] (s : State ι κ ν) : Move ι κ ν → Option (State ι κ ν)
  | .acquire caller key value lapses =>
    match s.locks.alive s.now key, s.grants caller with
    | none, none =>
      some { s with
        locks := s.locks.put key value (some lapses)
        grants := Function.update s.grants caller (some (key, lapses)) }
    | _, _ => none
  | .release caller =>
    match s.grants caller with
    | none => none
    | some (key, _) =>
      some { s with
        locks := s.locks.erase key
        grants := Function.update s.grants caller none }
  | .elapse time => some { s with now := s.now + time }

/-- The caller believes it holds `key`, and its lock has not lapsed. -/
def Holds (s : State ι κ ν) (caller : ι) (key : κ) : Prop :=
  ∃ lapses, s.grants caller = some (key, lapses) ∧ s.now < lapses

/-- Two callers never hold one key. -/
def Exclusive (s : State ι κ ν) : Prop :=
  ∀ i j key, Holds s i key → Holds s j key → i = j

/-- A release by `caller` would delete a live lock that another caller holds. -/
def Steals (s : State ι κ ν) (caller : ι) : Prop :=
  ∃ key lapses other, s.grants caller = some (key, lapses) ∧ other ≠ caller ∧
    Holds s other key ∧ (s.locks.alive s.now key).isSome

/-- The caller's own lock has not lapsed, or no live lock stands under its key. -/
def ReleasesInTime (s : State ι κ ν) (caller : ι) : Prop :=
  ∀ key lapses, s.grants caller = some (key, lapses) →
    s.now < lapses ∨ s.locks.alive s.now key = none

def Timely (s : State ι κ ν) : Move ι κ ν → Prop
  | .release caller => ReleasesInTime s caller
  | _ => True

/-- Every entry belongs to a caller that has not released it, every unlapsed grant has its entry,
and no key has two unlapsed grants. -/
structure Backed (s : State ι κ ν) : Prop where
  owned : ∀ key e, s.locks key = some e →
    ∃ caller lapses, s.grants caller = some (key, lapses) ∧ e.expiresAt = some lapses
  stored : ∀ caller key lapses, s.grants caller = some (key, lapses) → s.now < lapses →
    ∃ e, s.locks key = some e ∧ e.expiresAt = some lapses
  exclusive : Exclusive s

theorem isAlive_of_expiry {e : Expiring ν} {now lapses : Int} (he : e.expiresAt = some lapses) :
    e.isAlive now = true ↔ now < lapses := by
  rw [Expiring.isAlive, he]
  simp only [decide_eq_true_eq]

theorem Backed.alive_of_holds {s : State ι κ ν} (h : Backed s) {caller : ι} {key : κ}
    (hh : Holds s caller key) : ∃ e, s.locks.alive s.now key = some e := by
  obtain ⟨lapses, hgrant, hnow⟩ := hh
  obtain ⟨e, he, hexpires⟩ := h.stored caller key lapses hgrant hnow
  exact ⟨e, ExpiringMap.alive_eq_some_iff.mpr ⟨he, (isAlive_of_expiry hexpires).mpr hnow⟩⟩

theorem backed_initial (now : Int) : Backed (State.initial now : State ι κ ν) where
  owned _ _ h := by cases h
  stored _ _ _ h := by cases h
  exclusive _ _ _ h := by
    obtain ⟨lapses, hgrant, -⟩ := h
    cases hgrant

/-- A late release steals exactly when it is not in time. -/
theorem Backed.steals_iff {s : State ι κ ν} (h : Backed s) (caller : ι) :
    Steals s caller ↔ ¬ ReleasesInTime s caller := by
  constructor
  · rintro ⟨key, lapses, other, hgrant, hne, hholds, halive⟩ htimely
    cases htimely key lapses hgrant with
    | inl hnow => exact hne (h.exclusive other caller key hholds ⟨lapses, hgrant, hnow⟩)
    | inr hnone =>
      rw [hnone] at halive
      cases halive
  · intro hlate
    simp only [ReleasesInTime, not_forall, not_or] at hlate
    obtain ⟨key, lapses, hgrant, hlapsed, hlive⟩ := hlate
    obtain ⟨e, halive⟩ := Option.ne_none_iff_exists'.mp hlive
    obtain ⟨he, hlives⟩ := ExpiringMap.alive_eq_some_iff.mp halive
    -- the live entry has an owner, and it is not the caller: the caller's own lock has lapsed
    obtain ⟨other, lapses', hother, hexpires⟩ := h.owned key e he
    have hnow : s.now < lapses' := (isAlive_of_expiry hexpires).mp hlives
    refine ⟨key, lapses, other, hgrant, ?_, ⟨lapses', hother, hnow⟩, by rw [halive]; rfl⟩
    rintro rfl
    rw [hgrant, Option.some.injEq, Prod.mk.injEq] at hother
    rw [hother.2] at hlapsed
    exact hlapsed hnow

theorem Backed.elapse {s : State ι κ ν} (h : Backed s) (time : Nat) :
    Backed { s with now := s.now + time } where
  owned := h.owned
  stored caller key lapses hgrant hnow :=
    h.stored caller key lapses hgrant (by simp only at hnow; omega)
  exclusive i j key hi hj := by
    obtain ⟨li, hgi, hni⟩ := hi
    obtain ⟨lj, hgj, hnj⟩ := hj
    simp only at hni hnj
    exact h.exclusive i j key ⟨li, hgi, by omega⟩ ⟨lj, hgj, by omega⟩

variable [DecidableEq ι] [DecidableEq κ] {s s' : State ι κ ν}

theorem release_locks {caller : ι}
    (hs : step s (.release caller : Move ι κ ν) = some s') :
    ∃ key lapses, s.grants caller = some (key, lapses) ∧ s'.locks = s.locks.erase key := by
  simp only [step] at hs
  split at hs
  · cases hs
  · rename_i key lapses hgrant
    cases hs
    exact ⟨key, lapses, hgrant, rfl⟩

/-- Only a release takes a live entry away. -/
theorem alive_of_not_release {m : Move ι κ ν} (hm : ∀ caller, m ≠ .release caller)
    (hs : step s m = some s') {key : κ} (hsome : (s.locks.alive s.now key).isSome) :
    s'.locks.alive s.now key = s.locks.alive s.now key := by
  cases m with
  | acquire caller key' value lapses =>
    simp only [step] at hs
    split at hs
    · rename_i halive hidle
      cases hs
      have hk : key ≠ key' := by
        rintro rfl
        rw [halive] at hsome
        cases hsome
      exact ExpiringMap.alive_put_of_ne _ _ _ _ hk
    · cases hs
  | release caller => exact absurd rfl (hm caller)
  | elapse time =>
    cases hs
    rfl

theorem Backed.acquire (h : Backed s) {caller : ι} {key : κ} {value : ν} {lapses : Int}
    (hs : step s (.acquire caller key value lapses) = some s') : Backed s' := by
  simp only [step] at hs
  split at hs
  · rename_i halive hidle
    cases hs
    have hself : ∀ i key' lapses', Function.update s.grants caller (some (key, lapses)) i =
        some (key', lapses') → (i = caller ∧ key' = key ∧ lapses' = lapses) ∨
          (i ≠ caller ∧ s.grants i = some (key', lapses')) := by
      intro i key' lapses' hi
      by_cases hic : i = caller
      · subst hic
        rw [Function.update_self, Option.some.injEq, Prod.mk.injEq] at hi
        exact Or.inl ⟨rfl, hi.1.symm, hi.2.symm⟩
      · rw [Function.update_of_ne hic] at hi
        exact Or.inr ⟨hic, hi⟩
    -- nobody else holds the key: its entry would still be live
    have hfree : ∀ i, ¬ Holds s i key := by
      intro i hi
      obtain ⟨e, he⟩ := h.alive_of_holds hi
      rw [halive] at he
      cases he
    refine ⟨?_, ?_, ?_⟩
    · intro key' e he
      rcases ExpiringMap.some_of_put he with ⟨rfl, rfl⟩ | hold
      · exact ⟨caller, lapses, Function.update_self .., rfl⟩
      · obtain ⟨i, lapses', hi, hexpires⟩ := h.owned key' e hold
        have hic : i ≠ caller := by
          rintro rfl
          rw [hidle] at hi
          cases hi
        exact ⟨i, lapses', (Function.update_of_ne hic _ _).trans hi, hexpires⟩
    · intro i key' lapses' hi hnow
      cases hself i key' lapses' hi with
      | inl heq =>
        obtain ⟨-, rfl, rfl⟩ := heq
        exact ⟨_, ExpiringMap.put_self .., rfl⟩
      | inr hold =>
        have hk : key' ≠ key := by
          rintro rfl
          exact hfree i ⟨lapses', hold.2, hnow⟩
        simp only [ExpiringMap.put_of_ne _ _ _ hk]
        exact h.stored i key' lapses' hold.2 hnow
    · rintro i j key' ⟨li, hi, hni⟩ ⟨lj, hj, hnj⟩
      cases hself i key' li hi with
      | inl hnewi =>
        obtain ⟨rfl, rfl, -⟩ := hnewi
        cases hself j key' lj hj with
        | inl hnewj => exact hnewj.1.symm
        | inr holdj => exact absurd ⟨lj, holdj.2, hnj⟩ (hfree j)
      | inr holdi =>
        cases hself j key' lj hj with
        | inl hnewj =>
          obtain ⟨-, rfl, -⟩ := hnewj
          exact absurd ⟨li, holdi.2, hni⟩ (hfree i)
        | inr holdj => exact h.exclusive i j key' ⟨li, holdi.2, hni⟩ ⟨lj, holdj.2, hnj⟩
  · cases hs

/-- The release of a caller that comes in time takes nobody's entry but its own. -/
theorem Backed.release (h : Backed s) {caller : ι} (htimely : ReleasesInTime s caller)
    (hs : step s (.release caller) = some s') : Backed s' := by
  simp only [step] at hs
  split at hs
  · cases hs
  · rename_i key lapses hgrant
    cases hs
    have hother : ∀ i key' lapses', Function.update s.grants caller none i =
        some (key', lapses') → i ≠ caller ∧ s.grants i = some (key', lapses') := by
      intro i key' lapses' hi
      have hic : i ≠ caller := by
        rintro rfl
        rw [Function.update_self] at hi
        cases hi
      rw [Function.update_of_ne hic] at hi
      exact ⟨hic, hi⟩
    refine ⟨?_, ?_, ?_⟩
    · intro key' e he
      obtain ⟨hk, hold⟩ := ExpiringMap.some_of_erase he
      obtain ⟨i, lapses', hi, hexpires⟩ := h.owned key' e hold
      have hic : i ≠ caller := by
        rintro rfl
        rw [hgrant, Option.some.injEq, Prod.mk.injEq] at hi
        exact hk hi.1.symm
      exact ⟨i, lapses', (Function.update_of_ne hic _ _).trans hi, hexpires⟩
    · intro i key' lapses' hi hnow
      obtain ⟨hic, hold⟩ := hother i key' lapses' hi
      have hk : key' ≠ key := by
        rintro rfl
        have hsteals : ¬ Steals s caller := fun hst => (h.steals_iff caller).mp hst htimely
        obtain ⟨e, halive⟩ := h.alive_of_holds ⟨lapses', hold, hnow⟩
        exact hsteals ⟨key', lapses, i, hgrant, hic, ⟨lapses', hold, hnow⟩, by rw [halive]; rfl⟩
      simp only [ExpiringMap.erase_of_ne _ hk]
      exact h.stored i key' lapses' hold hnow
    · rintro i j key' ⟨li, hi, hni⟩ ⟨lj, hj, hnj⟩
      exact h.exclusive i j key' ⟨li, (hother i key' li hi).2, hni⟩
        ⟨lj, (hother j key' lj hj).2, hnj⟩

theorem Backed.step (h : Backed s) {m : Move ι κ ν} (hg : Timely s m)
    (hs : step s m = some s') : Backed s' := by
  cases m with
  | acquire caller key value lapses => exact h.acquire hs
  | release caller => exact h.release hg hs
  | elapse time =>
    cases hs
    exact h.elapse time

/-- While every release comes in time, the locks exclude each other. -/
theorem backed_of_reaches {now : Int}
    (h : Transition.Reaches step Timely (State.initial now : State ι κ ν) s) : Backed s :=
  h.invariant Backed (backed_initial now) fun _ _ _ hinv hg hs => hinv.step hg hs

end Lease
