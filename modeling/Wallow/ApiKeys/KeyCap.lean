import Wallow.ApiKeys.Keys
import Wallow.Lib.Transition
import Mathlib.Data.List.Count

/-!
# The number of keys of one user

`ApiKeysController.CreateApiKey` counts the members of the user's set in the cache and creates the
key in a later step; the row is persisted before its id enters the set.  The rows and the set drift
apart when keys expire, when the cache is flushed, and while calls are under way.
-/

namespace Wallow.ApiKeys

open Transition

/-- Where a creation stands. -/
inductive CreationStage
  | start
  /-- The count was below the maximum; the row is next. -/
  | admitted
  | caching (row : ApiKey)
  | listing (row : ApiKey)
  | cachingById (row : ApiKey)
  /-- Refused for the cap, with the number of live keys there were. -/
  | refused (live : Nat)
  | finished (success : Bool)
  deriving DecidableEq

/-- The user's rows and set, the creations, and the revocations between their row and the set. -/
structure UserKeys where
  rows : List ApiKey
  userSet : List Uuid
  now : Instant
  creations : List CreationStage
  unlisting : List Uuid

inductive KeysMove
  | createApiKey
  /-- `GetApiKeyCountAsync`, which counts none when Redis fails. -/
  | count (i : Nat) (redisFails : Bool)
  | add (i : Nat) (id tenantId : Uuid) (name hashedKey : String) (scopes : List String)
      (expiresAt : Option Instant)
  /-- The next call of the cache. -/
  | act (i : Nat)
  | fail (i : Nat)
  /-- `RevokeApiKeyAsync` has revoked the row, or found it revoked. -/
  | revokeRow (id : Uuid)
  | removeFromSet (j : Nat)
  | failRevoke (j : Nat)
  | flush
  | tick (ticks : Nat)

namespace UserKeys

def initial (now : Instant) : UserKeys := ⟨[], [], now, [], []⟩

/-- Neither revoked nor expired. -/
def isLive (now : Instant) (row : ApiKey) : Bool :=
  !row.isRevoked && !isExpired row.expiresAt now

def live (s : UserKeys) : Nat :=
  s.rows.countP (isLive s.now)

/-- The creations that were admitted and have not inserted their row. -/
def underWay (s : UserKeys) : Nat :=
  s.creations.countP (· = .admitted)

def counted (s : UserKeys) (redisFails : Bool) : Nat :=
  if redisFails then 0 else s.userSet.length

def enter (s : UserKeys) (i : Nat) (stage : CreationStage) : UserKeys :=
  { s with creations := s.creations.set i stage }

variable (maxPerUser : Nat) (userId : Uuid)

def count (s : UserKeys) (i : Nat) (redisFails : Bool) : CreationStage → Option UserKeys
  | .start =>
    -- the controller's check, a step of its own before the creation
    some (s.enter i (if s.counted redisFails ≥ maxPerUser then .refused s.live else .admitted))
  | _ => none

def add (s : UserKeys) (i : Nat) (id tenantId : Uuid) (name hashedKey : String)
    (scopes : List String) (expiresAt : Option Instant) : CreationStage → Option UserKeys
  | .admitted =>
    if creatable name then
      let row := ApiKey.create id tenantId userId hashedKey name scopes expiresAt s.now
      -- the row is saved first; its id enters the set some calls later
      some ({ s with rows := s.rows ++ [row] }.enter i (.caching row))
    else some (s.enter i (.finished false))
  | _ => none

def act (s : UserKeys) (i : Nat) : CreationStage → Option UserKeys
  | .caching row =>
    -- a key whose expiry has come leaves no lifetime to set, and the row stays
    some (s.enter i (if settable row.expiresAt s.now then .listing row else .finished false))
  | .listing row =>
    some ({ s with
      userSet := if row.id ∈ s.userSet then s.userSet else s.userSet ++ [row.id] }.enter i
        (.cachingById row))
  | .cachingById row => some (s.enter i (.finished (settable row.expiresAt s.now)))
  | _ => none

def fail (s : UserKeys) (i : Nat) : CreationStage → Option UserKeys
  | .refused _ | .finished _ => none
  | _ => some (s.enter i (.finished false))

def revokeRow (s : UserKeys) (id : Uuid) : UserKeys :=
  { s with
    rows := s.rows.map fun row => if row.id = id then { row with isRevoked := true } else row
    unlisting := s.unlisting ++ [id] }

def step (s : UserKeys) : KeysMove → Option UserKeys
  | .createApiKey => some { s with creations := s.creations ++ [.start] }
  | .count i redisFails => s.creations[i]?.bind (s.count maxPerUser i redisFails)
  | .add i id tenantId name hashedKey scopes expiresAt =>
    s.creations[i]?.bind (s.add userId i id tenantId name hashedKey scopes expiresAt)
  | .act i => s.creations[i]?.bind (s.act i)
  | .fail i => s.creations[i]?.bind (s.fail i)
  | .revokeRow id => if s.rows.any (·.id = id) then some (s.revokeRow id) else none
  | .removeFromSet j => s.unlisting[j]?.map fun id =>
      { s with userSet := s.userSet.filter (· ≠ id), unlisting := s.unlisting.eraseIdx j }
  | .failRevoke j => some { s with unlisting := s.unlisting.eraseIdx j }
  | .flush => some { s with userSet := [] }
  | .tick ticks => some { s with now := s.now + ticks }

/-- No more live keys than the maximum, and no creation refused while there were fewer. -/
structure Capped (s : UserKeys) : Prop where
  most : s.live ≤ maxPerUser
  refusals : ∀ live, CreationStage.refused live ∈ s.creations → maxPerUser ≤ live

/-- What is counted reaches the maximum exactly when the live keys do; otherwise the live keys and
the creations under way are fewer together. -/
def countsRight (s : UserKeys) : KeysMove → Bool
  | .count _ redisFails =>
    decide (s.counted redisFails ≥ maxPerUser) == decide (s.live ≥ maxPerUser) &&
      (decide (s.counted redisFails ≥ maxPerUser) || decide (s.live + s.underWay < maxPerUser))
  | _ => true

/-! ## The invariant -/

/-- The live keys and the creations under way stay within the maximum. -/
structure Sound (s : UserKeys) : Prop where
  most : s.live + s.underWay ≤ maxPerUser
  refusals : ∀ live, CreationStage.refused live ∈ s.creations → maxPerUser ≤ live

variable {maxPerUser userId} {s s' : UserKeys} {i : Nat} {stage old : CreationStage}

theorem underWay_enter (stage : CreationStage) (hi : s.creations[i]? = some old) :
    (s.enter i stage).underWay + (if old = .admitted then 1 else 0) =
      s.underWay + (if stage = .admitted then 1 else 0) := by
  obtain ⟨hlt, hget⟩ := List.getElem?_eq_some_iff.mp hi
  show (s.creations.set i stage).countP _ + _ = _
  rw [List.countP_set hlt, hget, underWay]
  by_cases hold : old = .admitted
  -- an admitted creation is among those counted
  · have hpos : 0 < s.creations.countP (· = .admitted) :=
      List.countP_pos_iff.mpr ⟨old, List.mem_of_getElem? hi, decide_eq_true hold⟩
    simp only [hold, decide_true, if_true, decide_eq_true_eq]
    omega
  · simp only [hold, decide_false, Bool.false_eq_true, if_false, decide_eq_true_eq]
    omega

/-- A creation moves; it may give up its admission, and is refused only at the maximum. -/
theorem Sound.enter (h : s.Sound maxPerUser) (stage : CreationStage)
    (hi : s.creations[i]? = some old) (hstage : stage ≠ .admitted)
    (hrefused : ∀ live, stage = .refused live → maxPerUser ≤ live) :
    (s.enter i stage).Sound maxPerUser where
  most := by
    have hcount := underWay_enter stage hi
    have hlive : (s.enter i stage).live = s.live := rfl
    have hmost : s.live + s.underWay ≤ maxPerUser := h.most
    rw [if_neg hstage] at hcount
    omega
  refusals live hmem := by
    cases List.mem_or_eq_of_mem_set hmem with
    | inl hold => exact h.refusals live hold
    | inr heq => exact hrefused live heq.symm

/-- The creations stand as they did and no key has come to life. -/
theorem Sound.fewer (h : s.Sound maxPerUser) (hcreations : s'.creations = s.creations)
    (hlive : s'.live ≤ s.live) : s'.Sound maxPerUser where
  most := by
    have hsame : s'.underWay = s.underWay := by rw [underWay, hcreations, underWay]
    rw [hsame]
    exact Nat.le_trans (Nat.add_le_add_right hlive s.underWay) h.most
  refusals := by
    rw [hcreations]
    exact h.refusals

theorem isLive_later {row : ApiKey} {now later : Instant} (hle : now ≤ later)
    (h : isLive later row = true) : isLive now row = true := by
  unfold isLive isExpired at h ⊢
  rw [Bool.and_eq_true] at h ⊢
  refine ⟨h.1, ?_⟩
  cases hexpires : row.expiresAt with
  | none => rfl
  | some at_ =>
    have hlive := h.2
    rw [hexpires] at hlive
    simp only [Option.any_some, Bool.not_eq_true', decide_eq_false_iff_not] at hlive ⊢
    exact fun hlt => hlive (Nat.lt_of_lt_of_le hlt hle)

theorem live_tick (s : UserKeys) (ticks : Nat) :
    ({ s with now := s.now + ticks } : UserKeys).live ≤ s.live := by
  apply List.countP_mono_left
  intro row _ hlive
  exact isLive_later (Nat.le_add_right s.now ticks) hlive

theorem live_revokeRow (s : UserKeys) (id : Uuid) : (s.revokeRow id).live ≤ s.live := by
  show (s.rows.map _).countP (isLive s.now) ≤ s.rows.countP (isLive s.now)
  rw [List.countP_map]
  apply List.countP_mono_left
  intro row _ hlive
  by_cases hid : row.id = id
  · -- a revoked row is not live
    simp only [Function.comp, if_pos hid, isLive, Bool.not_true, Bool.false_and] at hlive
    cases hlive
  · simp only [Function.comp, if_neg hid] at hlive
    exact hlive

theorem live_append (s : UserKeys) (row : ApiKey) :
    ({ s with rows := s.rows ++ [row] } : UserKeys).live ≤ s.live + 1 := by
  show (s.rows ++ [row]).countP (isLive s.now) ≤ s.rows.countP (isLive s.now) + 1
  rw [List.countP_append]
  have hone : [row].countP (isLive s.now) ≤ 1 := List.countP_le_length
  omega

theorem Sound.count (h : s.Sound maxPerUser) (hi : s.creations[i]? = some old) {redisFails : Bool}
    (hright : s.countsRight maxPerUser (.count i redisFails) = true)
    (hs : s.count maxPerUser i redisFails old = some s') : s'.Sound maxPerUser := by
  cases old with
  | start =>
    simp only [UserKeys.count, Option.some.injEq] at hs
    simp only [countsRight, Bool.and_eq_true, beq_iff_eq, Bool.or_eq_true, decide_eq_true_eq,
      decide_eq_decide] at hright
    by_cases hfull : s.counted redisFails ≥ maxPerUser
    · rw [if_pos hfull] at hs
      subst hs
      refine h.enter _ hi (by simp) fun live hlive => ?_
      cases hlive
      -- the set is full, and so are the live keys
      exact hright.1.mp hfull
    · rw [if_neg hfull] at hs
      subst hs
      -- the admitted creation takes one of the places that are left
      have hroom : s.live + s.underWay < maxPerUser := hright.2.resolve_left hfull
      have hcount := underWay_enter .admitted hi
      rw [if_neg (by simp : CreationStage.start ≠ .admitted), if_pos rfl] at hcount
      refine ⟨?_, fun live hmem => ?_⟩
      · have hlive : (s.enter i .admitted).live = s.live := rfl
        omega
      · cases List.mem_or_eq_of_mem_set hmem with
        | inl hold => exact h.refusals live hold
        | inr heq => cases heq
  | _ => cases hs

/-- The row of an admitted creation takes the place kept for it. -/
theorem Sound.add (h : s.Sound maxPerUser) (hi : s.creations[i]? = some old) {id tenantId : Uuid}
    {name hashedKey : String} {scopes : List String} {expiresAt : Option Instant}
    (hs : s.add userId i id tenantId name hashedKey scopes expiresAt old = some s') :
    s'.Sound maxPerUser := by
  cases old with
  | admitted =>
    simp only [UserKeys.add] at hs
    split at hs
    · rw [Option.some.injEq] at hs
      subst hs
      generalize ApiKey.create id tenantId userId hashedKey name scopes expiresAt s.now = row
      have hcount := underWay_enter (.caching row) hi
      have hlive := live_append s row
      have hmost : s.live + s.underWay ≤ maxPerUser := h.most
      rw [if_pos rfl, if_neg (by simp : CreationStage.caching row ≠ .admitted)] at hcount
      refine ⟨?_, fun live hmem => ?_⟩
      · change ({ s with rows := s.rows ++ [row] } : UserKeys).live +
          (s.enter i (.caching row)).underWay ≤ maxPerUser
        omega
      · cases List.mem_or_eq_of_mem_set hmem with
        | inl hold => exact h.refusals live hold
        | inr heq => cases heq
    · rw [Option.some.injEq] at hs
      subst hs
      exact h.enter _ hi (by simp) fun live hlive => by cases hlive
  | _ => cases hs

theorem Sound.act (h : s.Sound maxPerUser) (hi : s.creations[i]? = some old)
    (hs : s.act i old = some s') : s'.Sound maxPerUser := by
  cases old with
  | caching row =>
    simp only [UserKeys.act, Option.some.injEq] at hs
    subst hs
    apply h.enter _ hi
    · split <;> simp
    · intro live hlive
      split at hlive <;> cases hlive
  | listing row =>
    simp only [UserKeys.act, Option.some.injEq] at hs
    subst hs
    exact (h.enter (.cachingById row) hi (by simp) fun live hlive => by cases hlive).fewer rfl
      (Nat.le_refl _)
  | cachingById row =>
    simp only [UserKeys.act, Option.some.injEq] at hs
    subst hs
    exact h.enter _ hi (by simp) fun live hlive => by cases hlive
  | _ => cases hs

theorem Sound.fail (h : s.Sound maxPerUser) (hi : s.creations[i]? = some old)
    (hs : s.fail i old = some s') : s'.Sound maxPerUser := by
  have hfinished : (s.enter i (.finished false)).Sound maxPerUser :=
    h.enter _ hi (by simp) fun live hlive => by cases hlive
  cases old with
  | refused live | finished success => cases hs
  | _ => exact Option.some.inj hs ▸ hfinished

/-! ## Runs -/

theorem step_sound {m : KeysMove} (h : s.Sound maxPerUser)
    (hright : s.countsRight maxPerUser m = true) (hs : step maxPerUser userId s m = some s') :
    s'.Sound maxPerUser := by
  cases m with
  | createApiKey =>
    cases hs
    have hsame : ({ s with creations := s.creations ++ [.start] } : UserKeys).underWay =
        s.underWay := by
      show (s.creations ++ [CreationStage.start]).countP _ = s.creations.countP _
      rw [List.countP_append]
      rfl
    refine ⟨hsame ▸ h.most, fun live hmem => ?_⟩
    cases List.mem_append.mp hmem with
    | inl hold => exact h.refusals live hold
    | inr hnew =>
      rw [List.mem_singleton] at hnew
      cases hnew
  | count i redisFails =>
    obtain ⟨old, hi, hcount⟩ := Option.bind_eq_some_iff.mp hs
    exact h.count hi hright hcount
  | add i id tenantId name hashedKey scopes expiresAt =>
    obtain ⟨old, hi, hadd⟩ := Option.bind_eq_some_iff.mp hs
    exact h.add hi hadd
  | act i =>
    obtain ⟨old, hi, hact⟩ := Option.bind_eq_some_iff.mp hs
    exact h.act hi hact
  | fail i =>
    obtain ⟨old, hi, hfail⟩ := Option.bind_eq_some_iff.mp hs
    exact h.fail hi hfail
  | revokeRow id =>
    simp only [step, Option.ite_none_right_eq_some, Option.some.injEq] at hs
    exact hs.2 ▸ h.fewer rfl (live_revokeRow s id)
  | removeFromSet j =>
    obtain ⟨id, -, rfl⟩ := Option.map_eq_some_iff.mp hs
    exact h.fewer rfl (Nat.le_refl _)
  | failRevoke j =>
    cases hs
    exact h.fewer rfl (Nat.le_refl _)
  | flush =>
    cases hs
    exact h.fewer rfl (Nat.le_refl _)
  | tick ticks =>
    cases hs
    exact h.fewer rfl (live_tick s ticks)

theorem initial_sound (now : Instant) : (initial now).Sound maxPerUser where
  most := Nat.zero_le _
  refusals live hmem := by cases hmem

/-- In every run whose counts are right, the user never has more live keys than the maximum, and a
creation is refused for the cap only when there are that many. -/
theorem keys_capped (maxPerUser : Nat) (userId : Uuid) (now : Instant) (s : UserKeys)
    (h : Reaches (step maxPerUser userId) (fun s m => s.countsRight maxPerUser m = true)
      (initial now) s) : s.Capped maxPerUser := by
  have hsound : s.Sound maxPerUser := h.invariant (Sound maxPerUser) (initial_sound now)
    fun _ _ _ ha hg hs => step_sound ha hg hs
  exact ⟨Nat.le_trans (Nat.le_add_right _ _) hsound.most, hsound.refusals⟩

/-- One creation from its count to its end. -/
def created (i : Nat) (id : Uuid) (expiresAt : Option Instant) : List KeysMove :=
  [.createApiKey, .count i false, .add i id 7 "ci" "hash" [] expiresAt, .act i, .act i, .act i]

/-- At a maximum of one, a key is created, the next creation refused, the key revoked, and another
created. -/
def replacedKey : List KeysMove :=
  created 0 1 none ++ [.createApiKey, .count 1 false, .revokeRow 1, .removeFromSet 0] ++
    created 2 2 none

theorem keys_capped_replaced : ∃ s : UserKeys,
    s.live = 1 ∧ CreationStage.refused 1 ∈ s.creations ∧ s.Capped 1 := by
  have hrun : (run (step 1 5) (countsRight 1) (initial 0) replacedKey).any
      (fun s => s.live = 1 && CreationStage.refused 1 ∈ s.creations) = true := by
    decide +kernel
  obtain ⟨s, hreach, hlast⟩ := exists_reaches_of_run (fun _ _ hm => hm) hrun
  rw [Bool.and_eq_true, decide_eq_true_eq, decide_eq_true_eq] at hlast
  exact ⟨s, hlast.1, hlast.2, keys_capped 1 5 0 s hreach⟩

/-- Two creations count before either inserts its row. -/
def countedTwice : List KeysMove :=
  [.createApiKey, .createApiKey, .count 0 false, .count 1 false, .add 0 1 7 "ci" "first" [] none,
    .add 1 2 7 "cd" "second" [] none]

/-- A key expires and stays in the set. -/
def countedExpired : List KeysMove :=
  created 0 1 (some 10000000) ++ [.tick 10000001, .createApiKey, .count 1 false]

theorem keys_exceed_and_refuse :
    (∃ s, follow (step 1 5) (initial 0) countedTwice = some s ∧ 1 < s.live) ∧
      ∃ s, follow (step 1 5) (initial 0) countedExpired = some s ∧
        CreationStage.refused 0 ∈ s.creations := by
  have htwice : (follow (step 1 5) (initial 0) countedTwice).any (fun s => 1 < s.live) = true := by
    decide +kernel
  have hexpired : (follow (step 1 5) (initial 0) countedExpired).any
      (fun s => CreationStage.refused 0 ∈ s.creations) = true := by
    decide +kernel
  obtain ⟨s, hs, hlive⟩ := (Option.any_eq_true _ _).mp htwice
  obtain ⟨u, hu, hrefused⟩ := (Option.any_eq_true _ _).mp hexpired
  exact ⟨⟨s, hs, of_decide_eq_true hlive⟩, u, hu, of_decide_eq_true hrefused⟩

end UserKeys

end Wallow.ApiKeys
