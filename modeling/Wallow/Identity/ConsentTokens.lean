import Wallow.Lib.HybridCache
import Wallow.Primitives

/-!
# Consent tokens

`ConsentTokenService.cs`: a protected payload with an expiry, redeemed by the caller whose cache
factory runs.  The cache is a `HybridCache` of the token ids, over all replicas.
-/

namespace Wallow.Identity

open Transition

structure ConsentPayload where
  id : Guid
  userId : String
  requestFingerprint : String
  deriving DecidableEq

inductive ConsentTokenOutcome
  | redeemed
  | missing
  | invalid
  | mismatched
  | replayed
  deriving DecidableEq

def ConsentTokenService.LIFETIME : Int := 10 * 60 * TICKS_PER_SECOND

/-- The time-limited protector over serialized payloads: a protected text carries its payload and
the instant it expires at. -/
structure ConsentProtector (τ : Type) where
  protect : ConsentPayload → Int → τ
  /-- `none` for a text that is not protected, or holds no payload. -/
  open_ : τ → Option (ConsentPayload × Int)
  open_protect : ∀ payload expiresAt, open_ (protect payload expiresAt) = some (payload, expiresAt)

namespace ConsentTokenService

variable {τ : Type}

/-- `Issue`, with the id it draws; `none` is the `ArgumentException`. -/
def issue (protector : ConsentProtector τ) (now : Int) (id : Guid)
    (userId requestFingerprint : String) : Option τ :=
  if userId = "" ∨ requestFingerprint = "" then none
  else some (protector.protect ⟨id, userId, requestFingerprint⟩ (now + LIFETIME))

def unprotect (protector : ConsentProtector τ) (now : Int) (token : τ) : Option ConsentPayload :=
  (protector.open_ token).bind fun (payload, expiresAt) =>
    if expiresAt < now then none else some payload

/-- `RedeemAsync` before the cache: the outcome, or the id that is looked up.  A null token and an
empty one are `none`. -/
def check (protector : ConsentProtector τ) (now : Int) (token : Option τ)
    (userId requestFingerprint : String) : Except ConsentTokenOutcome Guid :=
  match token with
  | none => .error .missing
  | some token =>
    match unprotect protector now token with
    | none => .error .invalid
    | some payload =>
      if payload.userId ≠ userId ∨ payload.requestFingerprint ≠ requestFingerprint then
        .error .mismatched
      else .ok payload.id

/-- The caches of all replicas, and the outcomes that were decided before them. -/
structure State where
  cache : HybridCache.State Guid
  refused : List ConsentTokenOutcome

def initial : State := ⟨HybridCache.initial, []⟩

/-- The calls the cache answered, by token id. -/
def State.outcomes (s : State) : List (Guid × ConsentTokenOutcome) :=
  s.cache.answers.map fun (id, factoryRan) => (id, if factoryRan then .redeemed else .replayed)

inductive Move (τ : Type)
  | redeem (replica : Nat) (token : Option τ) (userId requestFingerprint : String)
  | cache (move : HybridCache.Move Guid)

def step (protector : ConsentProtector τ) (s : State) : Move τ → Option State
  | .redeem replica token userId requestFingerprint =>
    match check protector s.cache.now token userId requestFingerprint with
    | .error outcome => some { s with refused := outcome :: s.refused }
    | .ok id => some { s with cache := s.cache.call replica id }
  -- the cache is only called to redeem
  | .cache (.call _ _) => none
  | .cache move =>
    (HybridCache.step LIFETIME s.cache move).map fun cache => { s with cache := cache }

def firstRedemption (s : State) : Move τ → Bool
  | .redeem _ _ _ _ => true
  | .cache move => HybridCache.firstLook s.cache move

variable {protector : ConsentProtector τ} {s s' : State}

/-- A step is one of the cache, or leaves the cache alone. -/
theorem step_cache {move : Move τ} (hs : step protector s move = some s') :
    (∃ inner, HybridCache.step LIFETIME s.cache inner = some s'.cache ∧
      HybridCache.firstLook s.cache inner = firstRedemption s move) ∨
    (s'.cache = s.cache ∧ firstRedemption s move = true) := by
  cases move with
  | redeem replica token userId requestFingerprint =>
    rw [step] at hs
    cases hcheck : check protector s.cache.now token userId requestFingerprint with
    | error outcome =>
      rw [hcheck] at hs
      cases hs
      exact .inr ⟨rfl, rfl⟩
    | ok id =>
      rw [hcheck] at hs
      cases hs
      exact .inl ⟨.call replica id, rfl, rfl⟩
  | cache move =>
    cases move with
    | call replica id => cases hs
    | _ =>
      rw [step, Option.map_eq_some_iff] at hs
      · obtain ⟨cache, hcache, rfl⟩ := hs
        exact .inl ⟨_, hcache, rfl⟩
      · exact fun _ _ h => by cases h

theorem coherent_step {move : Move τ} (h : HybridCache.Coherent s.cache)
    (hs : step protector s move = some s') : HybridCache.Coherent s'.cache := by
  rcases step_cache hs with ⟨inner, hinner, -⟩ | ⟨hsame, -⟩
  · exact h.step hinner
  · rw [hsame]
    exact h

theorem nodup_step_iff {move : Move τ} (h : HybridCache.Coherent s.cache)
    (hs : step protector s move = some s') :
    s'.cache.created.Nodup ↔ s.cache.created.Nodup ∧ firstRedemption s move = true := by
  rcases step_cache hs with ⟨inner, hinner, hcheck⟩ | ⟨hsame, hcheck⟩
  · rw [← hcheck]
    exact HybridCache.nodup_step_iff h hinner
  · rw [hsame, hcheck]
    exact (and_iff_left rfl).symm

theorem unprotect_protect {now expiresAt : Int} {payload : ConsentPayload} :
    unprotect protector now (protector.protect payload expiresAt) =
      if expiresAt < now then none else some payload := by
  rw [unprotect, protector.open_protect]
  rfl

/-- A call for another user or another request never reaches the cache. -/
theorem check_of_other {issuedAt now : Int} {id : Guid} {userId requestFingerprint : String}
    {token : τ} (h : issue protector issuedAt id userId requestFingerprint = some token)
    {userId' requestFingerprint' : String}
    (hother : userId' ≠ userId ∨ requestFingerprint' ≠ requestFingerprint) :
    check protector now (some token) userId' requestFingerprint' =
      .error (if issuedAt + LIFETIME < now then .invalid else .mismatched) := by
  rw [issue, Option.ite_none_left_eq_some, Option.some.injEq] at h
  rw [← h.2, check, unprotect_protect]
  by_cases hlapsed : issuedAt + LIFETIME < now
  · rw [if_pos hlapsed, if_pos hlapsed]
  · rw [if_neg hlapsed, if_neg hlapsed]
    exact if_pos (hother.imp Ne.symm Ne.symm)

theorem mem_outcomes_redeemed {id : Guid} :
    (id, ConsentTokenOutcome.redeemed) ∈ s.outcomes ↔ id ∈ s.cache.creators := by
  unfold State.outcomes HybridCache.State.creators
  simp only [List.mem_map, List.mem_filterMap, Prod.exists]
  constructor
  · rintro ⟨key, ran, hmem, heq⟩
    cases ran with
    | true =>
      cases heq
      exact ⟨id, true, hmem, rfl⟩
    | false => cases heq
  · rintro ⟨key, ran, hmem, heq⟩
    cases ran with
    | true =>
      cases heq
      exact ⟨id, true, hmem, rfl⟩
    | false => cases heq

/-- After any run over any replicas: no token was redeemed twice exactly when every factory that ran
was the first to look; a factory's caller was answered `Redeemed`, or will be; and a call for
another user or another request leaves the caches alone. -/
theorem redeemed_once_iff (protector : ConsentProtector τ) {moves : List (Move τ)} {s : State}
    (h : follow (step protector) initial moves = some s) :
    (s.cache.created.Nodup ↔ run (step protector) firstRedemption initial moves = some s) ∧
    (s.cache.creators ++ s.cache.creating).Perm s.cache.created ∧
    (∀ id, (id, ConsentTokenOutcome.redeemed) ∈ s.outcomes ↔ id ∈ s.cache.creators) ∧
    ∀ issuedAt id userId requestFingerprint token,
      issue protector issuedAt id userId requestFingerprint = some token →
      ∀ replica userId' requestFingerprint',
        userId' ≠ userId ∨ requestFingerprint' ≠ requestFingerprint →
        step protector s (.redeem replica (some token) userId' requestFingerprint') =
          some { s with refused := (if issuedAt + LIFETIME < s.cache.now then .invalid
            else .mismatched) :: s.refused } := by
  have hinv : ∀ (a : State) l b, HybridCache.Coherent a.cache → step protector a l = some b →
      HybridCache.Coherent b.cache := fun _ _ _ ha hs => coherent_step ha hs
  have hnodup : ∀ (a : State) l b, HybridCache.Coherent a.cache → step protector a l = some b →
      (b.cache.created.Nodup ↔ a.cache.created.Nodup ∧ firstRedemption a l = true) :=
    fun _ _ _ ha hs => nodup_step_iff ha hs
  obtain ⟨hcoherent, hiff⟩ : HybridCache.Coherent s.cache ∧ (s.cache.created.Nodup ↔
      run (step protector) firstRedemption initial moves = some s) := by
    refine run_of_follow ?_ ?_ hinv hnodup h
    · exact HybridCache.coherent_initial
    · exact List.nodup_nil
  refine ⟨hiff, hcoherent.tally, fun id => mem_outcomes_redeemed, ?_⟩
  intro issuedAt id userId requestFingerprint token hissue
  intro replica userId' requestFingerprint' hother
  rw [step, check_of_other hissue hother]

/-- A protector that keeps what it protects as it is. -/
def plainProtector : ConsentProtector (ConsentPayload × Int) where
  protect payload expiresAt := (payload, expiresAt)
  open_ := some
  open_protect _ _ := rfl

/-- One token sent to two replicas, both of which look before either has written. -/
def twoReplicas : List (Move (ConsentPayload × Int)) :=
  let token := (issue plainProtector 0 7 "ann" "request")
  [.redeem 0 token "ann" "request", .redeem 1 token "ann" "request", .cache (.look 0),
    .cache (.look 1), .cache (.release 0), .cache (.release 0)]

theorem redeemed_once_iff_twoReplicas : ∃ s, follow (step plainProtector) initial twoReplicas =
    some s ∧ (s.cache.created.Nodup ↔
      run (step plainProtector) firstRedemption initial twoReplicas = some s) ∧
    (s.cache.creators ++ s.cache.creating).Perm s.cache.created := by
  have hsome : (follow (step plainProtector) initial twoReplicas).isSome = true := by
    decide +kernel
  obtain ⟨s, hs⟩ := Option.isSome_iff_exists.mp hsome
  obtain ⟨hiff, htally, -⟩ := redeemed_once_iff plainProtector hs
  exact ⟨s, hs, hiff, htally⟩

/-- One token is redeemed on two replicas. -/
theorem redeemed_on_two_replicas : ∃ s, Reachable (step plainProtector) initial s ∧
    s.outcomes.count (7, .redeemed) = 2 := by
  have hrun : (run (step plainProtector) (fun _ _ => true) initial twoReplicas).any (fun s =>
      decide (s.outcomes.count (7, .redeemed) = 2)) = true := by decide +kernel
  obtain ⟨s, hs, htwice⟩ := exists_reaches_of_run (fun _ _ _ => trivial) hrun
  exact ⟨s, hs, of_decide_eq_true htwice⟩

end ConsentTokenService

end Wallow.Identity
