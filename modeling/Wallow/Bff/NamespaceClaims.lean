import Wallow.Lib.Transition
import Wallow.Bff.Redis

/-!
# Claims of a key namespace

`ValkeySessionStore.claimNamespace`, cut at its store commands: up to two rounds of `SET NX` and
`GET`, and a plain `SET` that renews the marker when the standing owner is the claimant.  The plain
write would overwrite a rival if the marker could change hands between the two reads; it cannot,
as long as the marker does not expire under a claim.
-/

namespace Wallow.Bff.NamespaceClaims

open Transition

/-- Where a call stands; `second` tells the second `attemptClaim` from the first. -/
inductive Phase
  | contending (second : Bool)
  | reading (second : Bool)
  | renewing
  /-- `none` is the `null` the call returns; `epoch` counts the expirations before it. -/
  | returned (epoch : Nat) (rival : Option String)
  | threw
  deriving DecidableEq

structure Claim where
  owner : String
  ttlSeconds : Int
  phase : Phase
  deriving DecidableEq

def Claim.inProgress (claim : Claim) : Bool :=
  match claim.phase with
  | .contending _ | .reading _ | .renewing => true
  | .returned _ _ | .threw => false

/-- The store, its clock, the calls made so far, and how often the marker has expired. -/
structure State where
  keyPrefix : String
  store : ExpiringMap String String
  now : Int
  claims : List Claim
  epoch : Nat

inductive Move
  | claimNamespace (owner : String) (ttlSeconds : Int)
  | act (i : Nat)
  | fail (i : Nat)
  | tick (milliseconds : Nat)

namespace State

/-- No call has been made; the store may hold anything. -/
def initial (keyPrefix : String) (store : ExpiringMap String String) (now : Int) : State :=
  ⟨keyPrefix, store, now, [], 0⟩

def ownerKey (s : State) : String :=
  Key.owner.render s.keyPrefix

/-- The owner name stored, unless the marker has lapsed. -/
def marker (s : State) : Option String :=
  s.store.lookup s.now s.ownerKey

/-- `SET` of the marker with `EX`. -/
def write (s : State) (claim : Claim) : State :=
  { s with
    store := s.store.put s.ownerKey claim.owner
      (some (s.now + claim.ttlSeconds * MS_PER_SECOND)) }

def enter (s : State) (i : Nat) (claim : Claim) (phase : Phase) : State :=
  { s with claims := s.claims.set i { claim with phase := phase } }

/-- One command of `attemptClaim`; a marker gone between the two commands is contended for once
more, and the second time taken to be ours. -/
def act (s : State) (i : Nat) (claim : Claim) : Option State :=
  match claim.phase with
  | .contending second =>
    match s.marker with
    -- `SET NX` writes only where no marker stands
    | none => some ((s.write claim).enter i claim (.returned s.epoch none))
    | some _ => some (s.enter i claim (.reading second))
  | .reading second =>
    match s.marker with
    | none => some (s.enter i claim
        -- `CONTEND`; after the second round the call answers `null` without a write
        (if second then .returned s.epoch none else .contending true))
    | some standing => some (s.enter i claim
        (if standing = claim.owner then .renewing else .returned s.epoch (some standing)))
  -- no condition: whatever stands by now is overwritten
  | .renewing => some ((s.write claim).enter i claim (.returned s.epoch none))
  | .returned _ _ | .threw => none

def step (s : State) : Move → Option State
  | .claimNamespace owner ttlSeconds =>
    some { s with claims := s.claims ++ [⟨owner, ttlSeconds, .contending false⟩] }
  | .act i => s.claims[i]?.bind (s.act i)
  | .fail i => s.claims[i]?.bind fun claim =>
      -- a store command that throws ends the call
      if claim.inProgress then some (s.enter i claim .threw) else none
  | .tick milliseconds =>
    let later := { s with now := s.now + milliseconds }
    -- the marker expires when it was alive before and is not after
    if s.marker.isSome && later.marker.isNone then some { later with epoch := s.epoch + 1 }
    else some later

/-! ## What is asked of the calls -/

/-- The call claims the namespace for `owner`, or reports it. -/
def Settles (owner : String) (claim : Claim) : Option String → Prop
  | none => claim.owner = owner
  | some rival => rival = owner

/-- The calls that return between two expirations agree on one owner, which the marker names for
as long as it stands. -/
structure Agreed (s : State) : Prop where
  one : ∀ epoch, ∃ owner, ∀ claim ∈ s.claims, ∀ rival,
    claim.phase = .returned epoch rival → Settles owner claim rival
  stored : ∀ claim ∈ s.claims, ∀ rival, claim.phase = .returned s.epoch rival →
    ∃ owner, s.marker = some owner ∧ Settles owner claim rival

/-- The marker does not expire while a claim is in progress: not by the passing of time, and not
because it is written with an expiry that has come. -/
def outlivesClaims (s : State) : Move → Bool
  | .tick milliseconds =>
    !s.claims.any (·.inProgress) || s.marker.isNone ||
      ({ s with now := s.now + milliseconds } : State).marker.isSome
  | .act i =>
    match s.claims[i]? with
    | some claim =>
      match claim.phase with
      | .contending _ => s.marker.isSome || decide (0 < claim.ttlSeconds)
      | .renewing => decide (0 < claim.ttlSeconds)
      | _ => true
    | none => true
  | _ => true

/-! ## The invariant -/

/-- A call that has found a marker still has one to read, and one that renews renews its own. -/
def Stands (s : State) (claim : Claim) : Prop :=
  match claim.phase with
  | .reading _ => s.marker.isSome
  | .renewing => s.marker = some claim.owner
  | .returned epoch rival => epoch ≤ s.epoch ∧
      (epoch = s.epoch → ∃ owner, s.marker = some owner ∧ Settles owner claim rival)
  | .contending _ | .threw => True

structure Sound (s : State) : Prop where
  stands : ∀ claim ∈ s.claims, s.Stands claim
  past : ∀ epoch < s.epoch, ∃ owner, ∀ claim ∈ s.claims, ∀ rival,
    claim.phase = .returned epoch rival → Settles owner claim rival

variable {s : State} {i : Nat} {claim : Claim} {phase : Phase}

theorem initial_sound (keyPrefix : String) (store : ExpiringMap String String) (now : Int) :
    (initial keyPrefix store now).Sound where
  stands claim h := by cases h
  past epoch h := absurd h (Nat.not_lt_zero epoch)

/-- A marker written with time to run is the one read. -/
theorem marker_write (s : State) (claim : Claim) (h : 0 < claim.ttlSeconds) :
    (s.write claim).marker = some claim.owner := by
  apply ExpiringMap.lookup_eq_some_iff.mpr
  refine ⟨_, ExpiringMap.put_self .., ?_, rfl⟩
  show decide (s.now < s.now + claim.ttlSeconds * MS_PER_SECOND) = true
  rw [decide_eq_true_eq, MS_PER_SECOND]
  omega

/-- The calls stand as they did while the marker and the epoch are the same. -/
theorem Stands.congr {s' : State} (h : s.Stands claim) (hmarker : s'.marker = s.marker)
    (hepoch : s'.epoch = s.epoch) : s'.Stands claim := by
  unfold Stands at h ⊢
  rw [hmarker, hepoch]
  exact h

/-- A call moves under an unchanged marker. -/
theorem Sound.enter (h : s.Sound) (hstands : s.Stands { claim with phase := phase })
    (hpast : ∀ epoch rival, phase = .returned epoch rival → epoch = s.epoch) :
    (s.enter i claim phase).Sound where
  stands c hc := by
    cases List.mem_or_eq_of_mem_set hc with
    | inl hold => exact (h.stands c hold).congr rfl rfl
    | inr heq => exact heq ▸ hstands.congr rfl rfl
  past epoch hlt := by
    obtain ⟨owner, howner⟩ := h.past epoch hlt
    refine ⟨owner, fun c hc rival hphase => ?_⟩
    cases List.mem_or_eq_of_mem_set hc with
    | inl hold => exact howner c hold rival hphase
    | inr heq =>
      subst heq
      -- a return belongs to the present epoch, never to a past one
      have hnow : epoch = s.epoch := hpast epoch rival hphase
      change epoch < s.epoch at hlt
      omega

/-- A write of the marker where none stands, or by the owner it names. -/
theorem Sound.write (h : s.Sound) (httl : 0 < claim.ttlSeconds)
    (hmarker : s.marker = none ∨ s.marker = some claim.owner) : (s.write claim).Sound where
  stands c hc := by
    have hold : s.Stands c := h.stands c hc
    have hwritten : (s.write claim).marker = some claim.owner := marker_write s claim httl
    unfold Stands at hold ⊢
    rw [hwritten]
    cases hmarker with
    | inl hnone =>
      -- no call has read a marker, and none has returned since it expired
      rw [hnone] at hold
      cases hphase : c.phase with
      | reading second =>
        rw [hphase] at hold
        cases hold
      | renewing =>
        rw [hphase] at hold
        cases hold
      | returned epoch rival =>
        rw [hphase] at hold
        refine ⟨hold.1, fun heq => ?_⟩
        obtain ⟨owner, howner, -⟩ := hold.2 heq
        cases howner
      | contending second | threw => trivial
    | inr howner =>
      rw [howner] at hold
      exact hold
  past := h.past

theorem Sound.act (h : s.Sound) (hi : s.claims[i]? = some claim)
    (hlasts : s.outlivesClaims (.act i) = true) {s' : State} (hs : s.act i claim = some s') :
    s'.Sound := by
  have hstands : s.Stands claim := h.stands claim (List.mem_of_getElem? hi)
  simp only [outlivesClaims, hi] at hlasts
  cases hphase : claim.phase with
  | contending second =>
    simp only [State.act, hphase] at hs
    rw [hphase] at hlasts
    cases hm : s.marker with
    | none =>
      rw [hm] at hs hlasts
      cases hs
      -- `SET NX` succeeded: the marker is ours
      have httl : 0 < claim.ttlSeconds := of_decide_eq_true hlasts
      apply (h.write httl (Or.inl hm)).enter
      · exact ⟨Nat.le_refl _, fun _ => ⟨claim.owner, marker_write s claim httl, rfl⟩⟩
      · intro epoch rival heq
        cases heq
        rfl
    | some standing =>
      rw [hm] at hs
      cases hs
      apply h.enter
      · show s.marker.isSome = true
        rw [hm]
        rfl
      · intro epoch rival heq
        cases heq
  | reading second =>
    simp only [State.act, hphase] at hs
    cases hm : s.marker with
    | none =>
      -- the marker would have expired under the claim
      rw [Stands, hphase, hm] at hstands
      cases hstands
    | some standing =>
      rw [hm] at hs
      cases hs
      by_cases howner : standing = claim.owner
      · rw [if_pos howner]
        apply h.enter
        · show s.marker = some claim.owner
          rw [hm, howner]
        · intro epoch rival heq
          cases heq
      · rw [if_neg howner]
        apply h.enter
        · exact ⟨Nat.le_refl _, fun _ => ⟨standing, hm, rfl⟩⟩
        · intro epoch rival heq
          cases heq
          rfl
  | renewing =>
    simp only [State.act, hphase, Option.some.injEq] at hs
    subst hs
    rw [hphase] at hlasts
    rw [Stands, hphase] at hstands
    have httl : 0 < claim.ttlSeconds := of_decide_eq_true hlasts
    apply (h.write httl (Or.inr hstands)).enter
    · exact ⟨Nat.le_refl _, fun _ => ⟨claim.owner, marker_write s claim httl, rfl⟩⟩
    · intro epoch rival heq
      cases heq
      rfl
  | returned epoch rival | threw =>
    simp only [State.act, hphase] at hs
    cases hs

theorem Sound.begin (h : s.Sound) (owner : String) (ttlSeconds : Int) :
    ({ s with claims := s.claims ++ [⟨owner, ttlSeconds, .contending false⟩] } : State).Sound where
  stands c hc := by
    cases List.mem_append.mp hc with
    | inl hold => exact (h.stands c hold).congr rfl rfl
    | inr hnew =>
      rw [List.mem_singleton.mp hnew]
      trivial
  past epoch hlt := by
    obtain ⟨one, hone⟩ := h.past epoch hlt
    refine ⟨one, fun c hc rival hphase => ?_⟩
    cases List.mem_append.mp hc with
    | inl hold => exact hone c hold rival hphase
    | inr hnew =>
      rw [List.mem_singleton.mp hnew] at hphase
      cases hphase

/-- Time passes; the marker stands or nothing is under way. -/
theorem Sound.tick (h : s.Sound) {milliseconds : Nat}
    (hlasts : s.outlivesClaims (.tick milliseconds) = true) {s' : State}
    (hs : step s (.tick milliseconds) = some s') : s'.Sound := by
  have hle : s.now ≤ s.now + milliseconds := by omega
  simp only [step] at hs
  cases hm : s.marker with
  | none =>
    -- no marker now, none later
    have hlater : ({ s with now := s.now + milliseconds } : State).marker = none :=
      ExpiringMap.lookup_none_of_later hle hm
    rw [hm] at hs
    cases hs
    exact ⟨fun c hc => (h.stands c hc).congr (hlater.trans hm.symm) rfl, h.past⟩
  | some owner =>
    cases hl : ({ s with now := s.now + milliseconds } : State).marker with
    | some owner' =>
      -- what is alive later was alive before, with the same owner
      have hsame : s.marker = some owner' := ExpiringMap.lookup_of_later hle hl
      rw [hl, Option.isNone_some, Bool.and_false, if_neg Bool.false_ne_true] at hs
      cases hs
      exact ⟨fun c hc => (h.stands c hc).congr (hl.trans hsame.symm) rfl, h.past⟩
    | none =>
      rw [hm, hl] at hs
      cases hs
      -- it expires: every call has returned or thrown
      simp only [outlivesClaims, hm, hl, Option.isNone_some, Option.isSome_none, Bool.or_false,
        Bool.not_eq_true', List.any_eq_false] at hlasts
      refine ⟨fun c hc => ?_, fun epoch hlt => ?_⟩
      · have hdone := hlasts c hc
        have hold : s.Stands c := h.stands c hc
        unfold Claim.inProgress at hdone
        unfold Stands at hold ⊢
        cases hphase : c.phase with
        | returned epoch rival =>
          rw [hphase] at hold
          have hep : epoch ≤ s.epoch := hold.1
          refine ⟨Nat.le_succ_of_le hep, fun heq => ?_⟩
          change epoch = s.epoch + 1 at heq
          omega
        | threw => trivial
        | _ =>
          rw [hphase] at hdone
          exact absurd rfl hdone
      -- the epoch that ends keeps the owner its marker named
      · change epoch < s.epoch + 1 at hlt
        by_cases hep : epoch = s.epoch
        · refine ⟨owner, fun c hc rival hphase => ?_⟩
          have hold : s.Stands c := h.stands c hc
          rw [Stands, hphase, hm] at hold
          obtain ⟨o, ho, hsettles⟩ := hold.2 hep
          cases ho
          exact hsettles
        · exact h.past epoch (by omega)

theorem step_sound {m : Move} (h : s.Sound) (hlasts : s.outlivesClaims m = true) {s' : State}
    (hs : step s m = some s') : s'.Sound := by
  cases m with
  | claimNamespace owner ttlSeconds =>
    cases hs
    exact h.begin owner ttlSeconds
  | act i =>
    obtain ⟨claim, hi, hact⟩ := Option.bind_eq_some_iff.mp hs
    exact h.act hi hlasts hact
  | fail i =>
    obtain ⟨claim, hi, hfail⟩ := Option.bind_eq_some_iff.mp hs
    rw [Option.ite_none_right_eq_some, Option.some.injEq] at hfail
    rw [← hfail.2]
    exact h.enter trivial (fun epoch rival heq => by cases heq)
  | tick milliseconds => exact h.tick hlasts hs

theorem Sound.agreed (h : s.Sound) : s.Agreed where
  one epoch := by
    by_cases hlt : epoch < s.epoch
    · exact h.past epoch hlt
    · -- the present epoch's owner is in the marker; no call has returned in a later one
      refine ⟨s.marker.getD "", fun c hc rival hphase => ?_⟩
      have hold : s.Stands c := h.stands c hc
      rw [Stands, hphase] at hold
      obtain ⟨owner, howner, hsettles⟩ := hold.2 (by have hle := hold.1; omega)
      rw [howner]
      exact hsettles
  stored c hc rival hphase := by
    have hold : s.Stands c := h.stands c hc
    rw [Stands, hphase] at hold
    exact hold.2 rfl

/-- In every run in which the marker does not expire under a claim, the calls that return between
two expirations all name one owner, and it is the one stored. -/
theorem claims_agree (keyPrefix : String) (store : ExpiringMap String String) (now : Int)
    (s : State)
    (h : Reaches step (fun s m => s.outlivesClaims m = true) (initial keyPrefix store now) s) :
    s.Agreed := by
  have hsound : s.Sound := h.invariant Sound (initial_sound keyPrefix store now)
    fun _ _ _ ha hg hs => step_sound ha hg hs
  exact hsound.agreed

/-- Two owners contend for a free namespace, the first claims it again, it expires, and the second
takes it. -/
def contended : List Move :=
  [.claimNamespace "web" 60, .claimNamespace "example" 60, .act 0, .act 1, .act 1,
    .claimNamespace "web" 60, .act 2, .act 2, .act 2, .tick 60000,
    .claimNamespace "example" 60, .act 3]

theorem claims_agree_contended : ∃ s : State,
    s.claims.map (·.phase) = [.returned 0 none, .returned 0 (some "web"), .returned 0 none,
      .returned 1 none] ∧ s.marker = some "example" ∧ s.Agreed := by
  have hrun : (run step outlivesClaims (initial "wallow" .empty 0) contended).any
      (fun s => s.claims.map (·.phase) = [.returned 0 none, .returned 0 (some "web"),
        .returned 0 none, .returned 1 none] && s.marker = some "example") = true := by decide
  obtain ⟨s, hreach, hlast⟩ := exists_reaches_of_run (fun _ _ hm => hm) hrun
  rw [Bool.and_eq_true, decide_eq_true_eq, decide_eq_true_eq] at hlast
  exact ⟨s, hlast.1, hlast.2, claims_agree "wallow" .empty 0 s hreach⟩

end State

end Wallow.Bff.NamespaceClaims
