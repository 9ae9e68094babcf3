import Wallow.Lib.Transition
import Wallow.Identity.Passwordless
import Mathlib.Data.List.Perm.Basic

/-!
# Credentials under concurrent validations

Sends and validations with their Redis commands interleaved.  A validation reads its key, decides,
and deletes the key in a command of its own.
-/

namespace Wallow.Identity

open Transition

/-- A stored text by its key and the send that stored it. -/
abbrev Credential := PasswordlessKey × Nat

def AcceptedCredential.credential (accepted : AcceptedCredential) : Credential :=
  (accepted.key, accepted.stored.serial)

/-- The next command of a call under way. -/
inductive PasswordlessCall
  /-- The expiry of a window that has just begun. -/
  | expiring (send : PasswordlessSend)
  /-- The time to live, for the answer of a send over the limit. -/
  | throttled (send : PasswordlessSend)
  | storing (send : PasswordlessSend)
  | publishing (mail : PasswordlessMail)
  /-- The delete of a validation that has accepted what it read. -/
  | deleting (accepted : AcceptedCredential)
  deriving DecidableEq

def PasswordlessCall.deleting? : PasswordlessCall → Option Credential
  | .deleting accepted => some accepted.credential
  | _ => none

inductive PasswordlessAnswer
  | sent
  | rateLimited (wait : Int)
  | signedIn (credential : Credential) (email : String)
  | refused (error : ErrorCatalogEntry)
  deriving DecidableEq

def PasswordlessAnswer.signedIn? : PasswordlessAnswer → Option Credential
  | .signedIn credential _ => some credential
  | _ => none

/-- The service with its calls; `accepted` and `answers` have the latest first. -/
structure PasswordlessWorld where
  service : PasswordlessState
  now : Int
  calls : List PasswordlessCall
  /-- What validations accepted, once for each that did. -/
  accepted : List Credential
  answers : List PasswordlessAnswer

inductive PasswordlessMove
  | send (send : PasswordlessSend)
  | validate (validation : PasswordlessValidation)
  /-- The next command of a call; `found` is what `FindByEmailAsync` answers it. -/
  | resume (index : Nat) (found : Option Guid) (draw : CredentialDraw)
  | wait (until_ : Int)
  deriving DecidableEq

namespace PasswordlessWorld

def initial : PasswordlessWorld := ⟨.initial, 0, [], [], []⟩

/-- The credentials that were accepted and not deleted yet. -/
def deleting (s : PasswordlessWorld) : List Credential :=
  s.calls.filterMap PasswordlessCall.deleting?

/-- The credentials of the validations that answered with an address. -/
def signIns (s : PasswordlessWorld) : List Credential :=
  s.answers.filterMap PasswordlessAnswer.signedIn?

section Source

variable (options : PasswordlessOptions) (platform : Platform)

/-- After the counter: the send goes on, or is refused. -/
def counted (send : PasswordlessSend) (count : Int) : PasswordlessCall :=
  if count ≤ options.rateLimitMaxRequests then .storing send else .throttled send

def withRedis (s : PasswordlessWorld) (redis : PasswordlessRedis) : PasswordlessWorld :=
  { s with service := { s.service with redis := redis } }

def beginSend (send : PasswordlessSend) (s : PasswordlessWorld) : PasswordlessWorld :=
  let (count, redis) := s.service.redis.stringIncrement s.now (.rate send.email)
  let call := if count = 1 then .expiring send else counted options send count
  { s.withRedis redis with calls := call :: s.calls }

def beginValidation (validation : PasswordlessValidation) (s : PasswordlessWorld) :
    PasswordlessWorld :=
  match validation.read platform s.service.redis s.now with
  | .error error => { s with answers := .refused error :: s.answers }
  | .ok accepted =>
    { s with
      calls := .deleting accepted :: s.calls
      accepted := accepted.credential :: s.accepted }

/-- The next command of a call, which is among the calls no more. -/
def resumeCall (found : Option Guid) (draw : CredentialDraw) (call : PasswordlessCall)
    (s : PasswordlessWorld) : PasswordlessWorld :=
  match call with
  | .expiring send =>
    let redis := s.service.redis.keyExpire s.now (.rate send.email) options.rateLimitWindow
    { s.withRedis redis with calls := counted options send 1 :: s.calls }
  | .throttled send =>
    let wait := retryAfter s.service.redis s.now (.rate send.email) options.rateLimitWindow
    { s with answers := .rateLimited wait :: s.answers }
  | .storing send =>
    match found with
    | none => { s with answers := .sent :: s.answers }
    | some userId =>
      { s with
        service := { s.service with
          redis := send.store options draw s.service.redis s.now s.service.serial
          serial := s.service.serial + 1 }
        calls := .publishing (send.mail draw userId) :: s.calls }
  | .publishing mail =>
    { s with
      service := { s.service with mails := mail :: s.service.mails }
      answers := .sent :: s.answers }
  | .deleting accepted =>
    { s.withRedis (s.service.redis.keyDelete accepted.key) with
      answers := .signedIn accepted.credential accepted.email :: s.answers }

def step (s : PasswordlessWorld) : PasswordlessMove → Option PasswordlessWorld
  | .send send => some (beginSend options send s)
  | .validate validation => some (beginValidation platform validation s)
  | .resume index found draw =>
    (s.calls[index]?).map fun call =>
      resumeCall options found draw call { s with calls := s.calls.eraseIdx index }
  | .wait until_ => if s.now ≤ until_ then some { s with now := until_ } else none

/-- No validation reads a credential that another one has accepted and has yet to delete. -/
def unshared (s : PasswordlessWorld) : PasswordlessMove → Bool
  | .validate validation =>
    match validation.read platform s.service.redis s.now with
    | .error _ => true
    | .ok accepted => decide (accepted.credential ∉ s.deleting)
  | _ => true

end Source

/-! ## What is stored and accepted -/

/-- A credential is stored once, and one that was accepted is stored only until it is deleted. -/
structure Coherent (s : PasswordlessWorld) : Prop where
  stored_lt : ∀ key entry, s.service.redis.strings key = some entry →
    entry.value.serial < s.service.serial
  accepted_lt : ∀ credential ∈ s.accepted, credential.2 < s.service.serial
  accepted_deleting : ∀ credential ∈ s.accepted, ∀ entry,
    s.service.redis.strings credential.1 = some entry → entry.value.serial = credential.2 →
    credential ∈ s.deleting
  tally : (s.signIns ++ s.deleting).Perm s.accepted

theorem coherent_initial : Coherent initial where
  stored_lt _ _ h := by cases h
  accepted_lt _ h := absurd h List.not_mem_nil
  accepted_deleting _ h := absurd h List.not_mem_nil
  tally := List.Perm.nil

theorem Coherent.mem_accepted {s : PasswordlessWorld} (h : Coherent s) {credential : Credential}
    (hmem : credential ∈ s.deleting) : credential ∈ s.accepted :=
  h.tally.subset (List.mem_append_right _ hmem)

/-- A step that leaves texts, acceptances and sign-ins alone. -/
theorem Coherent.of_same {s s' : PasswordlessWorld} (h : Coherent s)
    (hstrings : s'.service.redis.strings = s.service.redis.strings)
    (hserial : s'.service.serial = s.service.serial) (haccepted : s'.accepted = s.accepted)
    (hdeleting : s'.deleting.Perm s.deleting) (hsignIns : s'.signIns = s.signIns) :
    Coherent s' where
  stored_lt key entry hentry := by
    rw [hstrings] at hentry
    rw [hserial]
    exact h.stored_lt key entry hentry
  accepted_lt credential hmem := by
    rw [haccepted] at hmem
    rw [hserial]
    exact h.accepted_lt credential hmem
  accepted_deleting credential hmem entry hentry hsame := by
    rw [haccepted] at hmem
    rw [hstrings] at hentry
    exact hdeleting.symm.subset (h.accepted_deleting credential hmem entry hentry hsame)
  tally := by
    rw [hsignIns, haccepted]
    exact (hdeleting.append_left s.signIns).trans h.tally

variable {options : PasswordlessOptions} {platform : Platform} {s : PasswordlessWorld}

theorem deleting?_counted (send : PasswordlessSend) (count : Int) :
    (counted options send count).deleting? = none := by
  unfold counted
  split <;> rfl

/-- The deletes to come are the resumed call's and those of the other calls. -/
theorem deleting_eraseIdx {index : Nat} {call : PasswordlessCall}
    (h : s.calls[index]? = some call) :
    s.deleting.Perm (call.deleting?.toList ++ ({ s with
      calls := s.calls.eraseIdx index } : PasswordlessWorld).deleting) := by
  obtain ⟨hlt, hcall⟩ := List.getElem?_eq_some_iff.mp h
  have hcalls : s.calls.Perm (call :: s.calls.eraseIdx index) := by
    rw [← hcall]
    exact (List.getElem_cons_eraseIdx_perm hlt).symm
  refine (hcalls.filterMap PasswordlessCall.deleting?).trans (List.Perm.of_eq ?_)
  rw [List.filterMap_cons]
  cases call.deleting? <;> rfl

theorem Coherent.beginSend (h : Coherent s) (send : PasswordlessSend) :
    Coherent (beginSend options send s) := by
  refine h.of_same ?_ rfl rfl (List.Perm.of_eq ?_) rfl
  · show (s.service.redis.stringIncrement s.now (.rate send.email)).2.strings = _
    unfold PasswordlessRedis.stringIncrement
    split <;> rfl
  · have hcall : ∀ count : Int, (if count = 1 then PasswordlessCall.expiring send
        else counted options send count).deleting? = none := by
      intro count
      split
      · rfl
      · exact deleting?_counted send count
    exact List.filterMap_cons_none (hcall _)

/-- What an accepting validation leaves, and what it found. -/
theorem beginValidation_ok {validation : PasswordlessValidation} {accepted : AcceptedCredential}
    (h : validation.read platform s.service.redis s.now = .ok accepted) :
    beginValidation platform validation s =
      { s with
        calls := .deleting accepted :: s.calls
        accepted := accepted.credential :: s.accepted } := by
  rw [beginValidation, h]

theorem beginValidation_error {validation : PasswordlessValidation} {error : ErrorCatalogEntry}
    (h : validation.read platform s.service.redis s.now = .error error) :
    beginValidation platform validation s =
      { s with answers := .refused error :: s.answers } := by
  rw [beginValidation, h]

theorem stored_of_read {validation : PasswordlessValidation} {accepted : AcceptedCredential}
    (h : validation.read platform s.service.redis s.now = .ok accepted) :
    ∃ entry, s.service.redis.strings accepted.key = some entry ∧
      entry.value.serial = accepted.stored.serial := by
  obtain ⟨entry, hentry, -, hvalue⟩ := ExpiringMap.lookup_eq_some_iff.mp
    (PasswordlessValidation.stringGet_of_read h)
  exact ⟨entry, hentry, by rw [hvalue]⟩

theorem Coherent.beginValidation (h : Coherent s) (validation : PasswordlessValidation) :
    Coherent (beginValidation platform validation s) := by
  cases hread : validation.read platform s.service.redis s.now with
  | error error =>
    rw [beginValidation_error hread]
    exact h.of_same rfl rfl rfl (List.Perm.refl _) rfl
  | ok accepted =>
    rw [beginValidation_ok hread]
    obtain ⟨entry, hentry, hserial⟩ := stored_of_read hread
    refine ⟨h.stored_lt, ?_, ?_, ?_⟩
    · intro credential hmem
      cases List.mem_cons.mp hmem with
      | inl heq =>
        rw [heq]
        show accepted.stored.serial < _
        rw [← hserial]
        exact h.stored_lt accepted.key entry hentry
      | inr hold => exact h.accepted_lt credential hold
    · intro credential hmem other hother hsame
      show credential ∈ accepted.credential :: s.deleting
      cases List.mem_cons.mp hmem with
      | inl heq => exact heq ▸ List.mem_cons_self
      | inr hold =>
        exact List.mem_cons_of_mem _ (h.accepted_deleting credential hold other hother hsame)
    · exact List.perm_middle.trans (h.tally.cons accepted.credential)

theorem Coherent.resume (h : Coherent s) {index : Nat} {call : PasswordlessCall}
    (hcall : s.calls[index]? = some call) (found : Option Guid) (draw : CredentialDraw) :
    Coherent (resumeCall options found draw call { s with calls := s.calls.eraseIdx index }) := by
  have hperm := deleting_eraseIdx hcall
  cases call with
  | expiring send =>
    refine h.of_same ?_ rfl rfl ?_ rfl
    · show (s.service.redis.keyExpire s.now (.rate send.email) options.rateLimitWindow).strings = _
      unfold PasswordlessRedis.keyExpire
      split <;> rfl
    · refine List.Perm.trans (List.Perm.of_eq ?_) hperm.symm
      exact List.filterMap_cons_none (deleting?_counted send 1)
  | throttled send => exact h.of_same rfl rfl rfl hperm.symm rfl
  | storing send =>
    cases found with
    | none => exact h.of_same rfl rfl rfl hperm.symm rfl
    | some userId =>
      -- the new entry has a number of its own, so it is no credential accepted before
      refine ⟨?_, ?_, ?_, ?_⟩
      · intro key entry hentry
        show entry.value.serial < s.service.serial + 1
        rcases strings_store hentry with ⟨-, hnew⟩ | hold
        · exact hnew ▸ Nat.lt_succ_self _
        · exact Nat.lt_succ_of_lt (h.stored_lt key entry hold)
      · exact fun credential hmem => Nat.lt_succ_of_lt (h.accepted_lt credential hmem)
      · intro credential hmem entry hentry hsame
        have hlt : credential.2 < s.service.serial := h.accepted_lt credential hmem
        rcases strings_store hentry with ⟨-, hnew⟩ | hold
        · exact absurd (hsame.symm.trans hnew) hlt.ne
        · exact hperm.subset (h.accepted_deleting credential hmem entry hold hsame)
      · exact (hperm.symm.append_left s.signIns).trans h.tally
  | publishing mail => exact h.of_same rfl rfl rfl hperm.symm rfl
  | deleting accepted =>
    refine ⟨?_, h.accepted_lt, ?_, ?_⟩
    · intro key entry hentry
      exact h.stored_lt key entry (ExpiringMap.some_of_erase hentry).2
    · intro credential hmem entry hentry hsame
      obtain ⟨hkey, hold⟩ := ExpiringMap.some_of_erase hentry
      -- the delete that was sent was another credential's
      have hbefore := hperm.subset (h.accepted_deleting credential hmem entry hold hsame)
      cases List.mem_cons.mp hbefore with
      | inl heq => exact absurd (congrArg Prod.fst heq) hkey
      | inr hrest => exact hrest
    · exact (List.perm_middle.symm.trans (hperm.symm.append_left s.signIns)).trans h.tally

theorem Coherent.step {s' : PasswordlessWorld} {move : PasswordlessMove} (h : Coherent s)
    (hs : step options platform s move = some s') : Coherent s' := by
  cases move with
  | send send =>
    cases hs
    exact h.beginSend send
  | validate validation =>
    cases hs
    exact h.beginValidation validation
  | resume index found draw =>
    obtain ⟨call, hcall, rfl⟩ := Option.map_eq_some_iff.mp hs
    exact h.resume hcall found draw
  | wait until_ =>
    rw [PasswordlessWorld.step, Option.ite_none_right_eq_some] at hs
    obtain ⟨-, hs⟩ := hs
    cases hs
    exact h.of_same rfl rfl rfl (List.Perm.refl _) rfl

/-! ## Single use -/

/-- A resumed call accepts nothing. -/
theorem accepted_resumeCall (found : Option Guid) (draw : CredentialDraw)
    (call : PasswordlessCall) :
    (resumeCall options found draw call s).accepted = s.accepted := by
  cases call with
  | storing send => cases found <;> rfl
  | _ => rfl

/-- A step keeps the acceptances apart exactly when no validation shares what it reads. -/
theorem nodup_step_iff {s' : PasswordlessWorld} {move : PasswordlessMove} (h : Coherent s)
    (hs : step options platform s move = some s') :
    s'.accepted.Nodup ↔ s.accepted.Nodup ∧ unshared platform s move = true := by
  cases move with
  | send send =>
    cases hs
    exact (and_iff_left rfl).symm
  | validate validation =>
    cases hs
    cases hread : validation.read platform s.service.redis s.now with
    | error error =>
      rw [beginValidation_error hread]
      simp only [unshared, hread, and_true]
    | ok accepted =>
      rw [beginValidation_ok hread]
      simp only [unshared, hread, decide_eq_true_iff]
      obtain ⟨entry, hentry, hserial⟩ := stored_of_read hread
      rw [List.nodup_cons, and_comm]
      -- what is still stored and was accepted is about to be deleted
      have hiff : accepted.credential ∈ s.accepted ↔ accepted.credential ∈ s.deleting :=
        ⟨fun hmem => h.accepted_deleting _ hmem entry hentry hserial, h.mem_accepted⟩
      rw [hiff]
  | resume index found draw =>
    obtain ⟨call, hcall, rfl⟩ := Option.map_eq_some_iff.mp hs
    rw [accepted_resumeCall]
    exact (and_iff_left rfl).symm
  | wait until_ =>
    rw [PasswordlessWorld.step, Option.ite_none_right_eq_some] at hs
    obtain ⟨-, hs⟩ := hs
    cases hs
    exact (and_iff_left rfl).symm

/-- After any run, no credential was accepted twice exactly when no validation read one that
another had accepted and not yet deleted; every acceptance is a sign-in, or will be. -/
theorem accepted_once_iff (options : PasswordlessOptions) (platform : Platform)
    {moves : List PasswordlessMove} {s : PasswordlessWorld}
    (h : follow (step options platform) initial moves = some s) :
    (s.accepted.Nodup ↔
      run (step options platform) (unshared platform) initial moves = some s) ∧
    (s.signIns ++ s.deleting).Perm s.accepted := by
  obtain ⟨hcoherent, hiff⟩ := run_of_follow (P := fun s => s.accepted.Nodup) coherent_initial
    List.nodup_nil (fun _ _ _ ha hs => ha.step hs) (fun _ _ _ ha hs => nodup_step_iff ha hs) h
  exact ⟨hiff, hcoherent.tally⟩

/-- A link and a code for one user, the link opened twice and the code entered twice. -/
def twiceOpened : List PasswordlessMove :=
  let draw : CredentialDraw := ⟨"raw", "CfDJ8raw", 4711⟩
  [.send ⟨.magicLink none none, "ann@example.com"⟩, .resume 0 none draw, .resume 0 (some 1) draw,
    .resume 0 none draw, .send ⟨.otp, "ann@example.com"⟩, .resume 0 (some 1) draw,
    .resume 0 none draw,
    .validate (.magicLink "raw.CfDJ8raw"), .validate (.magicLink "raw.CfDJ8raw"),
    .validate (.otp "ann@example.com" "004711"), .validate (.otp "ann@example.com" "004711"),
    .resume 0 none draw, .resume 0 none draw, .resume 0 none draw, .resume 0 none draw]

theorem accepted_once_iff_twiceOpened : ∃ s, follow (step {} samplePlatform) initial twiceOpened =
    some s ∧ (s.accepted.Nodup ↔
      run (step {} samplePlatform) (unshared samplePlatform) initial twiceOpened = some s) ∧
    (s.signIns ++ s.deleting).Perm s.accepted := by
  have hsome : (follow (step {} samplePlatform) initial twiceOpened).isSome = true := by
    decide +kernel
  obtain ⟨s, hs⟩ := Option.isSome_iff_exists.mp hsome
  exact ⟨s, hs, accepted_once_iff {} samplePlatform hs⟩

/-- One link signs in twice, and so does one code. -/
theorem link_and_code_sign_in_twice :
    ∃ s, Reachable (step {} samplePlatform) initial s ∧
      s.signIns.count (.magicLink "raw", 0) = 2 ∧
      s.signIns.count (.otp "ann@example.com", 1) = 2 := by
  have hrun : (run (step {} samplePlatform) (fun _ _ => true) initial twiceOpened).any (fun s =>
      decide (s.signIns.count (.magicLink "raw", 0) = 2 ∧
        s.signIns.count (.otp "ann@example.com", 1) = 2)) = true := by decide +kernel
  obtain ⟨s, hs, htwice⟩ := exists_reaches_of_run (fun _ _ _ => trivial) hrun
  exact ⟨s, hs, of_decide_eq_true htwice⟩

end PasswordlessWorld

end Wallow.Identity
