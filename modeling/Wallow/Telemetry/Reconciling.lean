import Wallow.Telemetry.Commits

/-!
# What a step can do, and what the runs know

Each step has one of eight effects.  A copy under its row's stamp is that row still, and what a run
is about to save differs from its copy in the bookkeeping only, under a stamp nobody else has.
-/

namespace Wallow.Telemetry

open Transition

/-! ## The effects of a step -/

/-- The registration a run has read. -/
def Reconcile.copy? : Reconcile → Option TelemetryRegistration
  | .idle => none
  | .read state => some state
  | .waiting state => some state
  | .saving original _ => some original

/-- `current` asks for what `original` asks for. -/
structure Bookkeeping (original current : TelemetryRegistration) : Prop where
  id : current.id = original.id
  clientId : current.clientId = original.clientId
  revision : current.revision = original.revision
  credentialId : current.credentialId = original.credentialId
  desired : current.desired = original.desired

/-- The columns that a body is made of are those the bookkeeping leaves alone. -/
theorem bookkeeping_of_columns {original current : TelemetryRegistration}
    (hid : current.id = original.id) (hclientId : current.clientId = original.clientId)
    (hrevision : current.revision = original.revision)
    (haccess : current.accessState = original.accessState)
    (hcredentialId : current.credentialId = original.credentialId)
    (hverifier : current.verifier = original.verifier)
    (hrotation : current.rotation = original.rotation) : Bookkeeping original current := by
  refine ⟨hid, hclientId, hrevision, hcredentialId, ?_⟩
  unfold TelemetryRegistration.desired
  rw [hclientId, hrevision, haccess, hcredentialId, hverifier, hrotation]

namespace Provisioning

variable {s s' : Provisioning}

/-- What a run may have learnt of the gateway: nothing, or that its revision is acknowledged. -/
def Learnt (s : Provisioning) (original current : TelemetryRegistration) : Prop :=
  current.acknowledgedRevision = original.acknowledgedRevision ∨
    (current.acknowledgedRevision = original.revision ∧
      ∃ answer ∈ s.answers, answer.registrationId = original.id ∧
        answer.revision = original.revision)

inductive Effect (s : Provisioning) : Provisioning → Prop
  | commit {id : Guid} {change : Change} {state : TelemetryRegistration} {guids : List Guid}
      (h : Commits s id change state guids) : Effect s (s.commit id change state guids)
  | read {run : Nat} {id : Guid} {state : TelemetryRegistration} (hidle : s.runs run = .idle)
      (hrow : s.rows id = some state) : Effect s (s.setRun run (.read state))
  | send {run : Nat} {state : TelemetryRegistration} (hread : s.runs run = .read state) :
      Effect s { s.setRun run (.waiting state) with sent := (state.id, state.desired) :: s.sent }
  | modify {run : Nat} {original current : TelemetryRegistration} {stamp : Guid}
      (hcopy : (s.runs run).copy? = some original) (hnew : s.newGuids [stamp] = true)
      (hsame : Bookkeeping original current) (hstamp : current.concurrencyStamp = stamp)
      (hlearnt : s.Learnt original current) : Effect s (s.modify run original current stamp)
  | deliver {id : Guid} {body : DesiredRegistration} {now ackNow : Nat}
      {answer : RegistrationAcknowledgement} {saved : RegistryDb} (hsent : (id, body) ∈ s.sent)
      (hput : put s.registry ⟨id, some body, now, ackNow⟩ = .ok (answer, saved)) :
      Effect s { s with registry := saved, answers := answer :: s.answers }
  | refuse : Effect s s
  | save {run : Nat} {original current state : TelemetryRegistration}
      (hsaving : s.runs run = .saving original current) (hrow : s.rows original.id = some state)
      (hstamp : state.concurrencyStamp = original.concurrencyStamp) :
      Effect s { s.setRun run .idle with
        rows := Function.update s.rows original.id (some current) }
  | discard {run : Nat} {original current : TelemetryRegistration}
      (hsaving : s.runs run = .saving original current) : Effect s (s.setRun run .idle)

section

variable {state : TelemetryRegistration} {answer : RegistrationAcknowledgement} {stamp : Guid}
  {now : Nat}

theorem bookkeeping_requireConfiguration :
    Bookkeeping state (state.requireConfiguration stamp now) :=
  bookkeeping_of_columns rfl rfl rfl rfl rfl rfl rfl

theorem bookkeeping_retry {permanent : Bool} :
    Bookkeeping state (state.retry permanent stamp now) :=
  bookkeeping_of_columns rfl rfl rfl rfl rfl rfl rfl

/-- What a run makes of an answer. -/
theorem learn_spec (hmem : answer ∈ s.answers) :
    Bookkeeping state (learn state answer stamp now) ∧
      (learn state answer stamp now).concurrencyStamp = stamp ∧
      s.Learnt state (learn state answer stamp now) := by
  unfold learn
  split
  · rename_i hmatches
    simp only [Bool.and_eq_true, decide_eq_true_eq] at hmatches
    unfold TelemetryRegistration.acknowledge
    rw [if_neg (not_not_intro hmatches.1.2)]
    exact ⟨bookkeeping_of_columns rfl rfl rfl rfl rfl rfl rfl, rfl,
      .inr ⟨rfl, answer, hmem, hmatches.1⟩⟩
  · exact ⟨bookkeeping_retry, rfl, .inl rfl⟩

end

/-- Case analysis of the step function. -/
theorem effect_of_step {sha256 : String → Digest} {action : Action} (h : s.Recorded)
    (hstep : step sha256 s action = some s') : Effect s s' := by
  cases action with
  | create client credential secret stamp unconfigured now =>
    simp only [step, Option.ite_none_right_eq_some, Option.some.injEq, Bool.and_eq_true,
      Option.isNone_iff_eq_none] at hstep
    obtain ⟨⟨hnone, hguids⟩, rfl⟩ := hstep
    exact .commit (commits_create h
      (isCredential_newTelemetryCredential sha256 credential secret) rfl hnone hguids)
  | rotate id credential secret rotationId stamp now =>
    obtain ⟨state, hrow, hrest⟩ := Option.bind_eq_some_iff.mp hstep
    rw [Option.ite_none_right_eq_some] at hrest
    obtain ⟨hguids, hrest⟩ := hrest
    cases hrotate : state.rotate (newTelemetryCredential sha256 credential secret) rotationId stamp
        now with
    | error e => simp only [hrotate, reduceCtorEq] at hrest
    | ok state' =>
      simp only [hrotate, Option.some.injEq] at hrest
      rw [← hrest]
      exact .commit (commits_rotate h
        (isCredential_newTelemetryCredential sha256 credential secret) rfl hrow hguids hrotate)
  | enable id credential secret stamp now =>
    obtain ⟨state, hrow, hrest⟩ := Option.bind_eq_some_iff.mp hstep
    rw [Option.ite_none_right_eq_some] at hrest
    obtain ⟨hguids, hrest⟩ := hrest
    cases henable : state.enable (newTelemetryCredential sha256 credential secret) stamp now with
    | error e => simp only [henable, reduceCtorEq] at hrest
    | ok state' =>
      simp only [henable, Option.some.injEq] at hrest
      rw [← hrest]
      exact .commit (commits_enable h
        (isCredential_newTelemetryCredential sha256 credential secret) rfl hrow hguids henable)
  | revoke id deleted stamp now =>
    obtain ⟨state, hrow, hrest⟩ := Option.bind_eq_some_iff.mp hstep
    rw [Option.ite_none_right_eq_some] at hrest
    obtain ⟨hguids, hrest⟩ := hrest
    obtain ⟨state', hrevoke, hcommit⟩ := Option.map_eq_some_iff.mp hrest
    rw [← hcommit]
    exact .commit (commits_revoke h hrow hguids hrevoke)
  | read run id =>
    simp only [step] at hstep
    split at hstep
    · rename_i hidle
      obtain ⟨state, hrow, hread⟩ := Option.map_eq_some_iff.mp hstep
      rw [← hread]
      exact .read hidle hrow
    · cases hstep
  | unconfigured run stamp now =>
    simp only [step] at hstep
    split at hstep
    · rename_i state hread
      rw [Option.ite_none_right_eq_some, Option.some.injEq] at hstep
      rw [← hstep.2]
      exact .modify (by rw [hread]; rfl) hstep.1 bookkeeping_requireConfiguration rfl (.inl rfl)
    · cases hstep
  | send run =>
    simp only [step] at hstep
    split at hstep
    · rename_i state hread
      rw [Option.some.injEq] at hstep
      rw [← hstep]
      exact .send hread
    · cases hstep
  | deliver id body now ackNow =>
    simp only [step, Option.ite_none_right_eq_some, List.contains_eq_mem, decide_eq_true_eq]
      at hstep
    obtain ⟨hsent, hstep⟩ := hstep
    cases hput : put s.registry ⟨id, some body, now, ackNow⟩ with
    | error e =>
      simp only [hput, Option.some.injEq] at hstep
      rw [← hstep]
      exact .refuse
    | ok accepted =>
      simp only [hput, Option.some.injEq] at hstep
      rw [← hstep]
      exact .deliver hsent hput
  | receive run answer stamp now =>
    simp only [step] at hstep
    split at hstep
    · rename_i state hwaiting
      rw [Option.ite_none_right_eq_some, Option.some.injEq, Bool.and_eq_true,
        List.contains_eq_mem, decide_eq_true_eq] at hstep
      obtain ⟨⟨hanswer, hguids⟩, hmodify⟩ := hstep
      obtain ⟨hsame, hstamp, hlearnt⟩ := learn_spec hanswer
      rw [← hmodify]
      exact .modify (by rw [hwaiting]; rfl) hguids hsame hstamp hlearnt
    · cases hstep
  | fail run permanent stamp now =>
    simp only [step] at hstep
    split at hstep
    · rename_i state hwaiting
      rw [Option.ite_none_right_eq_some, Option.some.injEq] at hstep
      rw [← hstep.2]
      exact .modify (by rw [hwaiting]; rfl) hstep.1 bookkeeping_retry rfl (.inl rfl)
    · cases hstep
  | save run =>
    simp only [step] at hstep
    split at hstep
    · rename_i original current hsaving
      split at hstep
      · rename_i state hrow
        split at hstep
        · rename_i hstamp
          rw [Option.some.injEq] at hstep
          rw [← hstep]
          exact .save hsaving hrow hstamp
        · rw [Option.some.injEq] at hstep
          rw [← hstep]
          exact .discard hsaving
      · rw [Option.some.injEq] at hstep
        rw [← hstep]
        exact .discard hsaving
    · cases hstep

end Provisioning

end Wallow.Telemetry
