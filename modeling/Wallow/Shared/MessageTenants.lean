import Wallow.Api.GuidText
import Wallow.Shared.TenantScopes

/-!
# The tenant of a message

`TenantStampingMiddleware.cs` and `TenantRestoringMiddleware.cs`, which run one after the other when
a message is handled, over the trees of messages that a request sends.
-/

namespace Wallow.Shared

open Wallow.Api

/-- The public property `TenantId` of a message, where its type has one. -/
inductive TenantIdProperty
  | guid (value : TenantId)
  /-- Of another type than `Guid`. -/
  | other
  deriving DecidableEq

structure Message where
  tenantId : Option TenantIdProperty
  deriving DecidableEq

structure Envelope where
  headers : List (String × String)
  message : Option Message
  deriving DecidableEq

def TENANT_ID_HEADER : String := "X-Tenant-Id"

def Envelope.setHeader (envelope : Envelope) (name value : String) : Envelope :=
  { envelope with
    headers := (name, value) :: envelope.headers.filter fun header => header.1 ≠ name }

@[simp] theorem Envelope.lookup_setHeader (envelope : Envelope) (name value : String) :
    (envelope.setHeader name value).headers.lookup name = some value := List.lookup_cons_self

@[simp] theorem Envelope.message_setHeader (envelope : Envelope) (name value : String) :
    (envelope.setHeader name value).message = envelope.message := rfl

/-! ## The middlewares -/

/-- The text of a `Guid`. -/
def guidText (guid : Guid) : String := TenantId.toString (Fin.ofNat (2 ^ 128) guid)

theorem guidText_val (tenantId : TenantId) : guidText tenantId.val = tenantId.toString := by
  have hsame : Fin.ofNat (2 ^ 128) tenantId.val = tenantId :=
    Fin.ext (Nat.mod_eq_of_lt tenantId.isLt)
  rw [guidText, hsame]

/-- `TenantStampingMiddleware.Before`. -/
def stamp (envelope : Envelope) (tenancy : Tenancy) : Envelope :=
  if tenancy.context.isResolved then
    envelope.setHeader TENANT_ID_HEADER (guidText tenancy.context.tenantId)
  else if tenancy.ambient ≠ Guid.empty then
    envelope.setHeader TENANT_ID_HEADER (guidText tenancy.ambient)
  else envelope

/-- `TryGetTenantIdFromMessage`. -/
def tryGetTenantIdFromMessage (message : Message) : Option TenantId :=
  match message.tenantId with
  | some (.guid tenantId) => if tenantId.val ≠ Guid.empty then some tenantId else none
  | _ => none

/-- `TenantRestoringMiddleware.Before`. -/
def restore (envelope : Envelope) (tenancy : Tenancy) : Tenancy :=
  match (envelope.headers.lookup TENANT_ID_HEADER).bind fun header => tryParse header.toList with
  | some tenantGuid => tenancy.setTenant tenantGuid.val
  | none =>
    match envelope.message.bind tryGetTenantIdFromMessage with
    | some messageTenantId => tenancy.setTenant messageTenantId.val
    | none => tenancy

/-! ## Trees of messages -/

/-- How a message reaches its handler: `InvokeAsync`, which handles it in the flow of the sender and
in a new scope or that of the sender, or `PublishAsync`. -/
inductive Dispatch
  | invoke (newScope : Bool)
  | publish
  deriving DecidableEq

/-- The messages a request or a handler sends, each with those that its handler sends in turn. A
message with several handlers stands there once for each. -/
inductive Messages
  | done
  | message (dispatch : Dispatch) (body : Message) (sent rest : Messages)
  deriving DecidableEq

/-- The scope and the flow a message is handled in, before any middleware. -/
def found (sender : Tenancy) : Dispatch → Tenancy
  | .invoke newScope =>
    if newScope then ⟨Tenancy.initial.context, sender.ambient⟩ else sender
  | .publish => Tenancy.initial

/-- The tenancy a handler runs with. -/
def handlerTenancy (sender : Tenancy) (dispatch : Dispatch) (body : Message) : Tenancy :=
  let tenancy := found sender dispatch
  restore (stamp ⟨[], some body⟩ tenancy) tenancy

namespace Messages

/-- The tenancies of all handlers, and the context of the sender after them. -/
def run : Messages → Tenancy → List Tenancy × TenantContext
  | done, sender => ([], sender.context)
  | message dispatch body sent rest, sender =>
    let handler := handlerTenancy sender dispatch body
    let (inner, handlerContext) := sent.run handler
    let sender :=
      if dispatch = .invoke false then { sender with context := handlerContext } else sender
    let (later, context) := rest.run sender
    (handler :: (inner ++ later), context)

/-- Whether the tenant reaches the handlers of the tree: into another flow it gets by the messages
alone, and the empty `Guid` is not carried by an ambient tenant or by a message. -/
def Carry (tenantId : TenantId) : Messages → Prop
  | done => True
  | message dispatch body sent rest =>
    (match dispatch with
      | .invoke newScope => newScope = true → tenantId.val ≠ Guid.empty
      | .publish => tenantId.val ≠ Guid.empty ∧ body.tenantId = some (.guid tenantId)) ∧
    sent.Carry tenantId ∧ rest.Carry tenantId

end Messages

/-! ## Runs under a tenant -/

def TenantContext.ResolvedTo (context : TenantContext) (tenantId : TenantId) : Prop :=
  context.isResolved = true ∧ context.tenantId = tenantId.val

/-- Both the context and the flow name the tenant. -/
structure Tenancy.Under (tenancy : Tenancy) (tenantId : TenantId) : Prop where
  context : tenancy.context.ResolvedTo tenantId
  ambient : tenancy.ambient = tenantId.val

theorem under_setTenant (tenancy : Tenancy) (tenantId : TenantId) :
    (tenancy.setTenant tenantId.val).Under tenantId := ⟨⟨rfl, rfl⟩, rfl⟩

theorem under_setTenantNamed (tenancy : Tenancy) (tenantId : TenantId) (name region : String) :
    (tenancy.setTenantNamed tenantId.val name region).Under tenantId := ⟨⟨rfl, rfl⟩, rfl⟩

/-- What was stamped is restored. -/
theorem restore_stamped (envelope : Envelope) (tenantId : TenantId) (tenancy : Tenancy) :
    restore (envelope.setHeader TENANT_ID_HEADER tenantId.toString) tenancy =
      tenancy.setTenant tenantId.val := by
  have hparse : ((envelope.setHeader TENANT_ID_HEADER tenantId.toString).headers.lookup
      TENANT_ID_HEADER).bind (fun header => tryParse header.toList) = some tenantId := by
    rw [Envelope.lookup_setHeader, Option.bind_some, toList_toString, tryParse_chars]
  rw [restore, hparse]

theorem stamp_of_resolved {tenancy : Tenancy} {tenantId : TenantId}
    (h : tenancy.context.ResolvedTo tenantId) (envelope : Envelope) :
    stamp envelope tenancy = envelope.setHeader TENANT_ID_HEADER tenantId.toString := by
  obtain ⟨hresolved, htenant⟩ := h
  rw [stamp, if_pos hresolved, htenant, guidText_val]

theorem handlerTenancy_invoke_false {sender : Tenancy} {tenantId : TenantId}
    (h : sender.Under tenantId) (body : Message) :
    (handlerTenancy sender (.invoke false) body).Under tenantId := by
  have hfound : found sender (.invoke false) = sender := rfl
  rw [handlerTenancy, hfound]
  rw [stamp_of_resolved h.context, restore_stamped]
  exact under_setTenant sender tenantId

theorem handlerTenancy_invoke_true {sender : Tenancy} {tenantId : TenantId}
    (h : sender.Under tenantId) (hne : tenantId.val ≠ Guid.empty) (body : Message) :
    (handlerTenancy sender (.invoke true) body).Under tenantId := by
  have hstamp : stamp ⟨[], some body⟩ (found sender (.invoke true)) =
      Envelope.setHeader ⟨[], some body⟩ TENANT_ID_HEADER tenantId.toString := by
    have hunresolved : ¬(found sender (.invoke true)).context.isResolved = true :=
      Bool.false_ne_true
    have hambient : (found sender (.invoke true)).ambient = tenantId.val := h.ambient
    rw [stamp, if_neg hunresolved, hambient, if_pos hne, guidText_val]
  rw [handlerTenancy]
  rw [hstamp, restore_stamped]
  exact under_setTenant _ tenantId

/-- Where neither the scope nor the flow has a tenant. -/
theorem handlerTenancy_of_found_initial {sender : Tenancy} {dispatch : Dispatch}
    (hfound : found sender dispatch = Tenancy.initial) (body : Message) :
    handlerTenancy sender dispatch body =
      match tryGetTenantIdFromMessage body with
      | some tenantId => Tenancy.initial.setTenant tenantId.val
      | none => Tenancy.initial := by
  rw [handlerTenancy, hfound]
  rfl

theorem tryGetTenantIdFromMessage_eq_some {body : Message} {tenantId : TenantId} :
    tryGetTenantIdFromMessage body = some tenantId ↔
      tenantId.val ≠ Guid.empty ∧ body.tenantId = some (.guid tenantId) := by
  unfold tryGetTenantIdFromMessage
  split
  · rename_i value hvalue
    rw [hvalue]
    by_cases hne : value.val ≠ Guid.empty
    · rw [if_pos hne]
      constructor
      · intro h
        cases h
        exact ⟨hne, rfl⟩
      · rintro ⟨-, h⟩
        cases h
        rfl
    · rw [if_neg hne]
      constructor
      · intro h
        cases h
      · rintro ⟨hne', h⟩
        cases h
        exact absurd hne' hne
  · rename_i hother
    constructor
    · intro h
      cases h
    · rintro ⟨-, h⟩
      exact absurd h (hother tenantId)

/-- The step: a handler runs under the tenant of its sender exactly when its message gets it
there. -/
theorem handlerTenancy_under_iff {sender : Tenancy} {tenantId : TenantId}
    (h : sender.Under tenantId) (dispatch : Dispatch) (body : Message) :
    (handlerTenancy sender dispatch body).context.ResolvedTo tenantId ↔
      match dispatch with
      | .invoke newScope => newScope = true → tenantId.val ≠ Guid.empty
      | .publish => tenantId.val ≠ Guid.empty ∧ body.tenantId = some (.guid tenantId) := by
  have halone : found sender dispatch = Tenancy.initial →
      ((handlerTenancy sender dispatch body).context.ResolvedTo tenantId ↔
        tenantId.val ≠ Guid.empty ∧ body.tenantId = some (.guid tenantId)) := by
    intro hfound
    rw [handlerTenancy_of_found_initial hfound, ← tryGetTenantIdFromMessage_eq_some]
    cases tryGetTenantIdFromMessage body with
    | none =>
      constructor
      · rintro ⟨hresolved, -⟩
        cases hresolved
      · intro hnone
        cases hnone
    | some messageTenantId =>
      constructor
      · rintro ⟨-, htenant⟩
        rw [Fin.ext htenant]
      · intro hsame
        cases hsame
        exact (under_setTenant _ _).context
  cases dispatch with
  | publish => exact halone rfl
  | invoke newScope =>
    cases newScope with
    | false =>
      exact iff_of_true (handlerTenancy_invoke_false h body).context fun hfalse => nomatch hfalse
    | true =>
      by_cases hne : tenantId.val ≠ Guid.empty
      · exact iff_of_true (handlerTenancy_invoke_true h hne body).context fun _ => hne
      · -- the empty tenant leaves no trace in the flow
        have hfound : found sender (.invoke true) = Tenancy.initial := by
          have hambient : sender.ambient = Guid.empty := h.ambient.trans (not_not.mp hne)
          rw [found, if_pos rfl, hambient]
          rfl
        rw [halone hfound]
        exact ⟨fun hcarried => absurd hcarried.1 hne, fun hcarried => absurd (hcarried rfl) hne⟩

theorem restore_cases (envelope : Envelope) (tenancy : Tenancy) :
    restore envelope tenancy = tenancy ∨
      ∃ tenantId : TenantId, restore envelope tenancy = tenancy.setTenant tenantId.val := by
  unfold restore
  split
  · exact .inr ⟨_, rfl⟩
  · split
    · exact .inr ⟨_, rfl⟩
    · exact .inl rfl

/-- A handler whose context has the tenant runs in a flow that has it. -/
theorem handlerTenancy_under {sender : Tenancy} {tenantId : TenantId} {dispatch : Dispatch}
    {body : Message} (h : sender.Under tenantId)
    (hcontext : (handlerTenancy sender dispatch body).context.ResolvedTo tenantId) :
    (handlerTenancy sender dispatch body).Under tenantId := by
  obtain hsame | ⟨restored, hrestored⟩ :=
    restore_cases (stamp ⟨[], some body⟩ (found sender dispatch)) (found sender dispatch)
  · have hfound : handlerTenancy sender dispatch body = found sender dispatch := hsame
    rw [hfound] at hcontext ⊢
    have hunresolved : ∀ {context : TenantContext}, context.isResolved = false →
        ¬context.ResolvedTo tenantId := fun hfalse hresolved => by
      rw [hresolved.1] at hfalse
      cases hfalse
    match dispatch with
    | .publish => exact absurd hcontext (hunresolved rfl)
    | .invoke true => exact absurd hcontext (hunresolved rfl)
    | .invoke false => exact h
  · have hset : handlerTenancy sender dispatch body =
        (found sender dispatch).setTenant restored.val := hrestored
    rw [hset] at hcontext ⊢
    have hsame : restored = tenantId := Fin.ext hcontext.2
    rw [hsame]
    exact under_setTenant _ tenantId

namespace Messages

/-- The messages a sender invokes in its own scope leave its tenant as it is. -/
theorem run_context (messages : Messages) {sender : Tenancy} {tenantId : TenantId}
    (h : sender.Under tenantId) : (messages.run sender).2.ResolvedTo tenantId := by
  induction messages generalizing sender with
  | done => exact h.context
  | message dispatch body sent rest ihsent ihrest =>
    refine ihrest ?_
    split
    · rename_i hscope
      subst hscope
      exact ⟨ihsent (handlerTenancy_invoke_false h body), h.ambient⟩
    · exact h

/-- The run: every handler of the tree has the tenant exactly when each message carries it. -/
theorem run_under_iff (messages : Messages) {sender : Tenancy} {tenantId : TenantId}
    (h : sender.Under tenantId) :
    (∀ handler ∈ (messages.run sender).1, handler.context.ResolvedTo tenantId) ↔
      messages.Carry tenantId := by
  induction messages generalizing sender with
  | done => exact iff_of_true (fun _ hmem => absurd hmem List.not_mem_nil) trivial
  | message dispatch body sent rest ihsent ihrest =>
    have hsender : (if dispatch = .invoke false then
        { sender with context := (sent.run (handlerTenancy sender dispatch body)).2 }
        else sender).Under tenantId := by
      split
      · rename_i hscope
        subst hscope
        exact ⟨sent.run_context (handlerTenancy_invoke_false h body), h.ambient⟩
      · exact h
    have hstep : (message dispatch body sent rest).Carry tenantId ↔
        (handlerTenancy sender dispatch body).context.ResolvedTo tenantId ∧
          sent.Carry tenantId ∧ rest.Carry tenantId :=
      and_congr (handlerTenancy_under_iff h dispatch body).symm Iff.rfl
    have hinner : (handlerTenancy sender dispatch body).context.ResolvedTo tenantId →
        ((∀ handler ∈ (sent.run (handlerTenancy sender dispatch body)).1,
          handler.context.ResolvedTo tenantId) ↔ sent.Carry tenantId) := fun hcontext =>
      ihsent (handlerTenancy_under h hcontext)
    rw [hstep, ← ihrest hsender]
    simp only [run, List.forall_mem_cons, List.forall_mem_append]
    constructor
    · rintro ⟨hcontext, hsent, hrest⟩
      exact ⟨hcontext, (hinner hcontext).mp hsent, hrest⟩
    · rintro ⟨hcontext, hsent, hrest⟩
      exact ⟨hcontext, (hinner hcontext).mpr hsent, hrest⟩

end Messages

/-- Every handler below a request or handler of a tenant has its tenant exactly when that is not
the empty `Guid`, or no message leaves the scope of its sender, and every published message carries
it in its own property. -/
theorem handlers_have_tenant_iff (tenantId : TenantId) (name region : String)
    (messages : Messages) :
    (∀ handler ∈ (messages.run (Tenancy.initial.setTenantNamed tenantId.val name region)).1,
      handler.context.isResolved = true ∧ handler.context.tenantId = tenantId.val) ↔
    messages.Carry tenantId :=
  messages.run_under_iff (under_setTenantNamed Tenancy.initial tenantId name region)

/-- A published event without the property `TenantId` is handled without a tenant. -/
theorem published_without_tenant :
    ∃ handler ∈ ((Messages.message .publish ⟨none⟩ .done .done).run
        (Tenancy.initial.setTenantNamed 7 "" PrimaryRegion)).1,
      handler.context.isResolved = false := by
  decide +kernel

end Wallow.Shared
