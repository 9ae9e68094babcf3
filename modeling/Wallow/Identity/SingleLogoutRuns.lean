import Wallow.Identity.SingleLogout

/-!
# Complete single logout

What a logout owes when it has completed: the tokens of its session are revoked, and each client
that took part was a recipient or still has its row.  The invariant follows the logout from the
recipients over the revocation to the rows, while the others and the joining clients go on.
-/

namespace Wallow.Identity

open Transition

namespace SingleLogout

/-! ## What a completed logout leaves -/

section Proofs

variable {userOf : String → Guid} {applications : String → Option LogoutUris}
  {s s' : SingleLogout} {logout : Logout}

/-- The client was a recipient in each channel it is registered for. -/
structure Notified (applications : String → Option LogoutUris) (s : SingleLogout)
    (sid clientId : String) : Prop where
  frontchannel : (frontchannelLogoutUri? applications clientId).isSome = true →
    (sid, clientId) ∈ s.frontchannel
  backchannel : (backchannelLogoutUri? applications clientId).isSome = true →
    (sid, clientId) ∈ s.backchannel

def TokensRevoked (s : SingleLogout) (logout : Logout) (sid : String) : Prop :=
  ∀ token ∈ logout.arrival.tokens, logout.arrival.Stamped token sid → token.id ∈ s.revokedTokens

def ParticipantsNotified (applications : String → Option LogoutUris) (s : SingleLogout)
    (sid : String) : Prop :=
  ∀ clientId, (sid, clientId) ∈ s.joined →
    s.hasRow sid clientId = true ∨ Notified applications s sid clientId

/-- Single logout is complete: for every logout that has completed and every session it ends. -/
def Complete (applications : String → Option LogoutUris) (s : SingleLogout) : Prop :=
  ∀ logout ∈ s.logouts, logout.stage = .completed → ∀ session, logout.request.Ends session →
    TokensRevoked s logout session.sid ∧ ParticipantsNotified applications s session.sid

/-- No call is running, the rows are the participations, and each `sid` is one user's. -/
structure Start (userOf : String → Guid) (s : SingleLogout) : Prop where
  logouts : s.logouts = []
  joined : ∀ pair ∈ s.joined, s.hasRow pair.1 pair.2 = true
  subject : ∀ authorization ∈ s.store.authorizations, ∀ sid, authorization.sid = some sid →
    authorization.subject = userOf sid

/-! ## The invariant -/

/-- Each participant of the session is a recipient already. -/
def FrontchannelListed (applications : String → Option LogoutUris) (s : SingleLogout)
    (sid : String) : Prop :=
  ∀ row ∈ s.rows, row.sid = sid →
    (frontchannelLogoutUri? applications row.clientId).isSome = true →
      (sid, row.clientId) ∈ s.frontchannel

def BackchannelListed (applications : String → Option LogoutUris) (s : SingleLogout)
    (sid : String) : Prop :=
  ∀ row ∈ s.rows, row.sid = sid →
    (backchannelLogoutUri? applications row.clientId).isSome = true →
      (sid, row.clientId) ∈ s.backchannel

/-- A token of the session is revoked, or among those to come, or under an authorization to come. -/
def Pending (s : SingleLogout) (logout : Logout) (sid : String) (tokens rest : List Nat) : Prop :=
  ∀ token ∈ logout.arrival.tokens, logout.arrival.Stamped token sid →
    token.id ∈ s.revokedTokens ∨ token.id ∈ tokens ∨
      ∃ authorization ∈ rest, token.authorizationId = some authorization

/-- How far the revocation is. -/
def RevocationInv (s : SingleLogout) (logout : Logout) (sid : String) : LogoutPhase → Prop
  | .frontchannelListed | .backchannelListed => True
  | .nextAuthorization rest revokedTokenIds =>
    Pending s logout sid [] rest ∧ revokedTokenIds ⊆ s.revokedTokens
  | .revokingTokens _ tokens rest revokedTokenIds =>
    Pending s logout sid tokens rest ∧ revokedTokenIds ⊆ s.revokedTokens
  | .deleting _ => TokensRevoked s logout sid

structure PhaseInv (applications : String → Option LogoutUris) (s : SingleLogout)
    (logout : Logout) (sid : String) (phase : LogoutPhase) : Prop where
  frontchannel : listedFrontchannel phase = true → logout.request.method ≠ .post →
    FrontchannelListed applications s sid
  backchannel : listedBackchannel phase = true → BackchannelListed applications s sid
  revocation : RevocationInv s logout sid phase
  deleting : ∀ rows, phase = .deleting rows →
    ∀ row ∈ rows, Notified applications s row.sid row.clientId

structure LogoutInv (userOf : String → Guid) (applications : String → Option LogoutUris)
    (s : SingleLogout) (logout : Logout) : Prop where
  minted : ∀ session, logout.request.session = some session → session.userId = userOf session.sid
  ends : ∀ session, logout.request.Ends session → logout.request.session = some session
  authorizations : logout.arrival.authorizations ⊆ s.store.authorizations
  tokens : logout.arrival.tokens ⊆ s.store.tokens
  running : ∀ session phase, logout.stage = .running session phase →
    logout.request.session = some session ∧ PhaseInv applications s logout session.sid phase
  completed : logout.stage = .completed → ∀ session, logout.request.session = some session →
    TokensRevoked s logout session.sid

structure Inv (userOf : String → Guid) (applications : String → Option LogoutUris)
    (s : SingleLogout) : Prop where
  logouts : ∀ logout ∈ s.logouts, LogoutInv userOf applications s logout
  joined : ∀ sid, ParticipantsNotified applications s sid
  subject : ∀ authorization ∈ s.store.authorizations, ∀ sid, authorization.sid = some sid →
    authorization.subject = userOf sid

theorem Start.inv (h : Start userOf s) : Inv userOf applications s where
  logouts _ hmem := by
    rw [h.logouts] at hmem
    exact absurd hmem List.not_mem_nil
  joined sid clientId hmem := .inl (h.joined (sid, clientId) hmem)
  subject := h.subject

theorem Inv.complete (h : Inv userOf applications s) : Complete applications s := by
  intro logout hmem hcompleted session hends
  have hinv := h.logouts logout hmem
  exact ⟨hinv.completed hcompleted session (hinv.ends session hends), h.joined session.sid⟩

/-! ## What a step leaves to the others -/

/-- Nothing that a logout has seen or done is undone, and no row is new. -/
structure Frame (s s' : SingleLogout) : Prop where
  authorizations : s.store.authorizations ⊆ s'.store.authorizations
  tokens : s.store.tokens ⊆ s'.store.tokens
  revoked : s.revokedTokens ⊆ s'.revokedTokens
  frontchannel : s.frontchannel ⊆ s'.frontchannel
  backchannel : s.backchannel ⊆ s'.backchannel
  rows : s'.rows ⊆ s.rows

theorem Frame.of_eq (hstore : s'.store = s.store) (hrevoked : s'.revokedTokens = s.revokedTokens)
    (hfront : s'.frontchannel = s.frontchannel) (hback : s'.backchannel = s.backchannel)
    (hrows : s'.rows = s.rows) : Frame s s' where
  authorizations := by rw [hstore]; exact List.Subset.refl _
  tokens := by rw [hstore]; exact List.Subset.refl _
  revoked := by rw [hrevoked]; exact List.Subset.refl _
  frontchannel := by rw [hfront]; exact List.Subset.refl _
  backchannel := by rw [hback]; exact List.Subset.refl _
  rows := by rw [hrows]; exact List.Subset.refl _

theorem Notified.mono (hfront : s.frontchannel ⊆ s'.frontchannel)
    (hback : s.backchannel ⊆ s'.backchannel) {sid clientId : String}
    (h : Notified applications s sid clientId) : Notified applications s' sid clientId where
  frontchannel hsome := hfront (h.frontchannel hsome)
  backchannel hsome := hback (h.backchannel hsome)

theorem TokensRevoked.mono (hrevoked : s.revokedTokens ⊆ s'.revokedTokens) {sid : String}
    (h : TokensRevoked s logout sid) : TokensRevoked s' logout sid := fun token hmem hstamped =>
  hrevoked (h token hmem hstamped)

theorem Pending.mono (hrevoked : s.revokedTokens ⊆ s'.revokedTokens) {sid : String}
    {tokens rest : List Nat} (h : Pending s logout sid tokens rest) :
    Pending s' logout sid tokens rest := fun token hmem hstamped =>
  (h token hmem hstamped).imp_left fun hdone => hrevoked hdone

theorem RevocationInv.mono (hrevoked : s.revokedTokens ⊆ s'.revokedTokens) {sid : String}
    {phase : LogoutPhase} (h : RevocationInv s logout sid phase) :
    RevocationInv s' logout sid phase := by
  cases phase with
  | frontchannelListed => trivial
  | backchannelListed => trivial
  | nextAuthorization rest revokedTokenIds =>
    exact ⟨h.1.mono hrevoked, List.Subset.trans h.2 hrevoked⟩
  | revokingTokens authorization tokens rest revokedTokenIds =>
    exact ⟨h.1.mono hrevoked, List.Subset.trans h.2 hrevoked⟩
  | deleting rows => exact TokensRevoked.mono hrevoked h

theorem PhaseInv.mono {sid : String} {phase : LogoutPhase}
    (h : PhaseInv applications s logout sid phase) (hframe : Frame s s') :
    PhaseInv applications s' logout sid phase where
  frontchannel hlisted hmethod row hrow hsid hsome :=
    hframe.frontchannel (h.frontchannel hlisted hmethod row (hframe.rows hrow) hsid hsome)
  backchannel hlisted row hrow hsid hsome :=
    hframe.backchannel (h.backchannel hlisted row (hframe.rows hrow) hsid hsome)
  revocation := h.revocation.mono hframe.revoked
  deleting rows hphase row hrow :=
    (h.deleting rows hphase row hrow).mono hframe.frontchannel hframe.backchannel

theorem LogoutInv.mono (h : LogoutInv userOf applications s logout) (hframe : Frame s s') :
    LogoutInv userOf applications s' logout where
  minted := h.minted
  ends := h.ends
  authorizations := List.Subset.trans h.authorizations hframe.authorizations
  tokens := List.Subset.trans h.tokens hframe.tokens
  running session phase hstage := by
    obtain ⟨hsession, hphase⟩ := h.running session phase hstage
    exact ⟨hsession, hphase.mono hframe⟩
  completed hcompleted session hsession :=
    (h.completed hcompleted session hsession).mono hframe.revoked

/-- A logout that goes on: what it needs is the invariant of its next stage. -/
theorem LogoutInv.enter (h : LogoutInv userOf applications s logout) (hframe : Frame s s')
    {stage : LogoutStage}
    (hrunning : ∀ session phase, stage = .running session phase →
      logout.request.session = some session ∧ PhaseInv applications s' logout session.sid phase)
    (hcompleted : stage = .completed → ∀ session, logout.request.session = some session →
      TokensRevoked s' logout session.sid) :
    LogoutInv userOf applications s' { logout with stage := stage } where
  minted := h.minted
  ends := h.ends
  authorizations := List.Subset.trans h.authorizations hframe.authorizations
  tokens := List.Subset.trans h.tokens hframe.tokens
  running session phase hstage := by
    obtain ⟨hsession, hphase⟩ := hrunning session phase hstage
    exact ⟨hsession, ⟨hphase.frontchannel, hphase.backchannel,
      by cases phase <;> exact hphase.revocation, hphase.deleting⟩⟩
  completed := hcompleted

theorem ParticipantsNotified.of_rows_eq {sid : String}
    (h : ParticipantsNotified applications s sid) (hframe : Frame s s') (hrows : s'.rows = s.rows)
    (hjoined : s'.joined = s.joined) : ParticipantsNotified applications s' sid := by
  intro clientId hmem
  rw [hjoined] at hmem
  refine (h clientId hmem).imp (fun hrow => ?_) fun hnotified =>
    hnotified.mono hframe.frontchannel hframe.backchannel
  rw [hasRow, hrows]
  exact hrow

/-- The state after a step of one logout. -/
theorem Inv.enter {t : SingleLogout} {stage : LogoutStage} (h : Inv userOf applications s)
    (hmem : logout ∈ s.logouts) (i : Nat) (hframe : Frame s t) (hlogouts : t.logouts = s.logouts)
    (hstore : t.store = s.store) (hjoined : ∀ sid, ParticipantsNotified applications t sid)
    (hrunning : ∀ session phase, stage = .running session phase →
      logout.request.session = some session ∧ PhaseInv applications t logout session.sid phase)
    (hcompleted : stage = .completed → ∀ session, logout.request.session = some session →
      TokensRevoked t logout session.sid) :
    Inv userOf applications (t.enter i logout stage) := by
  have hsame : Frame t (t.enter i logout stage) := .of_eq rfl rfl rfl rfl rfl
  have hframe' : Frame s (t.enter i logout stage) :=
    ⟨hframe.authorizations, hframe.tokens, hframe.revoked, hframe.frontchannel,
      hframe.backchannel, hframe.rows⟩
  refine ⟨fun other hother => ?_, fun sid => (hjoined sid).of_rows_eq hsame rfl rfl, ?_⟩
  · have hset : other ∈ s.logouts.set i { logout with stage := stage } := hlogouts ▸ hother
    rcases List.mem_or_eq_of_mem_set hset with hold | rfl
    · exact (h.logouts other hold).mono hframe'
    · refine (h.logouts logout hmem).enter hframe' (fun session phase hstage => ?_) hcompleted
      obtain ⟨hsession, hphase⟩ := hrunning session phase hstage
      exact ⟨hsession, hphase.mono hsame⟩
  · have hauthorizations : (t.enter i logout stage).store.authorizations =
        s.store.authorizations := congrArg TokenStore.authorizations hstore
    rw [hauthorizations]
    exact h.subject

/-- A step that changes the stage of one logout and nothing else. -/
theorem Inv.enter_self {stage : LogoutStage} (h : Inv userOf applications s)
    (hmem : logout ∈ s.logouts) (i : Nat)
    (hrunning : ∀ session phase, stage = .running session phase →
      logout.request.session = some session ∧ PhaseInv applications s logout session.sid phase)
    (hcompleted : stage = .completed → ∀ session, logout.request.session = some session →
      TokensRevoked s logout session.sid) :
    Inv userOf applications (s.enter i logout stage) :=
  h.enter hmem i (.of_eq rfl rfl rfl rfl rfl) rfl rfl h.joined hrunning hcompleted

/-- A logout that ends without completing owes nothing. -/
theorem Inv.enter_ended (h : Inv userOf applications s) (hmem : logout ∈ s.logouts) (i : Nat) :
    Inv userOf applications (s.enter i logout .ended) :=
  h.enter_self hmem i (fun _ _ hstage => nomatch hstage) fun hstage => nomatch hstage

/-! ## Listing -/

theorem mem_clientIds {row : SsoSessionClient} (hrow : row ∈ s.rows) :
    row.clientId ∈ s.clientIds row.sid := by
  rw [clientIds, List.mem_eraseDups]
  exact List.mem_map_of_mem (List.mem_filter.mpr ⟨hrow, decide_eq_true rfl⟩)

theorem frontchannelListed_listFrontchannel (s : SingleLogout) (sid : String) :
    FrontchannelListed applications (s.listFrontchannel applications sid) sid := by
  intro row hrow hsid hsome
  have hrow' : row ∈ s.rows := hrow
  have hrecipient : row.clientId ∈ s.frontchannelRecipients applications sid :=
    List.mem_filter.mpr ⟨hsid ▸ mem_clientIds hrow', hsome⟩
  exact List.mem_append_right _ (List.mem_map_of_mem hrecipient)

theorem backchannelListed_listBackchannel (s : SingleLogout) (sid : String) :
    BackchannelListed applications (s.listBackchannel applications sid) sid := by
  intro row hrow hsid hsome
  have hrow' : row ∈ s.rows := hrow
  have hrecipient : row.clientId ∈ s.backchannelRecipients applications sid :=
    List.mem_filter.mpr ⟨hsid ▸ mem_clientIds hrow', hsome⟩
  exact List.mem_append_right _ (List.mem_map_of_mem hrecipient)

theorem frame_listFrontchannel (s : SingleLogout) (sid : String) :
    Frame s (s.listFrontchannel applications sid) where
  authorizations := List.Subset.refl _
  tokens := List.Subset.refl _
  revoked := List.Subset.refl _
  frontchannel := List.subset_append_left _ _
  backchannel := List.Subset.refl _
  rows := List.Subset.refl _

theorem frame_listBackchannel (s : SingleLogout) (sid : String) :
    Frame s (s.listBackchannel applications sid) where
  authorizations := List.Subset.refl _
  tokens := List.Subset.refl _
  revoked := List.Subset.refl _
  frontchannel := List.Subset.refl _
  backchannel := List.subset_append_left _ _
  rows := List.Subset.refl _

theorem Inv.listFrontchannel (h : Inv userOf applications s) (hmem : logout ∈ s.logouts)
    (i : Nat) {session : SsoSession} (hsession : logout.request.session = some session) :
    Inv userOf applications ((s.listFrontchannel applications session.sid).enter i logout
      (.running session .frontchannelListed)) := by
  have hframe : Frame s (s.listFrontchannel applications session.sid) :=
    frame_listFrontchannel s session.sid
  refine h.enter hmem i hframe rfl rfl (fun sid => (h.joined sid).of_rows_eq hframe rfl rfl) ?_
    fun hstage => nomatch hstage
  intro session' phase hstage
  obtain ⟨rfl, rfl⟩ := LogoutStage.running.inj hstage
  refine ⟨hsession, ⟨fun _ _ => ?_, (fun hlisted => nomatch hlisted), trivial, ?_⟩⟩
  · exact frontchannelListed_listFrontchannel s session.sid
  · intro rows hphase
    cases hphase

/-- The recipients in the front channel, where the method has them, are listed before. -/
theorem Inv.listBackchannel (h : Inv userOf applications s) (hmem : logout ∈ s.logouts)
    (i : Nat) {session : SsoSession} (hsession : logout.request.session = some session)
    (hfront : logout.request.method ≠ .post → FrontchannelListed applications s session.sid) :
    Inv userOf applications ((s.listBackchannel applications session.sid).enter i logout
      (.running session .backchannelListed)) := by
  have hframe : Frame s (s.listBackchannel applications session.sid) :=
    frame_listBackchannel s session.sid
  refine h.enter hmem i hframe rfl rfl (fun sid => (h.joined sid).of_rows_eq hframe rfl rfl) ?_
    fun hstage => nomatch hstage
  intro session' phase hstage
  obtain ⟨rfl, rfl⟩ := LogoutStage.running.inj hstage
  refine ⟨hsession, ⟨fun _ hmethod => hfront hmethod, fun _ => ?_, trivial, ?_⟩⟩
  · exact backchannelListed_listBackchannel s session.sid
  · intro rows hphase
    cases hphase

theorem Inv.start (h : Inv userOf applications s) (hmem : logout ∈ s.logouts) (i : Nat) :
    Inv userOf applications (s.start applications i logout) := by
  have hnone : logout.request.session = none →
      Inv userOf applications (s.enter i logout .completed) := by
    intro hsession
    refine h.enter_self hmem i (fun _ _ hstage => nomatch hstage) fun _ session hsome => ?_
    rw [hsession] at hsome
    cases hsome
  unfold SingleLogout.start
  split
  · exact h.enter_ended hmem i
  · split
    · exact hnone (by assumption)
    · exact h.listFrontchannel hmem i (by assumption)
  · rename_i hpost
    split
    · exact hnone (by assumption)
    · exact h.listBackchannel hmem i (by assumption) fun hmethod => absurd hpost hmethod

/-! ## Revoking -/

/-- Between the recipients and the rows nothing changes but the revocation. -/
theorem PhaseInv.next {sid : String} {phase phase' : LogoutPhase}
    (h : PhaseInv applications s logout sid phase) (hframe : Frame s s')
    (hfront : listedFrontchannel phase = true) (hback : listedBackchannel phase = true)
    (hback' : listedBackchannel phase' = true) (hrevocation : RevocationInv s' logout sid phase') :
    PhaseInv applications s' logout sid phase' where
  frontchannel _ hmethod row hrow hsid hsome :=
    hframe.frontchannel (h.frontchannel hfront hmethod row (hframe.rows hrow) hsid hsome)
  backchannel _ row hrow hsid hsome :=
    hframe.backchannel (h.backchannel hback row (hframe.rows hrow) hsid hsome)
  revocation := hrevocation
  deleting rows hphase := by
    rw [hphase] at hback'
    cases hback'

theorem Pending.revoked {sid : String} (h : Pending s logout sid [] []) :
    TokensRevoked s logout sid := by
  intro token hmem hstamped
  obtain hdone | htoken | ⟨_, hrest, -⟩ := h token hmem hstamped
  · exact hdone
  · exact absurd htoken List.not_mem_nil
  · exact absurd hrest List.not_mem_nil

/-- The query finds every authorization that a token of the session stands under. -/
theorem pending_sessionAuthorizations (h : Inv userOf applications s) (hmem : logout ∈ s.logouts)
    {session : SsoSession} (hsession : logout.request.session = some session) {order : List Nat}
    (horder : order.Perm (s.store.sessionAuthorizations session)) :
    Pending s logout session.sid [] order := by
  intro token _ hstamped
  obtain ⟨authorization, hauthorization, hid, hsid⟩ := hstamped
  have hinv := h.logouts logout hmem
  have hstored : authorization ∈ s.store.authorizations := hinv.authorizations hauthorization
  have hsubject : authorization.subject = session.userId := by
    rw [h.subject authorization hstored session.sid hsid, hinv.minted session hsession]
  refine .inr (.inr ⟨authorization.id, horder.mem_iff.mpr ?_, hid⟩)
  exact List.mem_map_of_mem (List.mem_filter.mpr ⟨hstored, decide_eq_true ⟨hsubject, hsid⟩⟩)

/-- The query finds every token of the authorization that was there at the arrival. -/
theorem Pending.tokensOf {sid : String} {authorization : Nat} {rest order : List Nat}
    (h : Pending s logout sid [] (authorization :: rest))
    (htokens : logout.arrival.tokens ⊆ s.store.tokens)
    (horder : order.Perm (s.store.tokensOf authorization)) : Pending s logout sid order rest := by
  intro token hmem hstamped
  obtain hdone | htoken | ⟨other, hother, hid⟩ := h token hmem hstamped
  · exact .inl hdone
  · exact absurd htoken List.not_mem_nil
  · rcases List.mem_cons.mp hother with rfl | hrest
    · have hlisted : token.id ∈ s.store.tokensOf other :=
        List.mem_map_of_mem (List.mem_filter.mpr ⟨htokens hmem, decide_eq_true hid⟩)
      exact .inr (.inl (horder.mem_iff.mpr hlisted))
    · exact .inr (.inr ⟨other, hrest, hid⟩)

/-- A token that is revoked need not be among those to come. -/
theorem Pending.drop {sid : String} {token : Nat} {tokens rest : List Nat}
    (h : Pending s logout sid (token :: tokens) rest)
    (hrevoked : s.revokedTokens ⊆ s'.revokedTokens) (htoken : token ∈ s'.revokedTokens) :
    Pending s' logout sid tokens rest := by
  intro other hmem hstamped
  obtain hdone | hlisted | hrest := h other hmem hstamped
  · exact .inl (hrevoked hdone)
  · rcases List.mem_cons.mp hlisted with heq | htail
    · rw [heq]
      exact .inl htoken
    · exact .inr (.inl htail)
  · exact .inr (.inr hrest)

/-! ## Forgetting -/

/-- At its selection of the rows a logout has listed each of them, or nobody has to. -/
theorem PhaseInv.notified {sid : String} {revokedTokenIds : List Nat}
    (h : PhaseInv applications s logout sid (.nextAuthorization [] revokedTokenIds))
    (hpost : logout.request.method = .post → ∀ row ∈ s.rows, row.sid = sid →
      (frontchannelLogoutUri? applications row.clientId).isSome = false)
    {row : SsoSessionClient} (hrow : row ∈ s.rows) (hsid : row.sid = sid) :
    Notified applications s row.sid row.clientId where
  frontchannel hsome := by
    by_cases hmethod : logout.request.method = .post
    · rw [hpost hmethod row hrow hsid] at hsome
      cases hsome
    · rw [hsid]
      exact h.frontchannel rfl hmethod row hrow hsid hsome
  backchannel hsome := by
    rw [hsid]
    exact h.backchannel rfl row hrow hsid hsome

theorem Inv.selectRows (h : Inv userOf applications s) (hmem : logout ∈ s.logouts) (i : Nat)
    {session : SsoSession} {revokedTokenIds : List Nat}
    (hstage : logout.stage = .running session (.nextAuthorization [] revokedTokenIds))
    (hpost : logout.request.method = .post → ∀ row ∈ s.rows, row.sid = session.sid →
      (frontchannelLogoutUri? applications row.clientId).isSome = false)
    {saved : Bool} {order : List Nat}
    (hstep : s.advance applications i logout session saved order
      (.nextAuthorization [] revokedTokenIds) = some s') : Inv userOf applications s' := by
  obtain ⟨hsession, hphase⟩ := (h.logouts logout hmem).running _ _ hstage
  have hrevoked : TokensRevoked s logout session.sid := hphase.revocation.1.revoked
  rw [advance] at hstep
  split at hstep
  · cases hstep
    refine h.enter_self hmem i (fun _ _ hstage' => nomatch hstage') fun _ other hother => ?_
    rw [hsession, Option.some.injEq] at hother
    rw [← hother]
    exact hrevoked
  · rename_i first rows hrows
    cases hstep
    refine h.enter_self hmem i (fun other phase hstage' => ?_) fun hstage' => nomatch hstage'
    obtain ⟨rfl, rfl⟩ := LogoutStage.running.inj hstage'
    refine ⟨hsession, ⟨(fun hlisted => nomatch hlisted), (fun hlisted => nomatch hlisted),
      hrevoked, fun deleted hdeleted row hrow => ?_⟩⟩
    cases hdeleted
    rw [← hrows] at hrow
    obtain ⟨hrow, hsid⟩ := List.mem_filter.mp hrow
    exact hphase.notified hpost hrow (of_decide_eq_true hsid)

/-- A row goes only after its client was a recipient. -/
theorem Inv.deleteRows (h : Inv userOf applications s) (hmem : logout ∈ s.logouts) (i : Nat)
    {session : SsoSession} {rows : List SsoSessionClient}
    (hstage : logout.stage = .running session (.deleting rows)) :
    Inv userOf applications (({ s with rows := s.rows.filter (· ∉ rows) } :
      SingleLogout).enter i logout .completed) := by
  obtain ⟨hsession, hphase⟩ := (h.logouts logout hmem).running _ _ hstage
  have hframe : Frame s { s with rows := s.rows.filter (· ∉ rows) } :=
    ⟨List.Subset.refl _, List.Subset.refl _, List.Subset.refl _, List.Subset.refl _,
      List.Subset.refl _, List.filter_sublist.subset⟩
  refine h.enter hmem i hframe rfl rfl (fun sid clientId hjoined => ?_)
    (fun _ _ hstage' => nomatch hstage') fun _ other hother => ?_
  · rcases h.joined sid clientId hjoined with hrow | hnotified
    · obtain ⟨row, hrow, hkey⟩ := List.any_eq_true.mp hrow
      obtain ⟨hsid, hclient⟩ := of_decide_eq_true hkey
      by_cases hdeleted : row ∈ rows
      · have hnotified := hphase.deleting rows rfl row hdeleted
        rw [hsid, hclient] at hnotified
        exact .inr (hnotified.mono hframe.frontchannel hframe.backchannel)
      · exact .inl (List.any_eq_true.mpr
          ⟨row, List.mem_filter.mpr ⟨hrow, decide_eq_true hdeleted⟩, hkey⟩)
    · exact .inr (hnotified.mono hframe.frontchannel hframe.backchannel)
  · rw [hsession, Option.some.injEq] at hother
    rw [← hother]
    exact TokensRevoked.mono hframe.revoked hphase.revocation

/-! ## Steps and runs -/

/-- What an orderly step asks of a logout that has a session. -/
def OrderlyPhase (applications : String → Option LogoutUris) (s : SingleLogout) (logout : Logout)
    (session : SsoSession) (saved : Bool) : LogoutPhase → Prop
  | .revokingTokens _ (_ :: _) _ _ => saved = true
  | .nextAuthorization [] _ => logout.request.method = .post → ∀ row ∈ s.rows,
      row.sid = session.sid → (frontchannelLogoutUri? applications row.clientId).isSome = false
  | _ => True

theorem orderlyPhase_of_orderly {i : Nat} {saved : Bool} {order : List Nat} {session : SsoSession}
    {phase : LogoutPhase} (hlogout : s.logouts[i]? = some logout)
    (hstage : logout.stage = .running session phase)
    (h : s.orderly applications (.act i saved order) = true) :
    OrderlyPhase applications s logout session saved phase := by
  obtain ⟨request, arrival, stage⟩ := logout
  obtain rfl : stage = .running session phase := hstage
  simp only [orderly, hlogout] at h
  unfold OrderlyPhase
  split
  · exact h
  · intro hmethod row hrow hsid
    have hmethod' : request.method = .post := hmethod
    simp only [hmethod', ne_eq, not_true_eq_false, decide_false, Bool.false_or, List.all_eq_true,
      Bool.or_eq_true, decide_eq_true_eq, Option.isNone_iff_eq_none] at h
    rcases h row hrow with hother | hnone
    · exact absurd hsid hother
    · rw [hnone]
      rfl
  · trivial

/-- The stage of a logout between its recipients and its rows. -/
theorem Inv.enter_next {t : SingleLogout} (h : Inv userOf applications s)
    (hmem : logout ∈ s.logouts) (i : Nat) (hframe : Frame s t) (hlogouts : t.logouts = s.logouts)
    (hstore : t.store = s.store) (hrows : t.rows = s.rows) (hjoined : t.joined = s.joined)
    {session : SsoSession} {phase phase' : LogoutPhase}
    (hstage : logout.stage = .running session phase) (hfront : listedFrontchannel phase = true)
    (hback : listedBackchannel phase = true) (hback' : listedBackchannel phase' = true)
    (hrevocation : RevocationInv t logout session.sid phase') :
    Inv userOf applications (t.enter i logout (.running session phase')) := by
  obtain ⟨hsession, hphase⟩ := (h.logouts logout hmem).running _ _ hstage
  refine h.enter hmem i hframe hlogouts hstore
    (fun sid => (h.joined sid).of_rows_eq hframe hrows hjoined) ?_ fun hstage' => nomatch hstage'
  intro other phase'' hstage'
  obtain ⟨rfl, rfl⟩ := LogoutStage.running.inj hstage'
  exact ⟨hsession, hphase.next hframe hfront hback hback' hrevocation⟩

theorem Inv.advance (h : Inv userOf applications s) (hmem : logout ∈ s.logouts) (i : Nat)
    {session : SsoSession} {phase : LogoutPhase} {saved : Bool} {order : List Nat}
    (hstage : logout.stage = .running session phase)
    (horderly : OrderlyPhase applications s logout session saved phase)
    (hstep : s.advance applications i logout session saved order phase = some s') :
    Inv userOf applications s' := by
  obtain ⟨hsession, hphase⟩ := (h.logouts logout hmem).running _ _ hstage
  have hself : Frame s s := .of_eq rfl rfl rfl rfl rfl
  cases phase with
  | frontchannelListed =>
    cases hstep
    exact h.listBackchannel hmem i hsession (hphase.frontchannel rfl)
  | backchannelListed =>
    rw [SingleLogout.advance, Option.ite_none_right_eq_some] at hstep
    obtain ⟨horder, hstep⟩ := hstep
    cases hstep
    exact h.enter_next hmem i hself rfl rfl rfl rfl hstage rfl rfl rfl
      ⟨pending_sessionAuthorizations h hmem hsession horder, List.nil_subset _⟩
  | nextAuthorization rest revokedTokenIds =>
    cases rest with
    | nil => exact h.selectRows hmem i hstage horderly hstep
    | cons authorization rest =>
      rw [SingleLogout.advance, Option.ite_none_right_eq_some] at hstep
      obtain ⟨horder, hstep⟩ := hstep
      cases hstep
      obtain ⟨hpending, hrevoked⟩ := hphase.revocation
      exact h.enter_next hmem i hself rfl rfl rfl rfl hstage rfl rfl rfl
        ⟨hpending.tokensOf (h.logouts logout hmem).tokens horder, hrevoked⟩
  | revokingTokens authorization tokens rest revokedTokenIds =>
    obtain ⟨hpending, hrevoked⟩ := hphase.revocation
    cases tokens with
    | nil =>
      cases hstep
      have hnext : RevocationInv s logout session.sid
          (.nextAuthorization rest revokedTokenIds) := ⟨hpending, hrevoked⟩
      have hframe : Frame s { s with
          revokedAuthorizations :=
            if saved then authorization :: s.revokedAuthorizations
            else s.revokedAuthorizations } := .of_eq rfl rfl rfl rfl rfl
      exact h.enter_next hmem i hframe rfl rfl rfl rfl hstage rfl rfl rfl
        (hnext.mono hframe.revoked)
    | cons token tokens =>
      have hsaved : saved = true := horderly
      subst hsaved
      rw [SingleLogout.advance] at hstep
      split at hstep
      · rename_i hknown
        cases hstep
        exact h.enter_next hmem i hself rfl rfl rfl rfl hstage rfl rfl rfl
          ⟨hpending.drop (List.Subset.refl _) (hrevoked hknown), hrevoked⟩
      · cases hstep
        have hgrow : s.revokedTokens ⊆ token :: s.revokedTokens := List.subset_cons_self _ _
        have hframe : Frame s { s with revokedTokens := token :: s.revokedTokens } :=
          ⟨List.Subset.refl _, List.Subset.refl _, hgrow, List.Subset.refl _,
            List.Subset.refl _, List.Subset.refl _⟩
        have hnext : RevocationInv { s with revokedTokens := token :: s.revokedTokens } logout
            session.sid (.revokingTokens authorization tokens rest (token :: revokedTokenIds)) :=
          ⟨hpending.drop hgrow List.mem_cons_self, List.cons_subset_cons _ hrevoked⟩
        exact h.enter_next hmem i hframe rfl rfl rfl rfl hstage rfl rfl rfl hnext
  | deleting rows =>
    rw [SingleLogout.advance] at hstep
    split at hstep
    · cases hstep
      exact h.deleteRows hmem i hstage
    · cases hstep
      exact h.enter_ended hmem i

/-- A session that is not resolved for the marker is not one that the browser has. -/
theorem LogoutRequest.session_of_ends {request : LogoutRequest}
    (hmarker : ∀ allowed, request.method = .get true allowed → request.cookie.session = none)
    {session : SsoSession} (h : request.Ends session) : request.session = some session := by
  rcases h with hcookie | hsession
  · have hresolved : request.resolveSession = some session := by
      rw [LogoutRequest.resolveSession, hcookie]
      rfl
    unfold LogoutRequest.session
    split
    · rw [hmarker _ (by assumption)] at hcookie
      cases hcookie
    · exact hresolved
    · exact hresolved
  · exact hsession

theorem LogoutRequest.minted_session {request : LogoutRequest}
    (hcookie : minted userOf request.cookie = true) (hhint : minted userOf request.hint = true)
    {session : SsoSession} (h : request.session = some session) :
    session.userId = userOf session.sid := by
  have hresolved : request.resolveSession = some session := by
    unfold LogoutRequest.session at h
    split at h
    · cases h
    · exact h
    · exact h
  have hof : ∀ {principal : SessionPrincipal}, minted userOf principal = true →
      principal.session = some session → session.userId = userOf session.sid := by
    intro principal hminted hsome
    rw [minted, hsome] at hminted
    exact of_decide_eq_true hminted
  rcases Option.or_eq_some_iff.mp hresolved with hsome | ⟨-, hsome⟩
  · exact hof hcookie hsome
  · exact hof hhint hsome

/-- A call that changes neither the logouts nor what they stand on. -/
theorem Inv.of_frame (h : Inv userOf applications s) (hframe : Frame s s')
    (hlogouts : s'.logouts = s.logouts) (hrows : s'.rows = s.rows) (hjoined : s'.joined = s.joined)
    (hsubject : ∀ authorization ∈ s'.store.authorizations, ∀ sid, authorization.sid = some sid →
      authorization.subject = userOf sid) : Inv userOf applications s' where
  logouts logout hmem := (h.logouts logout (hlogouts ▸ hmem)).mono hframe
  joined sid := (h.joined sid).of_rows_eq hframe hrows hjoined
  subject := hsubject

theorem Inv.arrive (h : Inv userOf applications s) {request : LogoutRequest}
    (hminted : minted userOf request.cookie = true ∧ minted userOf request.hint = true)
    (hmarker : ∀ allowed, request.method = .get true allowed → request.cookie.session = none) :
    Inv userOf applications
      { s with logouts := s.logouts ++ [⟨request, s.store, .arrived⟩] } := by
  have hframe : Frame s { s with logouts := s.logouts ++ [⟨request, s.store, .arrived⟩] } :=
    .of_eq rfl rfl rfl rfl rfl
  refine ⟨fun logout hmem => ?_, fun sid => (h.joined sid).of_rows_eq hframe rfl rfl, h.subject⟩
  rcases List.mem_append.mp hmem with hold | hnew
  · exact (h.logouts logout hold).mono hframe
  · obtain rfl := List.mem_singleton.mp hnew
    exact {
      minted := fun _ hsession => LogoutRequest.minted_session hminted.1 hminted.2 hsession
      ends := fun _ hends => LogoutRequest.session_of_ends hmarker hends
      authorizations := List.Subset.refl _
      tokens := List.Subset.refl _
      running := fun _ _ hstage => nomatch hstage
      completed := fun hstage => nomatch hstage }

/-- A client joins a session of which no logout has listed the recipients in vain. -/
theorem Inv.join (h : Inv userOf applications s) {sid clientId : String} {userId : Guid}
    (hlate : ∀ logout ∈ s.logouts, joinsLate applications logout sid clientId = false) :
    Inv userOf applications
      { s with
        rows := s.rows ++ [⟨s.nextRowId, sid, clientId, userId⟩]
        nextRowId := s.nextRowId + 1
        joined := s.joined ++ [(sid, clientId)] } := by
  have hkeep : ∀ {other otherId}, Notified applications s other otherId →
      Notified applications
        { s with
          rows := s.rows ++ [⟨s.nextRowId, sid, clientId, userId⟩]
          nextRowId := s.nextRowId + 1
          joined := s.joined ++ [(sid, clientId)] } other otherId := fun hnotified =>
    ⟨hnotified.frontchannel, hnotified.backchannel⟩
  refine ⟨fun logout hmem => ?_, fun other otherId hmem => ?_, h.subject⟩
  · have hinv := h.logouts logout hmem
    refine ⟨hinv.minted, hinv.ends, hinv.authorizations, hinv.tokens,
      fun session phase hstage => ?_, hinv.completed⟩
    obtain ⟨hsession, hphase⟩ := hinv.running session phase hstage
    have hon : session.sid = sid →
        (listedFrontchannel phase = true → logout.request.method ≠ .post →
          (frontchannelLogoutUri? applications clientId).isSome = false) ∧
        (listedBackchannel phase = true →
          (backchannelLogoutUri? applications clientId).isSome = false) := by
      intro hsid
      have hnot := hlate logout hmem
      simp only [joinsLate, hstage, hsid, decide_true, Bool.true_and, Bool.or_eq_false_iff,
        Bool.and_eq_false_iff, decide_eq_false_iff_not, not_not] at hnot
      obtain ⟨hfront, hback⟩ := hnot
      constructor
      · intro hlisted hmethod
        rcases hfront with (hfalse | hpost) | hnone
        · rw [hlisted] at hfalse
          cases hfalse
        · exact absurd hpost hmethod
        · exact hnone
      · intro hlisted
        rcases hback with hfalse | hnone
        · rw [hlisted] at hfalse
          cases hfalse
        · exact hnone
    refine ⟨hsession, ⟨fun hlisted hmethod row hrow hsid hsome => ?_,
      fun hlisted row hrow hsid hsome => ?_, ?_, fun rows hrows row hrow =>
        hkeep (hphase.deleting rows hrows row hrow)⟩⟩
    · rcases List.mem_append.mp hrow with hold | hnew
      · exact hphase.frontchannel hlisted hmethod row hold hsid hsome
      · obtain rfl := List.mem_singleton.mp hnew
        rw [(hon hsid.symm).1 hlisted hmethod] at hsome
        cases hsome
    · rcases List.mem_append.mp hrow with hold | hnew
      · exact hphase.backchannel hlisted row hold hsid hsome
      · obtain rfl := List.mem_singleton.mp hnew
        rw [(hon hsid.symm).2 hlisted] at hsome
        cases hsome
    · exact hphase.revocation.mono (List.Subset.refl _)
  · rcases List.mem_append.mp hmem with hold | hnew
    · rcases h.joined other otherId hold with hrow | hnotified
      · exact .inl (by
          rw [hasRow, List.any_append]
          exact Bool.or_eq_true_iff.mpr (.inl hrow))
      · exact .inr (hkeep hnotified)
    · obtain ⟨rfl, rfl⟩ := Prod.mk.inj (List.mem_singleton.mp hnew)
      refine .inl (List.any_eq_true.mpr
        ⟨_, List.mem_append_right _ (List.mem_singleton_self _), ?_⟩)
      exact decide_eq_true ⟨rfl, rfl⟩

theorem Inv.recordNext (h : Inv userOf applications s) {j : Nat} {saved : Bool} {call : RecordCall}
    (hcall : s.records[j]? = some call)
    (horderly : s.orderly applications (.record j saved) = true)
    (hstep : s.recordNext j saved call = some s') : Inv userOf applications s' := by
  have hself : ∀ stage, Inv userOf applications (s.enterRecord j call stage) := fun stage =>
    h.of_frame (.of_eq rfl rfl rfl rfl rfl) rfl rfl rfl h.subject
  unfold SingleLogout.recordNext at hstep
  split at hstep
  · cases hstep
    exact hself _
  · split at hstep
    · rename_i hinserted
      cases hstep
      obtain ⟨hsaved, hnew⟩ := hinserted
      simp only [orderly, hcall, hsaved, hnew, Bool.not_true, Bool.false_or, List.all_eq_true,
        Bool.not_eq_true'] at horderly
      exact (h.join horderly).of_frame (.of_eq rfl rfl rfl rfl rfl) rfl rfl rfl h.subject
    · cases hstep
      exact hself _
  · cases hstep

/-- The step: an orderly one keeps the invariant. -/
theorem Inv.step {move : SloMove} (h : Inv userOf applications s)
    (horderly : s.orderly applications move = true)
    (hstep : s.step userOf applications move = some s') : Inv userOf applications s' := by
  cases move with
  | arrive request =>
    rw [SingleLogout.step, Option.ite_none_right_eq_some] at hstep
    obtain ⟨hminted, hstep⟩ := hstep
    cases hstep
    refine h.arrive hminted fun allowed hmethod => ?_
    rw [orderly, hmethod] at horderly
    exact Option.isNone_iff_eq_none.mp horderly
  | act i saved order =>
    obtain ⟨logout, hlogout, hact⟩ := Option.bind_eq_some_iff.mp hstep
    have hmem := List.mem_of_getElem? hlogout
    unfold act at hact
    split at hact
    · cases hact
      exact h.start hmem i
    · rename_i hstage
      exact h.advance hmem i hstage (orderlyPhase_of_orderly hlogout hstage horderly) hact
    · cases hact
    · cases hact
  | abort i =>
    obtain ⟨logout, hlogout, habort⟩ := Option.bind_eq_some_iff.mp hstep
    have hmem := List.mem_of_getElem? hlogout
    split at habort
    · cases habort
    · cases habort
    · cases habort
      exact h.enter_ended hmem i
    · cases habort
      exact h.enter_ended hmem i
  | recordAsync sid clientId userId =>
    cases hstep
    exact h.of_frame (.of_eq rfl rfl rfl rfl rfl) rfl rfl rfl h.subject
  | record j saved =>
    obtain ⟨call, hcall, hnext⟩ := Option.bind_eq_some_iff.mp hstep
    exact h.recordNext hcall horderly hnext
  | abortRecord j =>
    obtain ⟨call, -, rfl⟩ := Option.map_eq_some_iff.mp hstep
    exact h.of_frame (.of_eq rfl rfl rfl rfl rfl) rfl rfl rfl h.subject
  | authorize authorization =>
    rw [SingleLogout.step, Option.ite_none_right_eq_some] at hstep
    obtain ⟨hminted, hstep⟩ := hstep
    cases hstep
    have hframe : Frame s { s with
        store := { s.store with
          authorizations := s.store.authorizations ++ [authorization] } } :=
      ⟨List.subset_append_left _ _, List.Subset.refl _, List.Subset.refl _, List.Subset.refl _,
        List.Subset.refl _, List.Subset.refl _⟩
    refine h.of_frame hframe rfl rfl rfl fun other hother sid hsid => ?_
    rcases List.mem_append.mp hother with hold | hnew
    · exact h.subject other hold sid hsid
    · obtain rfl := List.mem_singleton.mp hnew
      rw [hsid] at hminted
      exact of_decide_eq_true hminted
  | issue token =>
    cases hstep
    have hframe : Frame s { s with
        store := { s.store with tokens := s.store.tokens ++ [token] } } :=
      ⟨List.Subset.refl _, List.subset_append_left _ _, List.Subset.refl _, List.Subset.refl _,
        List.Subset.refl _, List.Subset.refl _⟩
    exact h.of_frame hframe rfl rfl rfl h.subject

end Proofs

/-- The run: where each step is orderly, single logout is complete in the state reached. -/
theorem complete_of_orderly_run {userOf : String → Guid}
    {applications : String → Option LogoutUris} {s₀ s : SingleLogout} {moves : List SloMove}
    (h₀ : Start userOf s₀)
    (h : run (step userOf applications) (orderly applications) s₀ moves = some s) :
    Complete applications s := by
  have hreached : Reaches (step userOf applications)
      (fun a move => a.orderly applications move = true) s₀ s :=
    reaches_of_run (fun _ _ hcheck => hcheck) h
  exact (hreached.invariant (Inv userOf applications) h₀.inv
    fun _ _ _ ha horderly hstep => ha.step horderly hstep).complete

/-! ## Two runs -/

/-- Every client is registered for the front channel; `wiki` takes part in the session `s` of user
7, and has one token. -/
def wikiUris (_ : String) : Option LogoutUris := some ⟨some "https://rp.example/logout", none⟩

def wikiStore : TokenStore := ⟨[⟨1, 7, some "s"⟩], [⟨1, some 1⟩]⟩

def wikiSession : SingleLogout where
  rows := [⟨1, "s", "wiki", 7⟩]
  nextRowId := 2
  store := wikiStore
  revokedTokens := []
  revokedAuthorizations := []
  logouts := []
  records := []
  joined := [("s", "wiki")]
  frontchannel := []
  backchannel := []

theorem wikiSession_start : Start (fun _ => 7) wikiSession where
  logouts := rfl
  joined pair hmem := by
    obtain rfl := List.mem_singleton.mp hmem
    rfl
  subject authorization hmem sid _ := by
    obtain rfl := List.mem_singleton.mp hmem
    rfl

def logoutOf (completionMarker : Bool) : LogoutRequest :=
  ⟨.get completionMarker true, ⟨some 7, some "s"⟩, ⟨none, none⟩⟩

def loneLogout : List SloMove := [
  .arrive (logoutOf false), .act 0 true [], .act 0 true [], .act 0 true [1], .act 0 true [1],
  .act 0 true [], .act 0 true [], .act 0 true [], .act 0 true []]

/-- A logout that runs alone, to its end. -/
theorem complete_of_lone_logout :
    ∃ s, run (step (fun _ => 7) wikiUris) (orderly wikiUris) wikiSession loneLogout = some s ∧
      (∃ logout ∈ s.logouts, logout.stage = .completed) ∧ Complete wikiUris s := by
  have hrun : (run (step (fun _ => 7) wikiUris) (orderly wikiUris) wikiSession loneLogout).any
      (fun s => s.logouts.any fun logout => logout.stage = .completed) = true := by decide +kernel
  cases hs : run (step (fun _ => 7) wikiUris) (orderly wikiUris) wikiSession loneLogout with
  | none =>
    rw [hs] at hrun
    cases hrun
  | some s =>
    rw [hs] at hrun
    obtain ⟨logout, hmem, hstage⟩ := List.any_eq_true.mp hrun
    exact ⟨s, rfl, ⟨logout, hmem, of_decide_eq_true hstage⟩,
      complete_of_orderly_run wikiSession_start hs⟩

/-- The cookie comes with the completion marker: its tokens stay valid. And a client that joins
behind the recipients loses its row without being one. -/
theorem logout_leaves_tokens_and_participants :
    (∃ s, Reachable (step (fun _ => 7) wikiUris) wikiSession s ∧
      ∃ logout ∈ s.logouts, logout.stage = .completed ∧ logout.request.Ends ⟨7, "s"⟩ ∧
        ¬TokensRevoked s logout "s") ∧
    ∃ s, Reachable (step (fun _ => 7) wikiUris) wikiSession s ∧
      ∃ logout ∈ s.logouts, logout.stage = .completed ∧ logout.request.Ends ⟨7, "s"⟩ ∧
        ¬ParticipantsNotified wikiUris s "s" := by
  constructor
  · have hrun : (run (step (fun _ => 7) wikiUris) (fun _ _ => true) wikiSession
        [.arrive (logoutOf true), .act 0 true []]).any (fun s =>
          decide (s.logouts = [⟨logoutOf true, wikiStore, .completed⟩] ∧
            s.revokedTokens = [])) = true := by decide +kernel
    obtain ⟨s, hreached, htest⟩ := exists_reaches_of_run (fun _ _ _ => trivial) hrun
    obtain ⟨hlogouts, hrevoked⟩ := of_decide_eq_true htest
    refine ⟨s, hreached, ⟨logoutOf true, wikiStore, .completed⟩,
      hlogouts ▸ List.mem_singleton_self _, rfl, .inl rfl, fun htokens => ?_⟩
    have hmem := htokens ⟨1, some 1⟩ (List.mem_singleton_self _)
      ⟨⟨1, 7, some "s"⟩, List.mem_singleton_self _, rfl, rfl⟩
    rw [hrevoked] at hmem
    exact absurd hmem List.not_mem_nil
  · have hrun : (run (step (fun _ => 7) wikiUris) (fun _ _ => true) wikiSession
        [.recordAsync "s" "chat" 7, .record 0 true, .arrive (logoutOf false), .act 0 true [],
          .act 0 true [], .record 0 true, .act 0 true [1], .act 0 true [1], .act 0 true [],
          .act 0 true [], .act 0 true [], .act 0 true []]).any (fun s =>
          decide (s.logouts = [⟨logoutOf false, wikiStore, .completed⟩] ∧
            ("s", "chat") ∈ s.joined ∧ s.hasRow "s" "chat" = false ∧
            ("s", "chat") ∉ s.frontchannel)) = true := by decide +kernel
    obtain ⟨s, hreached, htest⟩ := exists_reaches_of_run (fun _ _ _ => trivial) hrun
    obtain ⟨hlogouts, hjoined, hrow, hlisted⟩ := of_decide_eq_true htest
    refine ⟨s, hreached, ⟨logoutOf false, wikiStore, .completed⟩,
      hlogouts ▸ List.mem_singleton_self _, rfl, .inl rfl, fun hnotified => ?_⟩
    rcases hnotified "chat" hjoined with hkept | hrecipient
    · rw [hrow] at hkept
      cases hkept
    · exact absurd (hrecipient.frontchannel rfl) hlisted

end SingleLogout

end Wallow.Identity
