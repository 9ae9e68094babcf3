import Wallow.Identity.Deactivation

/-!
# Exchanges during a deactivation

Once `DeactivateUserAsync` is complete the user has no valid token, where no exchange was under way
when the tokens were read: a token is revoked or has changed since, and an exchange that comes later
finds its ad-hoc authorization revoked.
-/

namespace Wallow.Identity

open Transition

namespace UserTokens

section Proofs

variable {s s' : UserTokens}

/-! ## Entries -/

/-- Every entry is still there, and one that is valid has not changed. -/
def Ages (s s' : UserTokens) : Prop :=
  ∀ (id : Nat) (entry : TokenEntry), s.tokens[id]? = some entry →
    ∃ entry' : TokenEntry, s'.tokens[id]? = some entry' ∧
      (entry'.status = .valid → entry' = entry)

/-- The token is not valid and will not be. -/
def Gone (s : UserTokens) (id : Nat) : Prop :=
  ∃ entry : TokenEntry, s.tokens[id]? = some entry ∧ entry.status ≠ .valid

/-- The token is as it was read, or is not valid. -/
def Fresh (s : UserTokens) (read : ReadToken) : Prop :=
  ∃ entry : TokenEntry, s.tokens[read.id]? = some entry ∧
    (entry.status = .valid → entry.version = read.version ∧ read.status ≠ .revoked)

theorem Ages.of_tokens_eq (h : s'.tokens = s.tokens) : Ages s s' := fun _ entry hentry =>
  ⟨entry, h ▸ hentry, fun _ => rfl⟩

theorem Ages.gone (h : Ages s s') {id : Nat} (hgone : Gone s id) : Gone s' id := by
  obtain ⟨entry, hentry, hstatus⟩ := hgone
  obtain ⟨entry', hentry', hsame⟩ := h id entry hentry
  exact ⟨entry', hentry', fun hvalid => hstatus (hsame hvalid ▸ hvalid)⟩

theorem Ages.fresh (h : Ages s s') {read : ReadToken} (hfresh : Fresh s read) : Fresh s' read := by
  obtain ⟨entry, hentry, hread⟩ := hfresh
  obtain ⟨entry', hentry', hsame⟩ := h read.id entry hentry
  refine ⟨entry', hentry', fun hvalid => ?_⟩
  obtain rfl := hsame hvalid
  exact hread hvalid

theorem fresh_readToken {id : Nat} {read : ReadToken} (h : s.readToken id = some read) :
    read.id = id ∧ Fresh s read := by
  obtain ⟨entry, hentry, rfl⟩ := Option.map_eq_some_iff.mp h
  refine ⟨rfl, entry, hentry, fun hvalid => ⟨rfl, fun hrevoked => ?_⟩⟩
  rw [hvalid] at hrevoked
  cases hrevoked

theorem setStatus_eq {read : ReadToken} {status : TokenStatus} {entry : TokenEntry}
    (hentry : s.tokens[read.id]? = some entry) :
    s.setStatus read status = if entry.version = read.version then
      { s with
        tokens := s.tokens.set read.id
          { entry with status := status, version := entry.version + 1 } }
      else s := by
  rw [setStatus, hentry]

/-- The update changes the entry that was read, or nothing. -/
theorem setStatus_cases (s : UserTokens) (read : ReadToken) (status : TokenStatus) :
    s.setStatus read status = s ∨ ∃ new : TokenEntry, read.id < s.tokens.length ∧
      new.status = status ∧
        s.setStatus read status = { s with tokens := s.tokens.set read.id new } := by
  cases hentry : s.tokens[read.id]? with
  | none => exact .inl (by rw [setStatus, hentry])
  | some entry =>
    rw [setStatus_eq hentry]
    split
    · exact .inr ⟨_, (List.getElem?_eq_some_iff.mp hentry).1, rfl, rfl⟩
    · exact .inl rfl

theorem setStatus_ages (s : UserTokens) (read : ReadToken) {status : TokenStatus}
    (hstatus : status ≠ .valid) : Ages s (s.setStatus read status) := by
  intro id entry hentry
  rcases setStatus_cases s read status with heq | ⟨new, hlt, hnew, heq⟩
  · rw [heq]
    exact ⟨entry, hentry, fun _ => rfl⟩
  · rw [heq]
    by_cases hid : read.id = id
    · subst hid
      exact ⟨new, List.getElem?_set_self hlt, fun hvalid => absurd (hnew.symm.trans hvalid) hstatus⟩
    · exact ⟨entry, (List.getElem?_set_ne hid).trans hentry, fun _ => rfl⟩

theorem tryRevoke_ages (s : UserTokens) (read : ReadToken) : Ages s (s.tryRevoke read) := by
  unfold tryRevoke
  split
  · exact .of_tokens_eq rfl
  · exact setStatus_ages s read fun hvalid => nomatch hvalid

/-- A token that was read is not valid after the attempt: it is revoked, or it has changed. -/
theorem gone_tryRevoke {read : ReadToken} (h : Fresh s read) : Gone (s.tryRevoke read) read.id := by
  obtain ⟨entry, hentry, hread⟩ := h
  by_cases hvalid : entry.status = .valid
  · obtain ⟨hversion, hstatus⟩ := hread hvalid
    have hlt := (List.getElem?_eq_some_iff.mp hentry).1
    rw [tryRevoke, if_neg hstatus, setStatus_eq hentry, if_pos hversion]
    exact ⟨_, List.getElem?_set_self hlt, fun hrevoked => nomatch hrevoked⟩
  · exact (tryRevoke_ages s read).gone ⟨entry, hentry, hvalid⟩

theorem storeToken_ages (s : UserTokens) (exchange : TokenExchange) (kind : TokenKind) :
    Ages s (s.storeToken exchange kind) := by
  intro id entry hentry
  have hlt := (List.getElem?_eq_some_iff.mp hentry).1
  exact ⟨entry, (List.getElem?_append_left hlt).trans hentry, fun _ => rfl⟩

/-! ## The invariant -/

/-- The ad-hoc authorizations that are valid are among those to come. -/
def AdHocPending (s : UserTokens) (rest : List Nat) : Prop :=
  ∀ (id : Nat) (entry : AuthorizationEntry), s.authorizations[id]? = some entry →
    entry.adHoc = true → entry.valid = true → id ∈ rest

/-- Every valid token is among those to come. -/
def Covered (s : UserTokens) (tokens : List ReadToken) : Prop :=
  ∀ (id : Nat) (entry : TokenEntry), s.tokens[id]? = some entry → entry.status = .valid →
    ∃ read ∈ tokens, read.id = id

/-- No exchange is under way, and none finds a valid ad-hoc authorization. -/
structure Closed (s : UserTokens) : Prop where
  adHoc : AdHocPending s []
  exchanges : ∀ exchange ∈ s.exchanges, isUnderWay exchange.stage = false

def StageInv (s : UserTokens) : DeactivationStage → Prop
  | .idle | .userFound | .lockoutEnabled | .lockedOut | .failed => True
  | .authorizations rest revokedTokenIds =>
    AdHocPending s rest ∧ ∀ id ∈ revokedTokenIds, Gone s id
  | .authorizationTokens authorization tokens rest revokedTokenIds =>
    AdHocPending s (authorization :: rest) ∧ (∀ read ∈ tokens, Fresh s read) ∧
      ∀ id ∈ revokedTokenIds, Gone s id
  | .tokens tokens revokedTokenIds =>
    Closed s ∧ Covered s tokens ∧ (∀ read ∈ tokens, Fresh s read) ∧
      ∀ id ∈ revokedTokenIds, Gone s id
  | .disconnecting | .completed => Closed s ∧ Covered s []

/-- Nothing is owed once the user is active again. -/
def Inv (s : UserTokens) : Prop := s.reactivated = true ∨ StageInv s s.deactivation

/-- Before the tokens are read an exchange may do as it likes. -/
theorem StageInv.of_ages {stage : DeactivationStage} (h : StageInv s stage) (hages : Ages s s')
    (hauthorizations : s'.authorizations = s.authorizations)
    (hread : hasReadTokens stage = false) : StageInv s' stage := by
  have hadHoc : ∀ {rest : List Nat}, AdHocPending s rest → AdHocPending s' rest := by
    intro rest hpending id entry hentry
    rw [hauthorizations] at hentry
    exact hpending id entry hentry
  cases stage with
  | authorizations rest revokedTokenIds =>
    obtain ⟨hpending, hgone⟩ := h
    exact ⟨hadHoc hpending, fun id hid => hages.gone (hgone id hid)⟩
  | authorizationTokens authorization tokens rest revokedTokenIds =>
    obtain ⟨hpending, hfresh, hgone⟩ := h
    exact ⟨hadHoc hpending, fun read hmem => hages.fresh (hfresh read hmem),
      fun id hid => hages.gone (hgone id hid)⟩
  | tokens tokens revokedTokenIds => cases hread
  | disconnecting => cases hread
  | completed => cases hread
  | idle => trivial
  | userFound => trivial
  | lockoutEnabled => trivial
  | lockedOut => trivial
  | failed => trivial

/-- From then on it is harmless where it changes no entry and does not get under way. -/
theorem StageInv.of_tokens_eq {stage : DeactivationStage} (h : StageInv s stage)
    (htokens : s'.tokens = s.tokens) (hauthorizations : s'.authorizations = s.authorizations)
    (hexchanges : Closed s → ∀ exchange ∈ s'.exchanges, isUnderWay exchange.stage = false) :
    StageInv s' stage := by
  have hages : Ages s s' := .of_tokens_eq htokens
  have hclosed : Closed s → Closed s' := fun hclosed => by
    refine ⟨fun id entry hentry => ?_, hexchanges hclosed⟩
    rw [hauthorizations] at hentry
    exact hclosed.adHoc id entry hentry
  have hcovered : ∀ {tokens : List ReadToken}, Covered s tokens → Covered s' tokens := by
    intro tokens hcovered id entry hentry
    rw [htokens] at hentry
    exact hcovered id entry hentry
  by_cases hread : hasReadTokens stage = true
  · cases stage with
    | tokens tokens revokedTokenIds =>
      obtain ⟨hc, hcov, hfresh, hgone⟩ := h
      exact ⟨hclosed hc, hcovered hcov, fun read hmem => hages.fresh (hfresh read hmem),
        fun id hid => hages.gone (hgone id hid)⟩
    | disconnecting => exact ⟨hclosed h.1, hcovered h.2⟩
    | completed => exact ⟨hclosed h.1, hcovered h.2⟩
    | _ => cases hread
  · exact h.of_ages hages hauthorizations (Bool.not_eq_true _ ▸ hread)

/-! ## Steps of the deactivation -/

theorem adHocPending_adHocAuthorizations {order : List Nat}
    (h : order.Perm s.adHocAuthorizations) : AdHocPending s order := by
  intro id entry hentry hadHoc _
  have hlt := (List.getElem?_eq_some_iff.mp hentry).1
  refine h.mem_iff.mpr (List.mem_filter.mpr ⟨List.mem_range.mpr hlt, decide_eq_true ?_⟩)
  rw [hentry, Option.map_some, hadHoc]

theorem AdHocPending.revoke {authorization : Nat} {rest : List Nat}
    (h : AdHocPending s (authorization :: rest)) :
    AdHocPending (s.revokeAuthorization authorization) rest := by
  intro id entry hentry hadHoc hvalid
  have hentry' : (s.authorizations.modify authorization
      fun entry => { entry with valid := false })[id]? = some entry := hentry
  rw [List.getElem?_modify] at hentry'
  obtain ⟨old, hold, hnew⟩ := Option.map_eq_some_iff.mp hentry'
  split at hnew
  · subst hnew
    cases hvalid
  · rename_i hne
    have hsame : old = entry := hnew
    subst hsame
    rcases List.mem_cons.mp (h id old hold hadHoc hvalid) with heq | hrest
    · exact absurd heq.symm hne
    · exact hrest

theorem fresh_of_read {order : List Nat} :
    ∀ read ∈ order.filterMap s.readToken, Fresh s read := by
  intro read hmem
  obtain ⟨id, -, hread⟩ := List.mem_filterMap.mp hmem
  exact (fresh_readToken hread).2

theorem covered_of_read {order : List Nat} (h : order.Perm (List.range s.tokens.length)) :
    Covered s (order.filterMap s.readToken) := by
  intro id entry hentry _
  have hlt := (List.getElem?_eq_some_iff.mp hentry).1
  have hread : s.readToken id = some ⟨id, entry.status, entry.version⟩ := by
    rw [readToken, hentry, Option.map_some]
  exact ⟨_, List.mem_filterMap.mpr ⟨id, h.mem_iff.mpr (List.mem_range.mpr hlt), hread⟩, rfl⟩

/-- A token that is not valid is covered without being read. -/
theorem Covered.drop {read : ReadToken} {tokens : List ReadToken}
    (h : Covered s (read :: tokens)) (hgone : Gone s read.id) : Covered s tokens := by
  intro id entry hentry hvalid
  obtain ⟨other, hother, rfl⟩ := h id entry hentry hvalid
  rcases List.mem_cons.mp hother with rfl | hmem
  · obtain ⟨entry', hentry', hstatus⟩ := hgone
    rw [hentry, Option.some.injEq] at hentry'
    exact absurd (hentry' ▸ hvalid) hstatus
  · exact ⟨other, hmem, rfl⟩

/-- An update of one entry makes no other one valid. -/
theorem Covered.setStatus {tokens : List ReadToken} (h : Covered s tokens) (read : ReadToken)
    {status : TokenStatus} (hstatus : status ≠ .valid) :
    Covered (s.setStatus read status) tokens := by
  intro id entry hentry hvalid
  rcases setStatus_cases s read status with heq | ⟨new, hlt, hnew, heq⟩
  · exact h id entry (heq ▸ hentry) hvalid
  · rw [heq] at hentry
    by_cases hid : read.id = id
    · subst hid
      have hset := hentry.symm.trans (List.getElem?_set_self hlt)
      rw [Option.some.inj hset, hnew] at hvalid
      exact absurd hvalid hstatus
    · exact h id entry ((List.getElem?_set_ne hid).symm.trans hentry) hvalid

theorem Covered.tryRevoke {tokens : List ReadToken} (h : Covered s tokens) (read : ReadToken) :
    Covered (s.tryRevoke read) tokens := by
  unfold UserTokens.tryRevoke
  split
  · exact h
  · exact h.setStatus read fun hvalid => nomatch hvalid

@[simp] theorem setStatus_authorizations (s : UserTokens) (read : ReadToken)
    (status : TokenStatus) : (s.setStatus read status).authorizations = s.authorizations := by
  rcases setStatus_cases s read status with heq | ⟨new, -, -, heq⟩
  · rw [heq]
  · rw [heq]

@[simp] theorem setStatus_exchanges (s : UserTokens) (read : ReadToken) (status : TokenStatus) :
    (s.setStatus read status).exchanges = s.exchanges := by
  rcases setStatus_cases s read status with heq | ⟨new, -, -, heq⟩
  · rw [heq]
  · rw [heq]

@[simp] theorem setStatus_deactivation (s : UserTokens) (read : ReadToken)
    (status : TokenStatus) : (s.setStatus read status).deactivation = s.deactivation := by
  rcases setStatus_cases s read status with heq | ⟨new, -, -, heq⟩
  · rw [heq]
  · rw [heq]

@[simp] theorem setStatus_reactivated (s : UserTokens) (read : ReadToken)
    (status : TokenStatus) : (s.setStatus read status).reactivated = s.reactivated := by
  rcases setStatus_cases s read status with heq | ⟨new, -, -, heq⟩
  · rw [heq]
  · rw [heq]

theorem tryRevoke_authorizations (s : UserTokens) (read : ReadToken) :
    (s.tryRevoke read).authorizations = s.authorizations := by
  unfold tryRevoke
  split
  · rfl
  · exact setStatus_authorizations s read .revoked

theorem tryRevoke_exchanges (s : UserTokens) (read : ReadToken) :
    (s.tryRevoke read).exchanges = s.exchanges := by
  unfold tryRevoke
  split
  · rfl
  · exact setStatus_exchanges s read .revoked

theorem AdHocPending.tryRevoke {rest : List Nat} (h : AdHocPending s rest) (read : ReadToken) :
    AdHocPending (s.tryRevoke read) rest := by
  intro id entry hentry
  rw [tryRevoke_authorizations] at hentry
  exact h id entry hentry

theorem Closed.tryRevoke (h : Closed s) (read : ReadToken) : Closed (s.tryRevoke read) where
  adHoc := h.adHoc.tryRevoke read
  exchanges exchange hmem := h.exchanges exchange (tryRevoke_exchanges s read ▸ hmem)

theorem Closed.enterDeactivation (h : Closed s) (stage : DeactivationStage) :
    Closed (s.enterDeactivation stage) := ⟨h.adHoc, h.exchanges⟩

/-- One token after the other: what was skipped is not valid, and neither is what was tried. -/
theorem gone_cons_tryRevoke {read : ReadToken} {revokedTokenIds : List Nat}
    (hfresh : Fresh s read) (hgone : ∀ id ∈ revokedTokenIds, Gone s id) :
    ∀ id ∈ read.id :: revokedTokenIds, Gone (s.tryRevoke read) id := by
  intro id hid
  rcases List.mem_cons.mp hid with rfl | hold
  · exact gone_tryRevoke hfresh
  · exact (tryRevoke_ages s read).gone (hgone id hold)

theorem stageInv_deactivate {saved : Bool} {order : List Nat}
    (h : StageInv s s.deactivation) (horderly : s.orderly (.deactivate saved order) = true)
    (hstep : s.deactivate saved order = some s') : StageInv s' s'.deactivation := by
  unfold deactivate at hstep
  unfold orderly at horderly
  split at hstep <;> rename_i hstage <;> rw [hstage] at h horderly
  · cases hstep
    cases s.user.isSome <;> trivial
  · cases hstep
    trivial
  · cases hstep
    trivial
  · rw [Option.ite_none_right_eq_some] at hstep
    obtain ⟨horder, hstep⟩ := hstep
    cases hstep
    exact ⟨adHocPending_adHocAuthorizations horder, fun id hid => absurd hid List.not_mem_nil⟩
  · rw [Option.ite_none_right_eq_some] at hstep
    obtain ⟨-, hstep⟩ := hstep
    cases hstep
    exact ⟨h.1, fresh_of_read, h.2⟩
  · rename_i read tokens rest revokedTokenIds
    obtain ⟨hpending, hfresh, hgone⟩ := h
    obtain ⟨hread, htokens⟩ := List.forall_mem_cons.mp hfresh
    dsimp only at hstep
    split at hstep
    · cases hstep
      exact ⟨hpending, htokens, hgone⟩
    · cases hstep
      exact ⟨hpending.tryRevoke read,
        fun other hother => (tryRevoke_ages s read).fresh (htokens other hother),
        gone_cons_tryRevoke hread hgone⟩
  · cases hstep
    exact ⟨h.1.revoke, h.2.2⟩
  · rw [Option.ite_none_right_eq_some] at hstep
    obtain ⟨horder, hstep⟩ := hstep
    cases hstep
    simp only [List.all_eq_true, Bool.not_eq_true'] at horderly
    exact ⟨⟨h.1, horderly⟩, covered_of_read horder, fresh_of_read, h.2⟩
  · rename_i read tokens revokedTokenIds
    obtain ⟨hclosed, hcovered, hfresh, hgone⟩ := h
    obtain ⟨hread, htokens⟩ := List.forall_mem_cons.mp hfresh
    split at hstep
    · rename_i hknown
      cases hstep
      exact ⟨hclosed.enterDeactivation _, hcovered.drop (hgone _ hknown), htokens, hgone⟩
    · cases hstep
      exact ⟨(hclosed.tryRevoke read).enterDeactivation _,
        (hcovered.tryRevoke read).drop (gone_tryRevoke hread),
        fun other hother => (tryRevoke_ages s read).fresh (htokens other hother),
        gone_cons_tryRevoke hread hgone⟩
  · cases hstep
    exact ⟨h.1.enterDeactivation _, h.2.1⟩
  · cases hstep
    exact ⟨h.1.enterDeactivation _, h.2⟩
  · cases hstep
  · cases hstep

/-! ## Steps of an exchange -/

theorem isUnderWay_set {i : Nat} {exchange : TokenExchange} {stage : ExchangeStage}
    (hall : ∀ other ∈ s.exchanges, isUnderWay other.stage = false)
    (hstage : isUnderWay stage = false) :
    ∀ other ∈ (s.enterExchange i exchange stage).exchanges, isUnderWay other.stage = false := by
  intro other hmem
  rcases List.mem_or_eq_of_mem_set hmem with hold | rfl
  · exact hall other hold
  · exact hstage

/-- The calls of an exchange that change an entry, all of them of one that is under way. -/
theorem exchangeNext_ages {i : Nat} {accepted : Bool} {exchange : TokenExchange}
    (hstep : s.exchangeNext i accepted exchange = some s') :
    Ages s s' ∧ s'.authorizations = s.authorizations ∧ s'.deactivation = s.deactivation ∧
      s'.reactivated = s.reactivated := by
  unfold exchangeNext at hstep
  split at hstep
  · cases hstep
    exact ⟨.of_tokens_eq rfl, rfl, rfl, rfl⟩
  · cases hstep
    exact ⟨.of_tokens_eq rfl, rfl, rfl, rfl⟩
  · cases hstep
    exact ⟨.of_tokens_eq rfl, rfl, rfl, rfl⟩
  · cases hstep
    exact ⟨.of_tokens_eq rfl, rfl, rfl, rfl⟩
  · rename_i read _
    cases hstep
    exact ⟨setStatus_ages s read (fun hvalid => nomatch hvalid),
      setStatus_authorizations s read .redeemed, setStatus_deactivation s read .redeemed,
      setStatus_reactivated s read .redeemed⟩
  · cases hstep
    exact ⟨storeToken_ages s exchange .accessToken, rfl, rfl, rfl⟩
  · cases hstep
    exact ⟨storeToken_ages s exchange .refreshToken, rfl, rfl, rfl⟩
  · cases hstep
  · cases hstep

/-- An exchange that is not under way changes no entry, and with every ad-hoc authorization revoked
it does not get under way. -/
theorem exchangeNext_closed {i : Nat} {accepted : Bool} {exchange : TokenExchange}
    (hclosed : Closed s) (hmem : exchange ∈ s.exchanges)
    (hadHoc : ∀ read, exchange.stage = .tokenAccepted read →
      s.isUnderAdHocAuthorization exchange.token = true)
    (hstep : s.exchangeNext i accepted exchange = some s') :
    s'.tokens = s.tokens ∧
      ∀ other ∈ s'.exchanges, isUnderWay other.stage = false := by
  have hnot := hclosed.exchanges exchange hmem
  unfold exchangeNext at hstep
  split at hstep <;> rename_i hstage
  · cases hstep
    refine ⟨rfl, isUnderWay_set hclosed.exchanges ?_⟩
    split
    · rfl
    · split <;> rfl
  · cases hstep
    refine ⟨rfl, isUnderWay_set hclosed.exchanges ?_⟩
    have hunder := hadHoc _ hstage
    unfold isUnderAdHocAuthorization at hunder
    split
    · rename_i hnone
      rw [hnone] at hunder
      cases hunder
    · rename_i authorization hsome
      rw [hsome] at hunder
      obtain ⟨entry, hentry, hkind⟩ := Option.map_eq_some_iff.mp (of_decide_eq_true hunder)
      split
      · rename_i hvalid
        rw [hentry, Option.map_some, Option.some.injEq] at hvalid
        exact absurd (hclosed.adHoc authorization entry hentry hkind hvalid) List.not_mem_nil
      · rfl
  iterate 5
    · rw [hstage] at hnot
      cases hnot
  · cases hstep
  · cases hstep

theorem Inv.exchangeNext {i : Nat} {accepted : Bool} {exchange : TokenExchange} (h : Inv s)
    (hexchange : s.exchanges[i]? = some exchange)
    (horderly : s.orderly (.exchange i accepted) = true)
    (hstep : s.exchangeNext i accepted exchange = some s') : Inv s' := by
  obtain ⟨hages, hauthorizations, hdeactivation, hreactivated⟩ := exchangeNext_ages hstep
  rcases h with hactive | hstage
  · exact .inl (hreactivated.trans hactive)
  · by_cases hactive : s.reactivated = true
    · exact .inl (hreactivated.trans hactive)
    · refine .inr (hdeactivation ▸ ?_)
      by_cases hread : hasReadTokens s.deactivation = true
      · have hadHoc : ∀ read, exchange.stage = .tokenAccepted read →
            s.isUnderAdHocAuthorization exchange.token = true := by
          intro read haccepted
          simp only [orderly, hexchange, haccepted, hread, Bool.not_true, Bool.false_or,
            Bool.or_eq_true] at horderly
          exact horderly.resolve_left hactive
        have hclosed : Closed s := by
          cases hs : s.deactivation with
          | tokens tokens revokedTokenIds => exact (hs ▸ hstage : StageInv s (.tokens _ _)).1
          | disconnecting => exact (hs ▸ hstage : StageInv s .disconnecting).1
          | completed => exact (hs ▸ hstage : StageInv s .completed).1
          | _ =>
            rw [hs] at hread
            cases hread
        obtain ⟨htokens, hexchanges⟩ :=
          exchangeNext_closed hclosed (List.mem_of_getElem? hexchange) hadHoc hstep
        exact hstage.of_tokens_eq htokens hauthorizations fun _ => hexchanges
      · exact hstage.of_ages hages hauthorizations (Bool.not_eq_true _ ▸ hread)

/-! ## Runs -/

theorem Inv.of_tokens_eq (h : Inv s) (htokens : s'.tokens = s.tokens)
    (hauthorizations : s'.authorizations = s.authorizations)
    (hdeactivation : s'.deactivation = s.deactivation)
    (hreactivated : s.reactivated = true → s'.reactivated = true)
    (hexchanges : Closed s → ∀ exchange ∈ s'.exchanges, isUnderWay exchange.stage = false) :
    Inv s' := by
  refine h.imp hreactivated fun hstage => ?_
  rw [hdeactivation]
  exact hstage.of_tokens_eq htokens hauthorizations hexchanges

theorem deactivate_reactivated {saved : Bool} {order : List Nat}
    (hstep : s.deactivate saved order = some s') : s'.reactivated = s.reactivated := by
  have htry : ∀ read, (s.tryRevoke read).reactivated = s.reactivated := by
    intro read
    unfold tryRevoke
    split
    · rfl
    · exact setStatus_reactivated s read .revoked
  have hquery : ∀ {condition : Prop} [Decidable condition] {stage : DeactivationStage},
      (if condition then some (s.enterDeactivation stage) else none) = some s' →
        s'.reactivated = s.reactivated := by
    intro condition _ stage hif
    rw [Option.ite_none_right_eq_some] at hif
    rw [← Option.some.inj hif.2]
    rfl
  unfold deactivate at hstep
  split at hstep
  · cases hstep
    rfl
  · cases hstep
    rfl
  · cases hstep
    rfl
  · exact hquery hstep
  · exact hquery hstep
  · dsimp only at hstep
    split at hstep
    · cases hstep
      rfl
    · cases hstep
      exact htry _
  · cases hstep
    rfl
  · exact hquery hstep
  · split at hstep
    · cases hstep
      rfl
    · cases hstep
      exact htry _
  · cases hstep
    rfl
  · cases hstep
    rfl
  · cases hstep
  · cases hstep

/-- The step: an orderly one keeps the invariant. -/
theorem Inv.step {move : UserMove} (h : Inv s) (horderly : s.orderly move = true)
    (hstep : s.step move = some s') : Inv s' := by
  cases move with
  | deactivate saved order =>
    exact h.imp (fun hactive => (deactivate_reactivated hstep).trans hactive) fun hstage =>
      stageInv_deactivate hstage horderly hstep
  | abortDeactivation =>
    rw [UserTokens.step] at hstep
    split at hstep
    · cases hstep
    · cases hstep
    · cases hstep
      exact h.imp_right fun _ => trivial
  | present token organizationId offlineAccess =>
    cases hstep
    refine h.of_tokens_eq rfl rfl rfl id fun hclosed exchange hmem => ?_
    rcases List.mem_append.mp hmem with hold | hnew
    · exact hclosed.exchanges exchange hold
    · rw [List.mem_singleton.mp hnew]
      rfl
  | exchange i accepted =>
    obtain ⟨exchange, hexchange, hnext⟩ := Option.bind_eq_some_iff.mp hstep
    exact h.exchangeNext hexchange horderly hnext
  | abortExchange i =>
    obtain ⟨exchange, -, rfl⟩ := Option.map_eq_some_iff.mp hstep
    exact h.of_tokens_eq rfl rfl rfl id fun hclosed => isUnderWay_set hclosed.exchanges rfl
  | activateUser =>
    cases hstep
    refine h.of_tokens_eq rfl rfl rfl (fun hactive => ?_) fun hclosed => hclosed.exchanges
    exact Bool.or_eq_true_iff.mpr (.inl hactive)
  | setMemberships activeMemberships =>
    cases hstep
    exact h.of_tokens_eq rfl rfl rfl id fun hclosed => hclosed.exchanges

end Proofs

/-- The run: once the deactivation is complete, and until the user is active again, no token of the
user is valid. -/
theorem no_valid_token_of_orderly_run {s₀ s : UserTokens} {moves : List UserMove}
    (h₀ : s₀.deactivation = .idle) (h : run step orderly s₀ moves = some s)
    (hcompleted : s.deactivation = .completed) (hinactive : s.reactivated = false) :
    ∀ token ∈ s.tokens, token.status ≠ .valid := by
  have hinit : Inv s₀ := .inr (h₀ ▸ trivial)
  have hreached : Reaches step (fun a move => a.orderly move = true) s₀ s :=
    reaches_of_run (fun _ _ hcheck => hcheck) h
  have hinv : Inv s := hreached.invariant Inv hinit
    fun _ _ _ ha horderly hstep => ha.step horderly hstep
  intro token hmem hvalid
  rcases hinv with hactive | hstage
  · rw [hinactive] at hactive
    cases hactive
  · rw [hcompleted] at hstage
    obtain ⟨id, hid⟩ := List.getElem?_of_mem hmem
    obtain ⟨read, hread, -⟩ := hstage.2 id token hid hvalid
    exact absurd hread List.not_mem_nil

/-! ## Two runs -/

/-- A user with one refresh token. -/
def withRefreshToken : UserTokens where
  user := some ⟨true, false, false⟩
  activeMemberships := []
  authorizations := [⟨true, true⟩]
  tokens := [⟨.refreshToken, some 0, .valid, 0⟩]
  deactivation := .idle
  reactivated := false
  exchanges := []

/-- All calls of a deactivation of this user. -/
def deactivateUser : List UserMove := [
  .deactivate true [], .deactivate true [], .deactivate true [], .deactivate true [0],
  .deactivate true [0], .deactivate true [], .deactivate true [], .deactivate true [0],
  .deactivate true [], .deactivate true [], .deactivate true []]

/-- An exchange that comes after the deactivation. -/
theorem no_valid_token_of_late_exchange :
    ∃ s, run step orderly withRefreshToken
        (deactivateUser ++ [.present 0 none true, .exchange 0 true]) = some s ∧
      s.deactivation = .completed ∧ ∀ token ∈ s.tokens, token.status ≠ .valid := by
  have hrun : (run step orderly withRefreshToken
      (deactivateUser ++ [.present 0 none true, .exchange 0 true])).any (fun s =>
        decide (s.deactivation = .completed ∧ s.reactivated = false)) = true := by decide +kernel
  cases hs : run step orderly withRefreshToken
      (deactivateUser ++ [.present 0 none true, .exchange 0 true]) with
  | none =>
    rw [hs] at hrun
    cases hrun
  | some s =>
    rw [hs] at hrun
    obtain ⟨hcompleted, hinactive⟩ := of_decide_eq_true hrun
    exact ⟨s, rfl, hcompleted, no_valid_token_of_orderly_run rfl hs hcompleted hinactive⟩

/-- An exchange that was validated before the deactivation: its access token is valid after it. -/
theorem valid_token_after_deactivation :
    ∃ s, Reachable step withRefreshToken s ∧ s.deactivation = .completed ∧
      s.reactivated = false ∧ s.user.map AccountUser.lockedOut = some true ∧
      ∃ token ∈ s.tokens, token.kind = .accessToken ∧ token.status = .valid := by
  have hrun : (run step (fun _ _ => true) withRefreshToken
      ([.present 0 none true, .exchange 0 true, .exchange 0 true] ++ deactivateUser ++
        [.exchange 0 true, .exchange 0 true, .exchange 0 true, .exchange 0 true])).any (fun s =>
        decide (s.deactivation = .completed ∧ s.reactivated = false ∧
          s.user.map AccountUser.lockedOut = some true ∧
          ⟨.accessToken, some 0, .valid, 0⟩ ∈ s.tokens)) = true := by decide +kernel
  obtain ⟨s, hreached, htest⟩ := exists_reaches_of_run (fun _ _ _ => trivial) hrun
  obtain ⟨hcompleted, hinactive, hlocked, hmem⟩ := of_decide_eq_true htest
  exact ⟨s, hreached, hcompleted, hinactive, hlocked, _, hmem, rfl, rfl⟩

end UserTokens

end Wallow.Identity
