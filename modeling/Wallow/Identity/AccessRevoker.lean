import Wallow.Api.GuidText
import Mathlib.Data.Set.Insert

/-!
# Revoking a membership

`AccessRevoker.RevokeMembershipAsync` with the managers it calls.  A row is written only where its
concurrency token is the one that was read, and a query is answered as a whole before the loop over
it starts.
-/

namespace Wallow.Identity.AccessRevoker

open Api

/-! ## The store -/

inductive EntryStatus
  | inactive
  | redeemed
  | rejected
  | revoked
  | valid
  deriving DecidableEq

/-- A row; each update changes its version. -/
structure Entry (α : Type) where
  data : α
  status : EntryStatus
  version : Nat

structure TokenData where
  subject : Option String
  applicationId : Option Nat
  authorizationId : Option Nat
  deriving DecidableEq

/-- The organization is the text of the property, where there is one. -/
structure AuthorizationData where
  subject : Option String
  organizationId : Option String
  deriving DecidableEq

structure ApplicationData where
  tenantId : Option String
  deriving DecidableEq

/-- The rows; an id is the place of a row. -/
structure OidcEntries where
  tokens : List (Entry TokenData)
  authorizations : List (Entry AuthorizationData)
  applications : List ApplicationData

/-- The order in which the database answers the rows of a query. -/
structure RowOrder where
  arrange : {α : Type} → List α → List α
  mem_arrange : ∀ {α : Type} (rows : List α) (row : α), row ∈ arrange rows ↔ row ∈ rows

def AuthorizationData.getOrganizationId (authorization : AuthorizationData) : Option TenantId :=
  authorization.organizationId.bind fun text => tryParse text.toList

section

variable {α : Type}

/-- A revoked row. -/
def Entry.revoke (entry : Entry α) : Entry α :=
  if entry.status = .revoked then entry
  else { entry with status := .revoked, version := entry.version + 1 }

/-- `TryRevokeAsync` on a row as it was read, whose result is not looked at. -/
def tryRevoke (entries : List (Entry α)) (read : Entry α × Nat) : List (Entry α) :=
  if read.1.status = .revoked then entries
  else
    match entries[read.2]? with
    | none => entries
    | some entry =>
      if entry.version = read.1.version then
        entries.set read.2 { entry with status := .revoked, version := entry.version + 1 }
      else entries

/-- `FindBySubjectAsync` and `FindByAuthorizationIdAsync`: the rows with their ids. -/
def find (order : RowOrder) (entries : List (Entry α)) (matching : α → Bool) :
    List (Entry α × Nat) :=
  order.arrange (entries.zipIdx.filter fun read => matching read.1.data)

end

/-! ## `RevokeMembershipAsync` -/

/-- The store and the tokens tried so far. -/
structure Revoking where
  store : OidcEntries
  revokedTokenIds : List Nat

def revokeToken (s : Revoking) (token : Entry TokenData × Nat) : Revoking :=
  if token.2 ∈ s.revokedTokenIds then s
  else ⟨{ s.store with tokens := tryRevoke s.store.tokens token }, token.2 :: s.revokedTokenIds⟩

def revokeAuthorizationWithTokens (order : RowOrder) (s : Revoking)
    (authorization : Entry AuthorizationData × Nat) : Revoking :=
  let tokens := find order s.store.tokens (·.authorizationId = some authorization.2)
  let s := tokens.foldl revokeToken s
  { s with
    store := { s.store with
      authorizations := tryRevoke s.store.authorizations authorization } }

def revokeByAuthorization (order : RowOrder) (subject : String) (organizationId : TenantId)
    (s : Revoking) : Revoking :=
  (find order s.store.authorizations (·.subject = some subject)).foldl
    (fun s authorization =>
      if authorization.1.data.getOrganizationId ≠ some organizationId then s
      else revokeAuthorizationWithTokens order s authorization) s

def belongsToOrganization (store : OidcEntries) (applicationId : Nat) (organizationId : TenantId) :
    Bool :=
  match store.applications[applicationId]? with
  | none => false
  | some application =>
    application.tenantId.bind (fun text => tryParse text.toList) = some organizationId

/-- The loop over the tokens, with what is known of the clients. -/
def revokeBound (organizationId : TenantId) (s : Revoking)
    (clientBelongsToOrganization : List (Nat × Bool)) : List (Entry TokenData × Nat) → Revoking
  | [] => s
  | token :: rest =>
    match token.1.data.applicationId with
    | none => revokeBound organizationId s clientBelongsToOrganization rest
    | some applicationId =>
      let (belongs, known) :=
        match clientBelongsToOrganization.lookup applicationId with
        | some belongs => (belongs, clientBelongsToOrganization)
        | none =>
          let belongs := belongsToOrganization s.store applicationId organizationId
          (belongs, (applicationId, belongs) :: clientBelongsToOrganization)
      revokeBound organizationId (if belongs then revokeToken s token else s) known rest

def revokeByClientBinding (order : RowOrder) (subject : String) (organizationId : TenantId)
    (s : Revoking) : Revoking :=
  revokeBound organizationId s [] (find order s.store.tokens (·.subject = some subject))

/-- What a revocation leaves: the store, whose streams in which organization are closed, and the
number that is logged. -/
structure MembershipRevocation where
  store : OidcEntries
  disconnected : String × TenantId
  revokedTokenCount : Nat

def revokeMembership (order : RowOrder) (store : OidcEntries) (userId organizationId : TenantId) :
    MembershipRevocation :=
  let subject := userId.toString
  let s := revokeByAuthorization order subject organizationId ⟨store, []⟩
  let s := revokeByClientBinding order subject organizationId s
  ⟨s.store, (subject, organizationId), s.revokedTokenIds.length⟩

/-! ## Which rows are revoked -/

/-- The rows at these places are revoked, and the others are what they were. -/
structure RevokedAt {α : Type} (original entries : List (Entry α)) (ids : Set Nat) : Prop where
  revoked : ∀ id ∈ ids, entries[id]? = original[id]?.map Entry.revoke
  kept : ∀ id, id ∉ ids → entries[id]? = original[id]?

section

variable {α : Type} {original entries : List (Entry α)} {ids : Set Nat}

theorem Entry.revoke_data (entry : Entry α) : entry.revoke.data = entry.data := by
  unfold Entry.revoke
  split <;> rfl

theorem Entry.revoke_status (entry : Entry α) : entry.revoke.status = .revoked := by
  unfold Entry.revoke
  split
  · assumption
  · rfl

theorem RevokedAt.refl (entries : List (Entry α)) : RevokedAt entries entries ∅ where
  revoked id hid := absurd hid (Set.notMem_empty id)
  kept _ _ := rfl

theorem Entry.revoke_of_revoked {entry : Entry α} (h : entry.status = .revoked) :
    entry.revoke = entry := if_pos h

theorem Entry.revoke_of_not_revoked {entry : Entry α} (h : entry.status ≠ .revoked) :
    entry.revoke = { entry with status := .revoked, version := entry.version + 1 } := if_neg h

/-- Rows where one more row is the revoked one. -/
theorem RevokedAt.insert {others : List (Entry α)} {id : Nat} (h : RevokedAt original entries ids)
    (hhere : others[id]? = original[id]?.map Entry.revoke)
    (helsewhere : ∀ other, other ≠ id → others[other]? = entries[other]?) :
    RevokedAt original others (Insert.insert id ids) where
  revoked other hother := by
    by_cases hid : other = id
    · rw [hid, hhere]
    · rw [helsewhere other hid]
      exact h.revoked other (hother.resolve_left hid)
  kept other hother := by
    have hid : other ≠ id := fun hid => hother (.inl hid)
    rw [helsewhere other hid]
    exact h.kept other fun hin => hother (.inr hin)

/-- A row that is read as it was at first is revoked: where it has been updated since, it was to
revoke it. -/
theorem RevokedAt.tryRevoke {read : Entry α × Nat} (h : RevokedAt original entries ids)
    (hread : original[read.2]? = some read.1) :
    RevokedAt original (AccessRevoker.tryRevoke entries read) (Insert.insert read.2 ids) := by
  unfold AccessRevoker.tryRevoke
  by_cases hrevoked : read.1.status = .revoked
  · rw [if_pos hrevoked]
    refine h.insert ?_ fun _ _ => rfl
    by_cases hin : read.2 ∈ ids
    · exact h.revoked read.2 hin
    · rw [h.kept read.2 hin, hread, Option.map_some, Entry.revoke_of_revoked hrevoked]
  · rw [if_neg hrevoked]
    by_cases hin : read.2 ∈ ids
    · -- the version is that of the update, so that nothing is written
      have hnow := h.revoked read.2 hin
      rw [hread, Option.map_some, Entry.revoke_of_not_revoked hrevoked] at hnow
      rw [hnow]
      dsimp only
      rw [if_neg (Nat.succ_ne_self _)]
      refine h.insert (h.revoked read.2 hin) fun _ _ => rfl
    · have hnow := h.kept read.2 hin
      rw [hread] at hnow
      rw [hnow]
      dsimp only
      rw [if_pos rfl]
      refine h.insert ?_ fun other hother => List.getElem?_set_ne (Ne.symm hother)
      rw [hread, Option.map_some, Entry.revoke_of_not_revoked hrevoked,
        List.getElem?_set_self (List.getElem?_eq_some_iff.mp hnow).1]

theorem RevokedAt.data (h : RevokedAt original entries ids) (id : Nat) :
    entries[id]?.map Entry.data = original[id]?.map Entry.data := by
  by_cases hid : id ∈ ids
  · rw [h.revoked id hid, Option.map_map]
    congr 1
    funext entry
    exact entry.revoke_data
  · rw [h.kept id hid]

/-- The ids of the rows that were read and whose data are so. -/
def idsOf (reads : List (Entry α × Nat)) (P : α → Prop) : Set Nat :=
  {id | ∃ read ∈ reads, read.2 = id ∧ P read.1.data}

theorem idsOf_nil (P : α → Prop) : idsOf [] P = ∅ := by
  ext id
  simp only [idsOf, List.not_mem_nil, false_and, exists_false, Set.mem_ofPred_eq,
    Set.mem_empty_iff_false]

theorem idsOf_cons_of_pos {P : α → Prop} {read : Entry α × Nat} (h : P read.1.data)
    (rest : List (Entry α × Nat)) : idsOf (read :: rest) P = insert read.2 (idsOf rest P) := by
  ext id
  simp only [idsOf, List.mem_cons, exists_eq_or_imp, h, and_true, Set.mem_ofPred_eq,
    Set.mem_insert_iff, eq_comm (a := id)]

theorem idsOf_cons_of_neg {P : α → Prop} {read : Entry α × Nat} (h : ¬P read.1.data)
    (rest : List (Entry α × Nat)) : idsOf (read :: rest) P = idsOf rest P := by
  ext id
  simp only [idsOf, List.mem_cons, exists_eq_or_imp, h, and_false, false_or, Set.mem_ofPred_eq]

/-- A query finds the rows whose data match, which no revocation changes. -/
theorem RevokedAt.idsOf_find (h : RevokedAt original entries ids) (order : RowOrder)
    (matching : α → Bool) (P : α → Prop) :
    idsOf (find order entries matching) P =
      {id | ∃ entry, original[id]? = some entry ∧ matching entry.data ∧ P entry.data} := by
  ext id
  have hdata := h.data id
  constructor
  · rintro ⟨⟨entry, _⟩, hread, rfl, hP⟩
    obtain ⟨hrow, hmatching⟩ := List.mem_filter.mp ((order.mem_arrange _ _).mp hread)
    rw [List.mem_zipIdx_iff_getElem?.mp hrow, Option.map_some] at hdata
    obtain ⟨first, hfirst, hsame⟩ := Option.map_eq_some_iff.mp hdata.symm
    exact ⟨first, hfirst, hsame ▸ hmatching, hsame ▸ hP⟩
  · rintro ⟨first, hfirst, hmatching, hP⟩
    rw [hfirst, Option.map_some] at hdata
    obtain ⟨entry, hentry, hsame⟩ := Option.map_eq_some_iff.mp hdata
    refine ⟨(entry, id), (order.mem_arrange _ _).mpr (List.mem_filter.mpr ⟨?_, ?_⟩), rfl, ?_⟩
    · exact List.mem_zipIdx_iff_getElem?.mpr hentry
    · rw [hsame]
      exact hmatching
    · rw [hsame]
      exact hP

theorem RevokedAt.getElem?_of_mem_find (h : RevokedAt original entries ids) {order : RowOrder}
    {matching : α → Bool} {read : Entry α × Nat} (hread : read ∈ find order entries matching)
    (hid : read.2 ∉ ids) : original[read.2]? = some read.1 := by
  obtain ⟨hrow, -⟩ := List.mem_filter.mp ((order.mem_arrange _ _).mp hread)
  rw [← h.kept read.2 hid]
  exact List.mem_zipIdx_iff_getElem?.mp hrow

end

/-! ## The run -/

/-- How far a revocation that started on this store has come. -/
structure Progress (store : OidcEntries) (tokenIds authorizationIds : Set Nat) (s : Revoking) :
    Prop where
  tokens : RevokedAt store.tokens s.store.tokens tokenIds
  tried : ∀ id, id ∈ s.revokedTokenIds ↔ id ∈ tokenIds
  authorizations : RevokedAt store.authorizations s.store.authorizations authorizationIds
  applications : s.store.applications = store.applications

/-- The authorizations of the subject that are stamped with the organization. -/
def StampedAuthorizations (store : OidcEntries) (subject : String) (organizationId : TenantId) :
    Set Nat :=
  {id | ∃ authorization, store.authorizations[id]? = some authorization ∧
    authorization.data.subject = some subject ∧
    authorization.data.getOrganizationId = some organizationId}

/-- The tokens under one of these authorizations. -/
def TokensUnder (store : OidcEntries) (authorizationIds : Set Nat) : Set Nat :=
  {id | ∃ token, store.tokens[id]? = some token ∧
    ∃ authorizationId ∈ authorizationIds, token.data.authorizationId = some authorizationId}

/-- A client of the organization. -/
def Bound (store : OidcEntries) (organizationId : TenantId) (token : TokenData) : Prop :=
  ∃ applicationId, token.applicationId = some applicationId ∧
    belongsToOrganization store applicationId organizationId

variable {store : OidcEntries} {tokenIds authorizationIds : Set Nat} {s : Revoking}
  {order : RowOrder} {subject : String} {organizationId : TenantId}

theorem Progress.refl (store : OidcEntries) : Progress store ∅ ∅ ⟨store, []⟩ where
  tokens := .refl _
  tried id := iff_of_false List.not_mem_nil (Set.notMem_empty id)
  authorizations := .refl _
  applications := rfl

theorem Progress.congr {others otherAuthorizations : Set Nat}
    (h : Progress store tokenIds authorizationIds s) (htokens : tokenIds = others)
    (hauthorizations : authorizationIds = otherAuthorizations) :
    Progress store others otherAuthorizations s := by
  rw [← htokens, ← hauthorizations]
  exact h

theorem Progress.revokeToken {token : Entry TokenData × Nat}
    (h : Progress store tokenIds authorizationIds s)
    (htoken : token.2 ∉ tokenIds → store.tokens[token.2]? = some token.1) :
    Progress store (insert token.2 tokenIds) authorizationIds (revokeToken s token) := by
  unfold AccessRevoker.revokeToken
  by_cases hin : token.2 ∈ s.revokedTokenIds
  · rw [if_pos hin, Set.insert_eq_of_mem ((h.tried token.2).mp hin)]
    exact h
  · rw [if_neg hin]
    -- a token that was not tried is still the row that was read
    have hout : token.2 ∉ tokenIds := fun htried => hin ((h.tried token.2).mpr htried)
    refine ⟨h.tokens.tryRevoke (htoken hout), fun id => ?_, h.authorizations, h.applications⟩
    rw [List.mem_cons, Set.mem_insert_iff, h.tried]

/-- The tokens of a loop are all tried. -/
theorem Progress.revokeTokens (reads : List (Entry TokenData × Nat))
    (h : Progress store tokenIds authorizationIds s)
    (hreads : ∀ token ∈ reads, token.2 ∉ tokenIds → store.tokens[token.2]? = some token.1) :
    Progress store (tokenIds ∪ idsOf reads fun _ => True) authorizationIds
      (reads.foldl AccessRevoker.revokeToken s) := by
  induction reads generalizing tokenIds s with
  | nil => exact h.congr (by rw [idsOf_nil, Set.union_empty]) rfl
  | cons token rest ih =>
    have hstep := h.revokeToken (hreads token List.mem_cons_self)
    refine (ih hstep fun other hother hout => ?_).congr ?_ rfl
    · exact hreads other (List.mem_cons_of_mem _ hother) fun hin => hout (.inr hin)
    · rw [idsOf_cons_of_pos trivial, Set.union_insert, Set.insert_union]

theorem Progress.revokeAuthorizationWithTokens {authorization : Entry AuthorizationData × Nat}
    (h : Progress store tokenIds authorizationIds s)
    (hread : store.authorizations[authorization.2]? = some authorization.1) :
    Progress store (tokenIds ∪ TokensUnder store {authorization.2})
      (insert authorization.2 authorizationIds)
      (revokeAuthorizationWithTokens order s authorization) := by
  have hloop := h.revokeTokens
    (find order s.store.tokens (·.authorizationId = some authorization.2))
    fun token htoken hout => h.tokens.getElem?_of_mem_find htoken hout
  have hids : idsOf (find order s.store.tokens (·.authorizationId = some authorization.2))
      (fun _ => True) = TokensUnder store {authorization.2} := by
    rw [h.tokens.idsOf_find]
    ext id
    simp only [TokensUnder, decide_eq_true_eq, and_true, Set.mem_singleton_iff, exists_eq_left,
      Set.mem_ofPred_eq]
  rw [hids] at hloop
  exact ⟨hloop.tokens, hloop.tried, hloop.authorizations.tryRevoke hread, hloop.applications⟩

theorem tokensUnder_empty (store : OidcEntries) : TokensUnder store ∅ = ∅ := by
  ext id
  simp only [TokensUnder, Set.mem_empty_iff_false, false_and, exists_false, and_false,
    Set.mem_ofPred_eq]

theorem tokensUnder_insert (store : OidcEntries) (id : Nat) (others : Set Nat) :
    TokensUnder store (insert id others) = TokensUnder store {id} ∪ TokensUnder store others := by
  ext token
  simp only [TokensUnder, Set.mem_union, Set.mem_ofPred_eq, Set.mem_insert_iff,
    Set.mem_singleton_iff, or_and_right, exists_or, and_or_left]

/-- The loop over the authorizations of the subject. -/
theorem Progress.revokeAuthorizations (order : RowOrder) (organizationId : TenantId)
    (reads : List (Entry AuthorizationData × Nat))
    (h : Progress store tokenIds authorizationIds s)
    (hreads : ∀ authorization ∈ reads,
      store.authorizations[authorization.2]? = some authorization.1) :
    Progress store
      (tokenIds ∪ TokensUnder store (idsOf reads (·.getOrganizationId = some organizationId)))
      (authorizationIds ∪ idsOf reads (·.getOrganizationId = some organizationId))
      (reads.foldl (fun s authorization =>
        if authorization.1.data.getOrganizationId ≠ some organizationId then s
        else AccessRevoker.revokeAuthorizationWithTokens order s authorization) s) := by
  induction reads generalizing tokenIds authorizationIds s with
  | nil =>
    rw [idsOf_nil, tokensUnder_empty, Set.union_empty, Set.union_empty]
    exact h
  | cons authorization rest ih =>
    have hrest := fun other hother => hreads other (List.mem_cons_of_mem _ hother)
    rw [List.foldl_cons]
    by_cases hstamped : authorization.1.data.getOrganizationId = some organizationId
    · rw [if_neg (not_not_intro hstamped), idsOf_cons_of_pos hstamped, tokensUnder_insert,
        ← Set.union_assoc, Set.union_insert, ← Set.insert_union]
      exact ih (h.revokeAuthorizationWithTokens (hreads _ List.mem_cons_self)) hrest
    · rw [if_pos hstamped, idsOf_cons_of_neg hstamped]
      exact ih h hrest

theorem Progress.revokeByAuthorization (order : RowOrder) (subject : String)
    (organizationId : TenantId) (h : Progress store tokenIds ∅ s) :
    Progress store
      (tokenIds ∪ TokensUnder store (StampedAuthorizations store subject organizationId))
      (StampedAuthorizations store subject organizationId)
      (revokeByAuthorization order subject organizationId s) := by
  have hloop := h.revokeAuthorizations order organizationId
    (find order s.store.authorizations (·.subject = some subject)) fun authorization hread =>
      h.authorizations.getElem?_of_mem_find hread (Set.notMem_empty _)
  have hids : idsOf (find order s.store.authorizations (·.subject = some subject))
      (·.getOrganizationId = some organizationId) =
        StampedAuthorizations store subject organizationId := by
    rw [h.authorizations.idsOf_find]
    ext id
    simp only [StampedAuthorizations, decide_eq_true_eq, Set.mem_ofPred_eq]
  rw [hids, Set.empty_union] at hloop
  exact hloop

theorem belongsToOrganization_congr {other : OidcEntries}
    (h : other.applications = store.applications) (applicationId : Nat) :
    belongsToOrganization other applicationId organizationId =
      belongsToOrganization store applicationId organizationId := by
  rw [belongsToOrganization, belongsToOrganization, h]

/-- The loop over the tokens of the subject: what is known of the clients is so. -/
theorem Progress.revokeBound (organizationId : TenantId) (reads : List (Entry TokenData × Nat))
    (known : List (Nat × Bool)) (h : Progress store tokenIds authorizationIds s)
    (hreads : ∀ token ∈ reads, token.2 ∉ tokenIds → store.tokens[token.2]? = some token.1)
    (hknown : ∀ applicationId belongs, known.lookup applicationId = some belongs →
      belongs = belongsToOrganization store applicationId organizationId) :
    Progress store (tokenIds ∪ idsOf reads (Bound store organizationId)) authorizationIds
      (AccessRevoker.revokeBound organizationId s known reads) := by
  induction reads generalizing tokenIds s known with
  | nil => exact h.congr (by rw [idsOf_nil, Set.union_empty]) rfl
  | cons token rest ih =>
    have hrest := fun other hother => hreads other (List.mem_cons_of_mem _ hother)
    rw [AccessRevoker.revokeBound]
    cases happlication : token.1.data.applicationId with
    | none =>
      have hunbound : ¬Bound store organizationId token.1.data := by
        rintro ⟨applicationId, hsome, -⟩
        rw [happlication] at hsome
        cases hsome
      rw [idsOf_cons_of_neg hunbound]
      exact ih known h hrest hknown
    | some applicationId =>
      have hbound : Bound store organizationId token.1.data ↔
          belongsToOrganization store applicationId organizationId = true := by
        simp only [Bound, happlication, Option.some.injEq, exists_eq_left']
      -- what is looked up or found out is so, and what is known then too
      obtain ⟨next, hnext, hloop⟩ : ∃ next, (∀ applicationId belongs,
          next.lookup applicationId = some belongs →
            belongs = belongsToOrganization store applicationId organizationId) ∧
          (match known.lookup applicationId with
            | some belongs => (belongs, known)
            | none =>
              (belongsToOrganization s.store applicationId organizationId,
                (applicationId, belongsToOrganization s.store applicationId organizationId) ::
                  known)) =
            (belongsToOrganization store applicationId organizationId, next) := by
        cases hlookup : known.lookup applicationId with
        | some belongs => exact ⟨known, hknown, by rw [hknown applicationId belongs hlookup]⟩
        | none =>
          refine ⟨_, ?_, by rw [belongsToOrganization_congr h.applications]⟩
          intro other belongs hother
          rw [List.lookup_cons] at hother
          split at hother
          · rename_i hsame
            rw [← Option.some.inj hother, beq_iff_eq.mp hsame]
          · exact hknown other belongs hother
      dsimp only
      rw [hloop]
      dsimp only
      by_cases hbelongs : belongsToOrganization store applicationId organizationId = true
      · rw [if_pos hbelongs, idsOf_cons_of_pos (hbound.mpr hbelongs), Set.union_insert,
          ← Set.insert_union]
        exact ih next (h.revokeToken (hreads token List.mem_cons_self))
          (fun other hother hout => hrest other hother fun hin => hout (.inr hin)) hnext
      · rw [if_neg hbelongs, idsOf_cons_of_neg fun hb => hbelongs (hbound.mp hb)]
        exact ih next h hrest hnext

theorem Progress.revokeByClientBinding (order : RowOrder) (subject : String)
    (organizationId : TenantId) (h : Progress store tokenIds authorizationIds s) :
    Progress store
      (tokenIds ∪ {id | ∃ token, store.tokens[id]? = some token ∧
        token.data.subject = some subject ∧ Bound store organizationId token.data})
      authorizationIds (revokeByClientBinding order subject organizationId s) := by
  have hloop := h.revokeBound organizationId
    (find order s.store.tokens (·.subject = some subject)) []
    (fun token htoken hout => h.tokens.getElem?_of_mem_find htoken hout)
    (fun _ _ hlookup => by cases hlookup)
  have hids : idsOf (find order s.store.tokens (·.subject = some subject))
      (Bound store organizationId) = {id | ∃ token, store.tokens[id]? = some token ∧
        token.data.subject = some subject ∧ Bound store organizationId token.data} := by
    rw [h.tokens.idsOf_find]
    simp only [decide_eq_true_eq]
  rw [hids] at hloop
  exact hloop

/-! ## The rows of a membership -/

/-- A store in which a token under an authorization has its subject, as both are made for the user
who signs in. -/
structure IssuedTokens where
  store : OidcEntries
  linked : ∀ (id : Nat) (token : Entry TokenData) (authorizationId : Nat),
    store.tokens[id]? = some token → token.data.authorizationId = some authorizationId →
      ∃ authorization, store.authorizations[authorizationId]? = some authorization ∧
        authorization.data.subject = token.data.subject

/-- A token under an authorization that is stamped with the organization. -/
def Stamped (store : OidcEntries) (organizationId : TenantId) (token : TokenData) : Prop :=
  ∃ authorizationId authorization, token.authorizationId = some authorizationId ∧
    store.authorizations[authorizationId]? = some authorization ∧
    authorization.data.getOrganizationId = some organizationId

/-- Exactly the stamped authorizations of the subject, the tokens under them and its tokens of
bound clients are revoked. -/
theorem revokeMembership_revokedAt (order : RowOrder) (store : OidcEntries)
    (userId organizationId : TenantId) :
    RevokedAt store.tokens (revokeMembership order store userId organizationId).store.tokens
        (TokensUnder store (StampedAuthorizations store userId.toString organizationId) ∪
          {id | ∃ token, store.tokens[id]? = some token ∧
            token.data.subject = some userId.toString ∧ Bound store organizationId token.data}) ∧
      RevokedAt store.authorizations
        (revokeMembership order store userId organizationId).store.authorizations
        (StampedAuthorizations store userId.toString organizationId) := by
  have hfirst := (Progress.refl store).revokeByAuthorization order userId.toString organizationId
  have hfinal := hfirst.revokeByClientBinding order userId.toString organizationId
  rw [Set.empty_union] at hfinal
  exact ⟨hfinal.tokens, hfinal.authorizations⟩

/-- Revoking a membership keeps each token under the authorization of its subject. -/
def IssuedTokens.revokeMembership (order : RowOrder) (issued : IssuedTokens)
    (userId organizationId : TenantId) : IssuedTokens where
  store := (AccessRevoker.revokeMembership order issued.store userId organizationId).store
  linked id token authorizationId htoken hunder := by
    obtain ⟨htokens, hauthorizations⟩ :=
      revokeMembership_revokedAt order issued.store userId organizationId
    have hdata := htokens.data id
    rw [htoken, Option.map_some] at hdata
    obtain ⟨first, hfirst, hsame⟩ := Option.map_eq_some_iff.mp hdata.symm
    rw [← hsame] at hunder ⊢
    obtain ⟨authorization, hrow, hsubject⟩ := issued.linked id first authorizationId hfirst hunder
    have hrowData := hauthorizations.data authorizationId
    rw [hrow, Option.map_some] at hrowData
    obtain ⟨after, hafter, hkept⟩ := Option.map_eq_some_iff.mp hrowData
    exact ⟨after, hafter, hkept ▸ hsubject⟩

end Wallow.Identity.AccessRevoker
