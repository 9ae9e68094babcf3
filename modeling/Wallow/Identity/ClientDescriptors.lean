import Wallow.Identity.ClientSync
import Mathlib.Data.Finset.Basic

/-!
# Updating an application

What the update of an application leaves, compared with the application that would be created.  The
two differ where the update compares less than it writes, or writes only one way: a URI that
`Uri.Equals` takes for another, a tenant that is no longer there, a secret of a client that has
become public.
-/

namespace Wallow.Identity.ClientSync

/-- Equal but for the text of the secret. -/
def SameApplication (a b : Application) : Prop :=
  a.clientSecret.isSome = b.clientSecret.isSome ∧
    { a with clientSecret := none } = { b with clientSecret := none }

/-- The update of `a` to the definition misses none of what is left of an older one. -/
structure Updatable (host : Host) (client : PreRegisteredClientDefinition) (a : Application) :
    Prop where
  source : isConfigSourced host a = true
  tenant : client.isBoundToOrganization = false → a.tenantId = none
  secret : client.isPublic = true → a.clientSecret = none
  redirectUris : comparands host a.redirectUris =
    (client.redirectUris.map (comparand host)).toFinset →
      a.redirectUris = uriSet host client.redirectUris
  postLogoutRedirectUris : comparands host a.postLogoutRedirectUris =
    (client.postLogoutRedirectUris.map (comparand host)).toFinset →
      a.postLogoutRedirectUris = uriSet host client.postLogoutRedirectUris
  frontchannelLogoutUri : a.frontchannelLogoutUri.bind (comparand host) =
    client.frontchannelLogoutUri.bind (comparand host) →
      a.frontchannelLogoutUri = client.frontchannelLogoutUri.map (absoluteUri host)
  backchannelLogoutUri : a.backchannelLogoutUri.bind (comparand host) =
    client.backchannelLogoutUri.bind (comparand host) →
      a.backchannelLogoutUri = client.backchannelLogoutUri.map (absoluteUri host)

section Proofs

variable {host : Host} {client : PreRegisteredClientDefinition} {a b : Application}

namespace SameApplication

theorem refl (a : Application) : SameApplication a a := ⟨rfl, rfl⟩

/-- What does not read the secret is equal. -/
theorem field {α : Type} (h : SameApplication a b) (f : Application → α)
    (hf : ∀ (x : Application) (secret : Option String), f { x with clientSecret := secret } = f x) :
    f a = f b :=
  (hf a none).symm.trans ((congrArg f h.2).trans (hf b none))

theorem trans {c : Application} (h : SameApplication a b) (h' : SameApplication b c) :
    SameApplication a c := ⟨h.1.trans h'.1, h.2.trans h'.2⟩

theorem symm (h : SameApplication a b) : SameApplication b a := ⟨h.1.symm, h.2.symm⟩

/-- OpenIddict validates both alike. -/
theorem isAccepted (h : SameApplication a b) : isAccepted host a = isAccepted host b := by
  have hid := h.field Application.clientId fun _ _ => rfl
  have htype := h.field Application.clientType fun _ _ => rfl
  have hredirect := h.field Application.redirectUris fun _ _ => rfl
  have hpost := h.field Application.postLogoutRedirectUris fun _ _ => rfl
  rw [ClientSync.isAccepted, ClientSync.isAccepted, hid, htype, h.1, hredirect, hpost]

end SameApplication

/-! ## One comparison -/

section Replace

variable {α : Type} {same : Bool} {current expected : α}

theorem replaceUnless_fst (h : same = true → current = expected) :
    (replaceUnless same current expected).1 = expected := by
  cases same with
  | true => exact h rfl
  | false => rfl

theorem replaceUnless_eq (h : same = true) :
    replaceUnless same current expected = (current, false) := by
  rw [h]
  rfl

theorem replaceUnless_unchanged (h : (replaceUnless same current expected).2 = false) :
    (replaceUnless same current expected).1 = current := by
  cases same with
  | true => rfl
  | false => cases h

end Replace

/-! ## Sets of URIs -/

theorem comparands_addUri (texts : Finset String) (text : String) :
    comparands host (addUri host texts text) =
      insert (comparand host text) (comparands host texts) := by
  unfold addUri
  split
  · rename_i hmem
    rw [Finset.insert_eq_of_mem hmem]
  · rw [comparands, Finset.image_insert]
    rfl

/-- The set is one of the configured URIs, for `Uri.Equals`. -/
theorem comparands_uriSet (texts : List String) :
    comparands host (uriSet host texts) = (texts.map (comparand host)).toFinset := by
  have hfold : ∀ (rest : List String) (kept : Finset String),
      comparands host (rest.foldl (addUri host) kept) =
        comparands host kept ∪ (rest.map (comparand host)).toFinset := by
    intro rest
    induction rest with
    | nil =>
      intro kept
      rw [List.map_nil, List.toFinset_nil, Finset.union_empty, List.foldl_nil]
    | cons text rest ih =>
      intro kept
      rw [List.foldl_cons, ih, comparands_addUri, List.map_cons, List.toFinset_cons,
        Finset.insert_union, Finset.union_insert]
  rw [uriSet, hfold, comparands, Finset.image_empty, Finset.empty_union]

theorem updateUris_fst {current : Finset String} {configured : List String}
    (h : comparands host current = (configured.map (comparand host)).toFinset →
      current = uriSet host configured) :
    (updateUris host current configured).1 = uriSet host configured :=
  replaceUnless_fst fun hsame => h (of_decide_eq_true hsame)

theorem updateUris_uriSet (configured : List String) :
    updateUris host (uriSet host configured) configured = (uriSet host configured, false) :=
  replaceUnless_eq (decide_eq_true (comparands_uriSet configured))

theorem comparand_absoluteUri {text : String} (h : (host.uris.parse text).isSome = true) :
    comparand host (absoluteUri host text) = comparand host text := by
  obtain ⟨uri, huri⟩ := Option.isSome_iff_exists.mp h
  rw [comparand, comparand, absoluteUri, huri, Option.map_some, Option.getD_some,
    host.uris.parse_absoluteUri text uri huri, Option.map_some]

theorem updateLogoutUri_fst {current configured : Option String}
    (h : current.bind (comparand host) = configured.bind (comparand host) →
      current = configured.map (absoluteUri host)) :
    (updateLogoutUri host current configured).1 = configured.map (absoluteUri host) :=
  replaceUnless_fst fun hsame => h (of_decide_eq_true hsame)

theorem updateLogoutUri_written {configured : Option String}
    (h : ∀ text, configured = some text → (host.uris.parse text).isSome = true) :
    updateLogoutUri host (configured.map (absoluteUri host)) configured =
      (configured.map (absoluteUri host), false) := by
  refine replaceUnless_eq (decide_eq_true ?_)
  cases configured with
  | none => rfl
  | some text =>
    rw [Option.map_some, Option.bind_some, Option.bind_some]
    exact comparand_absoluteUri (h text rfl)

/-! ## Permissions -/

theorem basePermissions_filter :
    (basePermissions client).filter (·.isScope) = ∅ ∧
      (basePermissions client).filter (!·.isScope) = basePermissions client := by
  unfold basePermissions
  split
  · exact ⟨by decide, by decide⟩
  · exact ⟨by decide, by decide⟩

theorem scopePermissions_filter :
    (scopePermissions client).filter (·.isScope) = scopePermissions client ∧
      (scopePermissions client).filter (!·.isScope) = ∅ := by
  have hscope : ∀ p ∈ scopePermissions client, p.isScope = true := by
    intro p hp
    obtain ⟨name, -, rfl⟩ := List.mem_map.mp (List.mem_toFinset.mp hp)
    rfl
  refine ⟨Finset.filter_true_of_mem hscope, Finset.filter_false_of_mem fun p hp => ?_⟩
  rw [hscope p hp]
  decide

/-- The permissions of a definition, in which the update finds its scopes. -/
theorem permissions_filter_isScope (other : PreRegisteredClientDefinition) :
    (basePermissions other ∪ scopePermissions client).filter (·.isScope) =
      scopePermissions client := by
  rw [Finset.filter_union, basePermissions_filter.1, scopePermissions_filter.1,
    Finset.empty_union]

theorem permissions_filter_not_isScope (other : PreRegisteredClientDefinition) :
    (basePermissions other ∪ scopePermissions client).filter (!·.isScope) =
      basePermissions other := by
  rw [Finset.filter_union, basePermissions_filter.2, scopePermissions_filter.2,
    Finset.union_empty]

/-! ## The whole update -/

/-- A confidential client has a secret. -/
def HasSecret (client : PreRegisteredClientDefinition) : Prop :=
  client.isPublic = false → client.secret.isSome = true

theorem secret_isSome {tenantId : Option Guid} (h : HasSecret client) :
    (buildDescriptor host client tenantId).clientSecret.isSome = !client.isPublic := by
  rw [buildDescriptor]
  cases hpublic : client.isPublic with
  | true => rfl
  | false => exact h hpublic

theorem clientType_eq_iff {other : PreRegisteredClientDefinition} :
    other.clientType = client.clientType ↔ other.isPublic = client.isPublic := by
  unfold PreRegisteredClientDefinition.clientType
  cases other.isPublic <;> cases client.isPublic <;> decide

section Update

variable {older : PreRegisteredClientDefinition} {olderTenantId tenantId : Option Guid}

/-- An update that misses nothing leaves the application that would be created. -/
theorem update_same (hid : older.clientId = client.clientId)
    (ha : SameApplication a (buildDescriptor host older olderTenantId)) (holder : HasSecret older)
    (hclient : HasSecret client) (hupdatable : Updatable host client a)
    (htenant : tenantId = none → client.isBoundToOrganization = false) :
    SameApplication (updateDescriptor host a client tenantId).1
      (buildDescriptor host client tenantId) := by
  have hservice : older.isServiceAccount = client.isServiceAccount := by
    rw [PreRegisteredClientDefinition.isServiceAccount, hid]
    rfl
  have hbase : basePermissions older = basePermissions client := by
    rw [basePermissions, basePermissions, hservice]
  refine ⟨?_, Application.ext ?_ rfl ?_ ?_ ?_ ?_ ?_ ?_ ?_ ?_ ?_ ?_ ?_ ?_ ?_ ?_⟩
  · -- the secret
    rw [secret_isSome hclient]
    have htype : a.clientType = some older.clientType :=
      ha.field Application.clientType fun _ _ => rfl
    have hsecret : a.clientSecret.isSome = !older.isPublic := ha.1.trans (secret_isSome holder)
    cases hpublic : client.isPublic with
    | true =>
      have hnone := hupdatable.secret hpublic
      simp [updateDescriptor, hpublic, hnone]
    | false =>
      by_cases hsame : older.clientType = client.clientType
      · have holderPublic := (clientType_eq_iff.mp hsame).trans hpublic
        rw [holderPublic] at hsecret
        simp [updateDescriptor, replaceUnless, htype, hsame, hsecret]
      · have hsome := hclient hpublic
        simp [updateDescriptor, replaceUnless, htype, hsame, hpublic, hsome]
  · exact (ha.field Application.clientId fun _ _ => rfl).trans hid
  · exact replaceUnless_fst of_decide_eq_true
  · exact replaceUnless_fst of_decide_eq_true
  · exact replaceUnless_fst of_decide_eq_true
  · have hpermissions : a.permissions = basePermissions older ∪ scopePermissions older :=
      ha.field Application.permissions fun _ _ => rfl
    have hnew : a.permissions.filter (!·.isScope) = basePermissions client := by
      rw [hpermissions, permissions_filter_not_isScope, hbase]
    have hsame : a.permissions.filter (·.isScope) = scopePermissions client →
        a.permissions = a.permissions.filter (!·.isScope) ∪ scopePermissions client := by
      intro hscopes
      rw [hpermissions, permissions_filter_isScope] at hscopes
      rw [hnew, hpermissions, hscopes, hbase]
    refine (replaceUnless_fst fun h => hsame (of_decide_eq_true h)).trans ?_
    rw [hnew]
    rfl
  · have hrequirements := ha.field Application.requirements fun _ _ => rfl
    refine hrequirements.trans ?_
    simp only [buildDescriptor, hservice]
  · exact updateUris_fst hupdatable.redirectUris
  · exact updateUris_fst hupdatable.postLogoutRedirectUris
  · have hlifetime : a.refreshTokenLifetime = refreshTokenLifetimeFor older :=
      ha.field Application.refreshTokenLifetime fun _ _ => rfl
    cases hexpected : refreshTokenLifetimeFor client with
    | none =>
      have hnone : refreshTokenLifetimeFor older = none := by
        unfold refreshTokenLifetimeFor at hexpected ⊢
        rw [hservice]
        split at hexpected
        · rename_i hsa
          rw [if_pos hsa]
        · cases hexpected
      simp only [updateDescriptor, updateRefreshTokenLifetime, buildDescriptor, hexpected,
        hlifetime, hnone]
    | some expected =>
      simp only [updateDescriptor, updateRefreshTokenLifetime, buildDescriptor, hexpected]
      exact replaceUnless_fst of_decide_eq_true
  · have hsource : a.source = some "config" := ha.field Application.source fun _ _ => rfl
    exact replaceUnless_fst fun _ => hsource
  · refine (replaceUnless_fst fun hsame => ?_).trans ?_
    · rw [of_decide_eq_true hsame]
      cases tenantId <;> rfl
    · cases tenantId with
      | some tenantId => rfl
      | none => exact hupdatable.tenant (htenant rfl)
  · exact updateLogoutUri_fst hupdatable.frontchannelLogoutUri
  · exact updateLogoutUri_fst hupdatable.backchannelLogoutUri
  · exact replaceUnless_fst of_decide_eq_true
  · exact ha.field Application.otherProperties fun _ _ => rfl

/-- An application that is as it would be created is left as it is, and not reported. -/
theorem update_fixed (ha : SameApplication a (buildDescriptor host client tenantId))
    (huris : areUris host client = true) :
    updateDescriptor host a client tenantId = (a, false) := by
  have hparse : ∀ text, client.frontchannelLogoutUri = some text ∨
      client.backchannelLogoutUri = some text → (host.uris.parse text).isSome = true := by
    intro text htext
    refine List.all_eq_true.mp huris text ?_
    rcases htext with h | h <;> simp [h]
  have hfront : a.frontchannelLogoutUri = client.frontchannelLogoutUri.map (absoluteUri host) :=
    ha.field Application.frontchannelLogoutUri fun _ _ => rfl
  have hback : a.backchannelLogoutUri = client.backchannelLogoutUri.map (absoluteUri host) :=
    ha.field Application.backchannelLogoutUri fun _ _ => rfl
  have hfrontSame : updateLogoutUri host a.frontchannelLogoutUri client.frontchannelLogoutUri =
      (a.frontchannelLogoutUri, false) := by
    rw [hfront]
    exact updateLogoutUri_written fun text htext => hparse text (.inl htext)
  have hbackSame : updateLogoutUri host a.backchannelLogoutUri client.backchannelLogoutUri =
      (a.backchannelLogoutUri, false) := by
    rw [hback]
    exact updateLogoutUri_written fun text htext => hparse text (.inr htext)
  have hredirectSame : updateUris host a.redirectUris client.redirectUris =
      (a.redirectUris, false) := by
    rw [show a.redirectUris = uriSet host client.redirectUris from
      ha.field Application.redirectUris fun _ _ => rfl]
    exact updateUris_uriSet _
  have hpostSame : updateUris host a.postLogoutRedirectUris client.postLogoutRedirectUris =
      (a.postLogoutRedirectUris, false) := by
    rw [show a.postLogoutRedirectUris = uriSet host client.postLogoutRedirectUris from
      ha.field Application.postLogoutRedirectUris fun _ _ => rfl]
    exact updateUris_uriSet _
  have hdisplay : a.displayName = some client.displayName :=
    ha.field Application.displayName fun _ _ => rfl
  have htype : a.clientType = some client.clientType :=
    ha.field Application.clientType fun _ _ => rfl
  have hscopes : a.permissions.filter (·.isScope) = scopePermissions client := by
    rw [show a.permissions = basePermissions client ∪ scopePermissions client from
      ha.field Application.permissions fun _ _ => rfl]
    exact permissions_filter_isScope client
  have hsource : a.source.isSome = true := by
    rw [show a.source = some "config" from ha.field Application.source fun _ _ => rfl]
    rfl
  have hconsent : a.consentType = some (consentTypeFor client) :=
    ha.field Application.consentType fun _ _ => rfl
  have hsession : a.backchannelLogoutSessionRequired = client.backchannelLogoutSessionRequired :=
    ha.field Application.backchannelLogoutSessionRequired fun _ _ => rfl
  have htenant : a.tenantId = tenantId := ha.field Application.tenantId fun _ _ => rfl
  have hlifetime : updateRefreshTokenLifetime a.refreshTokenLifetime
      (refreshTokenLifetimeFor client) = (a.refreshTokenLifetime, false) := by
    have hold : a.refreshTokenLifetime = refreshTokenLifetimeFor client :=
      ha.field Application.refreshTokenLifetime fun _ _ => rfl
    unfold updateRefreshTokenLifetime
    split
    · rfl
    · rename_i expected hexpected
      exact replaceUnless_eq (decide_eq_true (hold.trans hexpected))
  simp only [updateDescriptor, hfrontSame, hbackSame, hredirectSame, hpostSame, hlifetime,
    replaceUnless_eq (decide_eq_true hdisplay), replaceUnless_eq (decide_eq_true htype),
    replaceUnless_eq (decide_eq_true hscopes), replaceUnless_eq hsource,
    replaceUnless_eq (decide_eq_true hconsent), replaceUnless_eq (decide_eq_true hsession),
    replaceUnless_eq (decide_eq_true htenant), Bool.false_and, Bool.or_false]
  rfl

/-- What reports no change makes none. -/
theorem update_unchanged (h : (updateDescriptor host a client tenantId).2 = false) :
    (updateDescriptor host a client tenantId).1 = a := by
  simp only [updateDescriptor, Bool.or_eq_false_iff] at h
  obtain ⟨⟨⟨⟨⟨⟨⟨⟨⟨⟨⟨hdisplay, htype⟩, hredirect⟩, hpost⟩, hpermissions⟩, hsource⟩, hconsent⟩,
    hlifetime⟩, hfront⟩, hback⟩, hsession⟩, htenant⟩ := h
  have hlifetime' : (updateRefreshTokenLifetime a.refreshTokenLifetime
      (refreshTokenLifetimeFor client)).1 = a.refreshTokenLifetime := by
    cases hexpected : refreshTokenLifetimeFor client with
    | none => rfl
    | some expected =>
      rw [hexpected] at hlifetime
      exact replaceUnless_unchanged hlifetime
  refine Application.ext rfl ?_ ?_ ?_ ?_ ?_ rfl ?_ ?_ hlifetime' ?_ ?_ ?_ ?_ ?_ rfl
  · simp only [updateDescriptor, htype, Bool.false_and]
    rfl
  · exact replaceUnless_unchanged hdisplay
  · exact replaceUnless_unchanged htype
  · exact replaceUnless_unchanged hconsent
  · exact replaceUnless_unchanged hpermissions
  · exact replaceUnless_unchanged hredirect
  · exact replaceUnless_unchanged hpost
  · exact replaceUnless_unchanged hsource
  · exact replaceUnless_unchanged htenant
  · exact replaceUnless_unchanged hfront
  · exact replaceUnless_unchanged hback
  · exact replaceUnless_unchanged hsession

/-- An application that is as it would be created has nothing of an older definition left. -/
theorem updatable_of_same (ha : SameApplication a (buildDescriptor host client tenantId))
    (htenant : client.isBoundToOrganization = false → tenantId = none) :
    Updatable host client a where
  source := by
    have hsource : a.source = some "config" := ha.field Application.source fun _ _ => rfl
    rw [isConfigSourced, hsource]
    exact decide_eq_true rfl
  tenant hunbound := (ha.field Application.tenantId fun _ _ => rfl).trans (htenant hunbound)
  secret hpublic := by
    have hsome := ha.1
    rw [buildDescriptor, if_pos hpublic] at hsome
    exact Option.isNone_iff_eq_none.mp (by simpa using hsome)
  redirectUris _ := ha.field Application.redirectUris fun _ _ => rfl
  postLogoutRedirectUris _ := ha.field Application.postLogoutRedirectUris fun _ _ => rfl
  frontchannelLogoutUri _ := ha.field Application.frontchannelLogoutUri fun _ _ => rfl
  backchannelLogoutUri _ := ha.field Application.backchannelLogoutUri fun _ _ => rfl

end Update

end Proofs

end Wallow.Identity.ClientSync
