import Wallow.Identity.ClientDescriptors
import Wallow.Identity.ClientOrganizations
import Wallow.Lib.Transition
import Mathlib.Data.String.Basic

/-!
# Convergence of the client sync

A sync leaves every configured client as it would be created, and a second one changes nothing,
where the update misses none of what the older applications have left.
-/

namespace Wallow.Identity.ClientSync

open Transition Wallow.Shared

/-- OpenIddict and the registry take what is built for the definition. -/
structure Registrable (host : Host) (client : PreRegisteredClientDefinition) : Prop where
  clientId : client.clientId ≠ ""
  uris : areUris host client = true
  accepted : isAccepted host (buildDescriptor host client none) = true
  named : client.isBoundToOrganization = true →
    isNullOrWhiteSpace (some client.clientId) = false ∧
      isNullOrWhiteSpace (some client.displayName) = false

/-- The configuration can be synced to the database. -/
structure Ready (host : Host) (clients : List PreRegisteredClientDefinition) (db : Database) :
    Prop where
  valid : validate host clients = .ok ()
  definitions : ∀ c ∈ clients, ∀ d ∈ clients, c.clientId = d.clientId → c = d
  registrable : ∀ c ∈ clients, Registrable host c
  directory : DirectoryReady host clients db.organizations
  ids : ∀ o ∈ db.organizations, o.id ≠ Guid.empty
  seeds : ∀ c ∈ clients, SeedsReady host c db
  updatable : ∀ c ∈ clients, ∀ a, findByClientId db c.clientId = some a → Updatable host c a

/-- The config-sourced applications are what syncs have left. -/
def Produced (host : Host) (db : Database) : Prop :=
  ∀ a ∈ db.applications, isConfigSourced host a = true → ∃ client tenantId,
    HasSecret client ∧ SameApplication a (buildDescriptor host client tenantId)

/-- The client is as its definition says. -/
structure Synced (host : Host) (db : Database) (client : PreRegisteredClientDefinition) : Prop where
  resolved : Resolved db client
  application : ∃ a, findByClientId db client.clientId = some a ∧
    SameApplication a (buildDescriptor host client (organizationOf db client))
  registered : (getRegistered db client.clientId).map RegisteredClient.organizationId =
    organizationOf db client

section Proofs

variable {host : Host} {clients : List PreRegisteredClientDefinition}
  {client : PreRegisteredClientDefinition} {db cur cur' : Database} {tenantId : Option Guid}

theorem offenders_isEmpty {violates : PreRegisteredClientDefinition → Bool}
    (h : (offenders clients violates).isEmpty = true) (hmem : client ∈ clients) :
    violates client = false := by
  rw [offenders, List.isEmpty_iff, List.map_eq_nil_iff, List.filter_eq_nil_iff] at h
  exact Bool.eq_false_iff.mpr (h client hmem)

theorem hasSecret_of_validate (h : validate host clients = .ok ()) (hmem : client ∈ clients) :
    HasSecret client := by
  intro hpublic
  unfold validate at h
  dsimp only at h
  split at h
  · cases h
  · rename_i hempty
    have hnone := offenders_isEmpty (by simpa using hempty) hmem
    unfold PreRegisteredClientDefinition.isPublic at hpublic
    rw [hpublic] at hnone
    cases hsecret : client.secret with
    | none =>
      rw [hsecret] at hnone
      cases hnone
    | some secret => rfl

/-! ## Applications -/

theorem find?_map_replace {application : Application} (hid : application.clientId = client.clientId)
    (applications : List Application) (clientId : String) :
    (applications.map fun a => if a.clientId = client.clientId then application else a).find?
        (·.clientId = clientId) =
      (applications.find? (·.clientId = clientId)).map fun a =>
        if a.clientId = client.clientId then application else a := by
  rw [List.find?_map]
  congr 1
  refine List.find?_congr fun a _ => ?_
  rw [Function.comp_apply]
  split
  · rename_i hsame
    rw [hid, hsame]
  · rfl

theorem clientId_of_find {a : Application} {clientId : String}
    (h : findByClientId db clientId = some a) : a.clientId = clientId := by
  have hfound := List.find?_some h
  exact of_decide_eq_true hfound

/-- The application is left as it would be created, and the others as they are. -/
theorem syncApplication_synced (hregistrable : Registrable host client) (hsecret : HasSecret client)
    (hproduced : Produced host cur)
    (hupdatable : ∀ a, findByClientId cur client.clientId = some a → Updatable host client a)
    (htenant : tenantId = none → client.isBoundToOrganization = false) :
    ∃ applications reports,
      syncApplication host cur client tenantId =
        some ({ cur with applications := applications }, reports) ∧
      (∃ a, applications.find? (·.clientId = client.clientId) = some a ∧
        SameApplication a (buildDescriptor host client tenantId)) ∧
      (∀ clientId, clientId ≠ client.clientId →
        applications.find? (·.clientId = clientId) = findByClientId cur clientId) ∧
      ∀ a ∈ applications, a ∈ cur.applications ∨
        SameApplication a (buildDescriptor host client tenantId) := by
  have hguard : ¬(client.clientId = "" || !areUris host client) = true := by
    simp [hregistrable.clientId, hregistrable.uris]
  have haccepted : ∀ a, SameApplication a (buildDescriptor host client tenantId) →
      isAccepted host a = true := fun a ha => ha.isAccepted.trans hregistrable.accepted
  rw [syncApplication, if_neg hguard]
  cases hfind : findByClientId cur client.clientId with
  | none =>
    refine ⟨cur.applications ++ [buildDescriptor host client tenantId], _,
      if_pos (haccepted _ (.refl _)), ⟨_, ?_, .refl _⟩, fun clientId hne => ?_, fun a ha => ?_⟩
    · rw [findByClientId] at hfind
      rw [List.find?_append, hfind, Option.none_or]
      exact List.find?_cons_of_pos (decide_eq_true rfl)
    · rw [List.find?_append, List.find?_cons_of_neg
        (fun heq => hne (of_decide_eq_true heq).symm),
        List.find?_nil,
        Option.or_none]
      rfl
    · refine (List.mem_append.mp ha).imp_right fun hnew => ?_
      rw [List.mem_singleton.mp hnew]
      exact .refl _
  | some existing =>
    have hmem := List.mem_of_find?_eq_some hfind
    have hexisting : existing.clientId = client.clientId := clientId_of_find hfind
    have hupdate := hupdatable existing hfind
    obtain ⟨older, olderTenantId, holder, hsame⟩ := hproduced existing hmem hupdate.source
    have hid : older.clientId = client.clientId :=
      (hsame.field Application.clientId fun _ _ => rfl).symm.trans hexisting
    have hnew := update_same hid hsame holder hsecret hupdate htenant
    cases hchanged : (updateDescriptor host existing client tenantId).2 with
    | false =>
      rw [update_unchanged hchanged] at hnew
      refine ⟨cur.applications, [], ?_, ⟨existing, hfind, hnew⟩, fun _ _ => rfl,
        fun a ha => .inl ha⟩
      dsimp only
      rw [hchanged]
      rfl
    | true =>
      have hnewId : (updateDescriptor host existing client tenantId).1.clientId = client.clientId :=
        hnew.field Application.clientId fun _ _ => rfl
      refine ⟨cur.applications.map fun a =>
          if a.clientId = client.clientId then (updateDescriptor host existing client tenantId).1
          else a, [.clientUpdated client.clientId], ?_, ⟨_, ?_, hnew⟩, fun clientId hne => ?_,
        fun a ha => ?_⟩
      · dsimp only
        rw [hchanged]
        exact if_pos (haccepted _ hnew)
      · rw [find?_map_replace hnewId]
        rw [findByClientId] at hfind
        rw [hfind, Option.map_some, if_pos hexisting]
      · rw [find?_map_replace hnewId, findByClientId]
        cases hother : cur.applications.find? (·.clientId = clientId) with
        | none => rfl
        | some other =>
          have hotherId : other.clientId = clientId := clientId_of_find hother
          rw [Option.map_some, if_neg (hotherId ▸ hne)]
      · obtain ⟨old, hold, rfl⟩ := List.mem_map.mp ha
        split
        · exact .inr hnew
        · exact .inl hold

theorem syncApplication_fixed (hregistrable : Registrable host client)
    (h : ∃ a, findByClientId cur client.clientId = some a ∧
      SameApplication a (buildDescriptor host client tenantId)) :
    syncApplication host cur client tenantId = some (cur, []) := by
  have hguard : ¬(client.clientId = "" || !areUris host client) = true := by
    simp [hregistrable.clientId, hregistrable.uris]
  obtain ⟨a, hfind, hsame⟩ := h
  rw [syncApplication, if_neg hguard, hfind]
  dsimp only
  rw [update_fixed hsame hregistrable.uris]
  rfl

/-! ## Registry rows -/

theorem find?_filter_ne (rows : List RegisteredClient) {clientId other : String}
    (h : other ≠ clientId) :
    (rows.filter (·.clientId ≠ clientId)).find? (·.clientId = other) =
      rows.find? (·.clientId = other) := by
  rw [List.find?_filter]
  refine List.find?_congr fun row _ => ?_
  by_cases hrow : row.clientId = other
  · simp [hrow, h]
  · simp [hrow]

theorem find?_filter_self (rows : List RegisteredClient) (clientId : String) :
    (rows.filter (·.clientId ≠ clientId)).find? (·.clientId = clientId) = none :=
  List.find?_eq_none.mpr fun row hrow => by simpa using (List.mem_filter.mp hrow).2

theorem syncRegistryRow_synced (cur : Database)
    (hnamed : ∀ orgId, tenantId = some orgId → orgId ≠ Guid.empty ∧
      isNullOrWhiteSpace (some client.clientId) = false ∧
        isNullOrWhiteSpace (some client.displayName) = false) :
    ∃ rows reports,
      syncRegistryRow cur client tenantId =
        some ({ cur with registeredClients := rows }, reports) ∧
      (rows.find? (·.clientId = client.clientId)).map RegisteredClient.organizationId = tenantId ∧
      ∀ clientId, clientId ≠ client.clientId →
        rows.find? (·.clientId = clientId) = getRegistered cur clientId := by
  unfold syncRegistryRow
  cases tenantId with
  | none =>
    cases hrecord : getRegistered cur client.clientId with
    | none =>
      rw [getRegistered] at hrecord
      exact ⟨cur.registeredClients, [], rfl, by rw [hrecord]; rfl, fun _ _ => rfl⟩
    | some record =>
      exact ⟨_, _, rfl, by rw [find?_filter_self]; rfl, fun _ hne => find?_filter_ne _ hne⟩
  | some orgId =>
    dsimp only
    split
    · rename_i hsame
      exact ⟨cur.registeredClients, [], rfl, hsame, fun _ _ => rfl⟩
    · obtain ⟨hempty, hid, hname⟩ := hnamed orgId rfl
      have hcreate : ∃ row, createRegisteredClient client orgId = some row ∧
          row.clientId = client.clientId ∧ row.organizationId = orgId :=
        ⟨_, if_neg (by simp [hid, hname, hempty]), rfl, rfl⟩
      obtain ⟨row, hrow, hrowId, hrowOrg⟩ := hcreate
      refine ⟨_, _, by rw [hrow]; rfl, ?_, fun clientId hne => ?_⟩
      · have hfound : [row].find? (·.clientId = client.clientId) = some row :=
          List.find?_cons_of_pos (decide_eq_true hrowId)
        rw [List.find?_append, removeRegistered, find?_filter_self, Option.none_or, hfound,
          Option.map_some, hrowOrg]
      · rw [List.find?_append, List.find?_cons_of_neg
          (by simpa using fun heq : row.clientId = clientId => hne (heq ▸ hrowId)), List.find?_nil,
          Option.or_none]
        exact find?_filter_ne _ hne

theorem syncRegistryRow_fixed
    (h : (getRegistered cur client.clientId).map RegisteredClient.organizationId = tenantId) :
    syncRegistryRow cur client tenantId = some (cur, []) := by
  unfold syncRegistryRow
  cases tenantId with
  | none =>
    rw [Option.map_eq_none_iff.mp h]
  | some orgId =>
    dsimp only
    rw [if_pos h]

/-! ## One client -/

/-- A sync on its way: what it has come to, and what it may still meet. -/
structure Advanced (host : Host) (clients : List PreRegisteredClientDefinition)
    (db cur : Database) : Prop where
  progress : Progress host clients db cur
  produced : Produced host cur
  updatable : ∀ c ∈ clients, ∀ a, findByClientId cur c.clientId = some a → Updatable host c a

theorem Advanced.start (hready : Ready host clients db) (hproduced : Produced host db) :
    Advanced host clients db db :=
  ⟨⟨.refl _, .refl db, hready.ids⟩, hproduced, hready.updatable⟩

/-- A client whose definition is not the one that is synced stays as it is. -/
theorem Synced.frame (h : Synced host cur client) (hlater : Later cur cur')
    (happlication : findByClientId cur' client.clientId = findByClientId cur client.clientId)
    (hregistered : getRegistered cur' client.clientId = getRegistered cur client.clientId) :
    Synced host cur' client := by
  obtain ⟨hresolved, hsame⟩ := h.resolved.later hlater
  exact ⟨hresolved, by rw [happlication, hsame]; exact h.application,
    by rw [hregistered, hsame]; exact h.registered⟩

theorem createOrUpdateClient_synced (hready : Ready host clients db) (hmem : client ∈ clients)
    (h : Advanced host clients db cur) :
    ∃ cur' reports, createOrUpdateClient host cur client = some (cur', reports) ∧
      Advanced host clients db cur' ∧ Synced host cur' client ∧
      ∀ c ∈ clients, Synced host cur c → Synced host cur' c := by
  have hregistrable := hready.registrable client hmem
  have hsecret := hasSecret_of_validate hready.valid hmem
  obtain ⟨resolved, reports, hresolve, hprogress, hlater, hresolved, happs, hrows⟩ :=
    resolveTenantId_progress hready.directory (hready.seeds client hmem) hmem h.progress
  have hunbound : organizationOf resolved client = none →
      client.isBoundToOrganization = false := by
    intro hnone
    obtain ⟨orgId, hid⟩ | ⟨name, hname⟩ | hunbound := bound_cases client
    · rw [organizationOf_of_id hid] at hnone
      cases hnone
    · obtain ⟨o, ho⟩ := Option.isSome_iff_exists.mp (hresolved.found name hname)
      rw [organizationOf_of_name hname ho] at hnone
      cases hnone
    · exact hunbound
  have hproduced : Produced host resolved := by
    rw [Produced, happs]
    exact h.produced
  have hfind : ∀ clientId, findByClientId resolved clientId = findByClientId cur clientId := by
    intro clientId
    rw [findByClientId, findByClientId, happs]
  obtain ⟨applications, synced, hsync, happlication, hothers, hfrom⟩ :=
    syncApplication_synced hregistrable hsecret hproduced
      (fun a ha => h.updatable client hmem a (hfind client.clientId ▸ ha)) hunbound
  have hnamed : ∀ orgId, organizationOf resolved client = some orgId → orgId ≠ Guid.empty ∧
      isNullOrWhiteSpace (some client.clientId) = false ∧
        isNullOrWhiteSpace (some client.displayName) = false := by
    intro orgId horg
    refine ⟨hprogress.ne_empty horg, hregistrable.named ?_⟩
    cases hbound : client.isBoundToOrganization with
    | true => rfl
    | false =>
      rw [organizationOf_unbound hbound] at horg
      cases horg
  obtain ⟨rows, registered, hrow, hregistered, hotherRows⟩ :=
    syncRegistryRow_synced { resolved with applications := applications } hnamed
  let after : Database :=
    { resolved with applications := applications, registeredClients := rows }
  have hafter : Later resolved after := ⟨⟨[], (List.append_nil _).symm⟩, fun _ _ hm => hm, rfl, rfl⟩
  have hself : Synced host after client := by
    obtain ⟨hresolved', hsame⟩ := hresolved.later hafter
    refine ⟨hresolved', ?_, ?_⟩
    · rw [hsame]
      exact happlication
    · rw [hsame]
      exact hregistered
  refine ⟨after, reports ++ synced ++ registered, ?_, ⟨?_, ?_, ?_⟩, hself, ?_⟩
  · rw [createOrUpdateClient, hresolve, Option.bind_some]
    dsimp only
    rw [hsync, Option.bind_some]
    dsimp only
    rw [hrow]
    rfl
  · exact ⟨hprogress.grown, hprogress.later.trans hafter, hprogress.ids⟩
  · intro a ha hsource
    rcases hfrom a ha with hold | hnew
    · exact hproduced a hold hsource
    · exact ⟨client, _, hsecret, hnew⟩
  · intro c hc a ha
    by_cases hid : c.clientId = client.clientId
    · obtain rfl := hready.definitions c hc client hmem hid
      obtain ⟨a', ha', hsame⟩ := happlication
      have heq : a' = a := Option.some.inj (ha'.symm.trans ha)
      exact heq ▸ updatable_of_same hsame fun hc => organizationOf_unbound hc
    · exact h.updatable c hc a (((hothers c.clientId hid).trans (hfind c.clientId)) ▸ ha)
  · intro c hc hsynced
    by_cases hid : c.clientId = client.clientId
    · exact hready.definitions c hc client hmem hid ▸ hself
    · refine hsynced.frame (hlater.trans hafter) ((hothers c.clientId hid).trans (hfind _))
        ((hotherRows c.clientId hid).trans ?_)
      rw [getRegistered, getRegistered]
      exact congrArg (List.find? _) hrows

theorem createOrUpdateClient_fixed (hregistrable : Registrable host client)
    (h : Synced host cur client)
    (hvisible : ∀ name, tenantNameOf client = some name →
      nameRank host (cur.organizations.map Organization.name) name < 20) :
    ∃ reports, createOrUpdateClient host cur client = some (cur, reports) ∧
      ∀ report ∈ reports, report.isChange = false := by
  obtain ⟨reports, hresolve, hreports⟩ := resolveTenantId_fixed h.resolved hvisible
  refine ⟨reports, ?_, hreports⟩
  rw [createOrUpdateClient, hresolve, Option.bind_some]
  dsimp only
  rw [syncApplication_fixed hregistrable h.application, Option.bind_some]
  dsimp only
  rw [syncRegistryRow_fixed h.registered, Option.map_some]
  simp only [List.append_nil]

/-! ## All clients -/

theorem createOrUpdateClients_synced (hready : Ready host clients db)
    (rest : List PreRegisteredClientDefinition) (hrest : rest ⊆ clients)
    (h : Advanced host clients db cur) :
    ∃ cur' reports, createOrUpdateClients host rest cur = some (cur', reports) ∧
      Advanced host clients db cur' ∧ (∀ c ∈ rest, Synced host cur' c) ∧
      ∀ c ∈ clients, Synced host cur c → Synced host cur' c := by
  induction rest generalizing cur with
  | nil =>
    exact ⟨cur, [], rfl, h, (fun _ hnone => nomatch hnone), fun _ _ hsynced => hsynced⟩
  | cons client rest ih =>
    have hmem := hrest List.mem_cons_self
    obtain ⟨next, reports, hrun, hnext, hsynced, hkept⟩ :=
      createOrUpdateClient_synced hready hmem h
    obtain ⟨cur', reports', hrun', hcur', hall, hkept'⟩ :=
      ih (fun c hc => hrest (List.mem_cons_of_mem client hc)) hnext
    refine ⟨cur', reports ++ reports', ?_, hcur', fun c hc => ?_, fun c hc hs => ?_⟩
    · rw [createOrUpdateClients, hrun, Option.bind_some]
      dsimp only
      rw [hrun']
      rfl
    · rcases List.mem_cons.mp hc with rfl | hc
      · exact hkept' c hmem hsynced
      · exact hall c hc
    · exact hkept' c hc (hkept c hc hs)

theorem createOrUpdateClients_fixed (rest : List PreRegisteredClientDefinition)
    (hregistrable : ∀ c ∈ rest, Registrable host c) (h : ∀ c ∈ rest, Synced host cur c)
    (hvisible : ∀ c ∈ rest, ∀ name, tenantNameOf c = some name →
      nameRank host (cur.organizations.map Organization.name) name < 20) :
    ∃ reports, createOrUpdateClients host rest cur = some (cur, reports) ∧
      ∀ report ∈ reports, report.isChange = false := by
  induction rest with
  | nil => exact ⟨[], rfl, fun _ hnone => nomatch hnone⟩
  | cons client rest ih =>
    obtain ⟨reports, hrun, hreports⟩ := createOrUpdateClient_fixed
      (hregistrable client List.mem_cons_self) (h client List.mem_cons_self)
      (hvisible client List.mem_cons_self)
    obtain ⟨reports', hrun', hreports'⟩ := ih
      (fun c hc => hregistrable c (List.mem_cons_of_mem client hc))
      (fun c hc => h c (List.mem_cons_of_mem client hc))
      fun c hc => hvisible c (List.mem_cons_of_mem client hc)
    refine ⟨reports ++ reports', ?_, fun report hreport => ?_⟩
    · rw [createOrUpdateClients, hrun, Option.bind_some]
      dsimp only
      rw [hrun']
      rfl
    · exact (List.mem_append.mp hreport).elim (hreports report) (hreports' report)

/-! ## Clients that are removed -/

theorem isConfigured_of_mem (host : Host) (h : client ∈ clients) :
    isConfigured host clients client.clientId = true :=
  List.any_eq_true.mpr ⟨client, h, decide_eq_true rfl⟩

theorem deleteRemovedClients_synced (hmem : client ∈ clients) (h : Synced host cur client) :
    Synced host (deleteRemovedClients host clients cur).1 client := by
  have hconfigured := isConfigured_of_mem host hmem
  refine h.frame ⟨⟨[], (List.append_nil _).symm⟩, fun _ _ hm => hm, rfl, rfl⟩ ?_ ?_
  · rw [findByClientId, deleteRemovedClients, List.find?_filter]
    refine List.find?_congr fun a _ => ?_
    by_cases hid : a.clientId = client.clientId
    · simp [hid, hconfigured]
    · simp [hid]
  · rw [getRegistered, deleteRemovedClients, List.find?_filter]
    refine List.find?_congr fun row _ => ?_
    by_cases hid : row.clientId = client.clientId
    · have hnone : ((cur.applications.filter fun a => isConfigSourced host a &&
          !isConfigured host clients a.clientId).any (·.clientId = row.clientId)) = false := by
        refine List.any_eq_false.mpr fun a ha hsame => ?_
        have hremoved := (List.mem_filter.mp ha).2
        rw [of_decide_eq_true hsame, hid, hconfigured] at hremoved
        simp at hremoved
      rw [hnone]
      simp [hid]
    · simp [hid]

theorem deleteRemovedClients_fixed (h : ∀ a ∈ cur.applications,
      (isConfigSourced host a && !isConfigured host clients a.clientId) = false) :
    deleteRemovedClients host clients cur = (cur, []) := by
  have hnone : (cur.applications.filter fun a =>
      isConfigSourced host a && !isConfigured host clients a.clientId) = [] :=
    List.filter_eq_nil_iff.mpr fun a ha => by rw [h a ha]; decide
  have hall : (cur.applications.filter fun a =>
      !(isConfigSourced host a && !isConfigured host clients a.clientId)) = cur.applications :=
    List.filter_eq_self.mpr fun a ha => by rw [h a ha]; rfl
  have hrows : (cur.registeredClients.filter fun row =>
      !([] : List Application).any (·.clientId = row.clientId)) = cur.registeredClients :=
    List.filter_eq_self.mpr fun _ _ => rfl
  rw [deleteRemovedClients, hnone, hall, hrows]
  rfl

theorem deleteRemovedClients_left (host : Host) (clients : List PreRegisteredClientDefinition)
    (cur : Database) :
    ∀ a ∈ (deleteRemovedClients host clients cur).1.applications, a ∈ cur.applications ∧
      (isConfigSourced host a && !isConfigured host clients a.clientId) = false := by
  intro a ha
  obtain ⟨hmem, hkept⟩ := List.mem_filter.mp ha
  rw [Bool.not_eq_true'] at hkept
  exact ⟨hmem, hkept⟩

/-! ## The sync -/

/-- A sync goes through, leaves every client as its definition says, and has nothing to do when it
comes again. -/
theorem syncAsync_synced (hready : Ready host clients db) (hproduced : Produced host db) :
    ∃ db' reports, syncAsync host clients db = some (db', reports) ∧ Produced host db' ∧
      (∀ c ∈ clients, Synced host db' c) ∧
      ∃ reports', syncAsync host clients db' = some (db', reports') ∧
        ∀ report ∈ reports', report.isChange = false := by
  obtain ⟨cur, reports, hrun, hadvanced, hsynced, -⟩ := createOrUpdateClients_synced hready
    clients (fun _ hc => hc) (.start hready hproduced)
  let db' := (deleteRemovedClients host clients cur).1
  have hleft := deleteRemovedClients_left host clients cur
  have hall : ∀ c ∈ clients, Synced host db' c := fun c hc =>
    deleteRemovedClients_synced hc (hsynced c hc)
  obtain ⟨reports', hrun', hreports'⟩ := createOrUpdateClients_fixed clients hready.registrable hall
    fun c hc name hname =>
      hadvanced.progress.grown.visible hready.directory (tenantNameOf_mem hc hname)
  have hfixed := deleteRemovedClients_fixed fun a ha => (hleft a ha).2
  refine ⟨db', _, by rw [syncAsync, hready.valid]; dsimp only; rw [hrun]; rfl,
    fun a ha => hadvanced.produced a (hleft a ha).1, hall, reports', ?_, hreports'⟩
  rw [syncAsync, hready.valid]
  dsimp only
  rw [hrun', Option.map_some]
  dsimp only
  rw [hfixed, List.append_nil]

end Proofs

/-! ## Runs -/

inductive DatabaseMove
  | sync (clients : List PreRegisteredClientDefinition)
  /-- Whatever else happens, which leaves the config-sourced applications alone. -/
  | others (db : Database)

def step (host : Host) (db : Database) : DatabaseMove → Option Database
  | .sync clients => (syncAsync host clients db).map Prod.fst
  | .others db' =>
    if db'.applications.filter (isConfigSourced host) =
        db.applications.filter (isConfigSourced host) then some db'
    else none

/-- A configuration is synced only where it can be. -/
def AllReady (host : Host) (db : Database) : DatabaseMove → Prop
  | .sync clients => Ready host clients db
  | .others _ => True

theorem Produced.step {host : Host} {db db' : Database} {move : DatabaseMove}
    (h : Produced host db) (hready : AllReady host db move)
    (hstep : ClientSync.step host db move = some db') : Produced host db' := by
  cases move with
  | sync clients =>
    obtain ⟨after, reports, hrun, hproduced, -, -⟩ := syncAsync_synced hready h
    rw [ClientSync.step, hrun, Option.map_some, Option.some.injEq] at hstep
    exact hstep ▸ hproduced
  | others after =>
    rw [ClientSync.step] at hstep
    split at hstep
    · rename_i hsame
      cases hstep
      intro a ha hsource
      have hmem : a ∈ db.applications.filter (isConfigSourced host) :=
        hsame ▸ List.mem_filter.mpr ⟨ha, hsource⟩
      exact h a (List.mem_filter.mp hmem).1 hsource
    · cases hstep

/-- Convergence: each configured client is as a sync of an empty database would create it, but for
the id its organization has there; and a second sync changes and reports nothing. -/
theorem sync_converges {host : Host} {clients : List PreRegisteredClientDefinition}
    {db₀ db : Database} (h₀ : ∀ a ∈ db₀.applications, isConfigSourced host a = false)
    (h : Reaches (step host) (AllReady host) db₀ db) (hready : Ready host clients db) :
    ∃ db' reports, syncAsync host clients db = some (db', reports) ∧
      (∀ empty : Database, empty.applications = [] → Ready host clients empty →
        ∃ fresh reports, syncAsync host clients empty = some (fresh, reports) ∧
          ∀ c ∈ clients, ∃ a b, findByClientId db' c.clientId = some a ∧
            findByClientId fresh c.clientId = some b ∧
            SameApplication { a with tenantId := none } { b with tenantId := none } ∧
            a.tenantId = organizationOf db' c ∧ b.tenantId = organizationOf fresh c) ∧
      ∃ reports', syncAsync host clients db' = some (db', reports') ∧
        ∀ report ∈ reports', report.isChange = false := by
  have hstart : Produced host db₀ := fun a ha hsource => by
    rw [h₀ a ha] at hsource
    cases hsource
  have hproduced : Produced host db := h.invariant (Produced host) hstart
    fun _ _ _ ha hguard hstep => ha.step hguard hstep
  obtain ⟨db', reports, hrun, -, hsynced, hagain⟩ := syncAsync_synced hready hproduced
  refine ⟨db', reports, hrun, fun empty hempty hreadyEmpty => ?_, hagain⟩
  have hnone : Produced host empty := fun a ha => by
    rw [hempty] at ha
    cases ha
  obtain ⟨fresh, reports', hrun', -, hfresh, -⟩ := syncAsync_synced hreadyEmpty hnone
  refine ⟨fresh, reports', hrun', fun c hc => ?_⟩
  obtain ⟨a, ha, hasame⟩ := (hsynced c hc).application
  obtain ⟨b, hb, hbsame⟩ := (hfresh c hc).application
  refine ⟨a, b, ha, hb, ⟨hasame.1.trans hbsame.1.symm, ?_⟩,
    hasame.field Application.tenantId fun _ _ => rfl,
    hbsame.field Application.tenantId fun _ _ => rfl⟩
  exact congrArg (fun x : Application => { x with tenantId := none }) hasame.2 |>.trans
    (congrArg (fun x : Application => { x with tenantId := none }) hbsame.2).symm

/-! ## Two runs -/

/-- A parser of one redirect URI. -/
def oneUri : UriParser where
  parse text := if text = "https://app.example/cb" then
    some ⟨"https", false, "", "https://app.example/cb", "https://app.example/cb"⟩ else none
  parse_absoluteUri text uri h := by
    split at h
    · cases h
      rfl
    · cases h

def oneHost : Host where
  uris := oneUri
  casing := .ascii
  toLower text := String.ofList (text.toList.map Char.toLower)
  collation :=
    { le := fun a b => decide (a ≤ b)
      le_total := fun a b => by simpa using le_total a b
      le_trans := fun a b c h h' =>
        decide_eq_true (le_trans (of_decide_eq_true h) (of_decide_eq_true h'))
      le_antisymm := fun a b h h' => le_antisymm (of_decide_eq_true h) (of_decide_eq_true h') }
  accepts clientId clientType hasSecret _ _ :=
    clientId ≠ "" && hasSecret = decide (clientType = some .confidential)

/-- A client of an organization. -/
def boundApp : PreRegisteredClientDefinition where
  clientId := "app"
  displayName := "App"
  secret := some "secret"
  redirectUris := ["https://app.example/cb"]
  postLogoutRedirectUris := []
  frontchannelLogoutUri := none
  backchannelLogoutUri := none
  backchannelLogoutSessionRequired := false
  scopes := ["openid"]
  refreshTokenLifetime := none
  tenantId := some 7
  tenantName := none
  seedMembers := []
  seedMemberRoles := []
  declaredPublic := none
  firstParty := false

/-- The client with another name and other scopes. -/
def renamedApp : PreRegisteredClientDefinition :=
  { boundApp with displayName := "My App", scopes := ["openid", "email"] }

/-- The client as one of the platform's own. -/
def firstPartyApp : PreRegisteredClientDefinition :=
  { boundApp with tenantId := none, firstParty := true }

def noApplications : Database where
  applications := []
  registeredClients := []
  organizations := [⟨7, "Example", "example"⟩]
  lastOrganizationId := 7
  memberships := []
  findByEmail _ := none
  resolveRole _ := none

/-- A configuration of one client that names no organization to look up and seeds no members. -/
theorem Ready.single {host : Host} {client : PreRegisteredClientDefinition} {db : Database}
    (hvalid : validate host [client] = .ok ()) (hregistrable : Registrable host client)
    (hids : ∀ o ∈ db.organizations, o.id ≠ Guid.empty) (hname : tenantNameOf client = none)
    (hseeds : client.seedMembers = [])
    (hupdatable : ∀ a, findByClientId db client.clientId = some a → Updatable host client a) :
    Ready host [client] db := by
  have hnames : tenantNames [client] = [] := by
    rw [tenantNames, List.filterMap_cons_none hname, List.filterMap_nil]
  have hmissing : ∀ name, name ∉ missingNames [client] db.organizations := fun name hmem => by
    rw [mem_missingNames, hnames] at hmem
    exact List.not_mem_nil hmem.1
  refine ⟨hvalid, fun c hc d hd _ => ?_, fun c hc => ?_, ⟨fun name hmem => ?_,
    fun name hmem => absurd hmem (hmissing name), fun name hmem => absurd hmem (hmissing name)⟩,
    hids, fun c hc email hemail => ?_, fun c hc => ?_⟩
  · rw [List.mem_singleton.mp hc, List.mem_singleton.mp hd]
  · exact List.mem_singleton.mp hc ▸ hregistrable
  · rw [hnames] at hmem
    cases hmem
  · rw [List.mem_singleton.mp hc, hseeds] at hemail
    cases hemail
  · exact List.mem_singleton.mp hc ▸ hupdatable

/-- A client that was synced before and then got another name and another scope. -/
theorem sync_converges_renamed :
    ∃ db db' reports, Reaches (step oneHost) (AllReady oneHost) noApplications db ∧
      syncAsync oneHost [renamedApp] db = some (db', reports) ∧
      ∃ reports', syncAsync oneHost [renamedApp] db' = some (db', reports') ∧
        ∀ report ∈ reports', report.isChange = false := by
  have hbound : Registrable oneHost boundApp :=
    ⟨by decide +kernel, by decide +kernel, by decide +kernel, fun _ => by decide +kernel⟩
  have hrenamed : Registrable oneHost renamedApp :=
    ⟨by decide +kernel, by decide +kernel, by decide +kernel, fun _ => by decide +kernel⟩
  have hready : Ready oneHost [boundApp] noApplications :=
    .single (by decide +kernel) hbound (by decide) (by decide +kernel) rfl
      fun a (hnone : none = some a) => nomatch hnone
  have hrun : ((step oneHost noApplications (.sync [boundApp])).any fun db =>
      decide (findByClientId db "app" = some (buildDescriptor oneHost boundApp (some 7)) ∧
        db.organizations = noApplications.organizations)) = true := by decide +kernel
  obtain ⟨db, hstep, htest⟩ := (Option.any_eq_true _ _).mp hrun
  obtain ⟨hfind, horganizations⟩ := of_decide_eq_true htest
  have hreaches : Reaches (step oneHost) (AllReady oneHost) noApplications db :=
    .tail (l := .sync [boundApp]) .refl hready hstep
  have hupdatable : Updatable oneHost renamedApp (buildDescriptor oneHost boundApp (some 7)) :=
    ⟨by decide +kernel, by decide +kernel, by decide +kernel, by decide +kernel,
      by decide +kernel, by decide +kernel, by decide +kernel⟩
  have hready' : Ready oneHost [renamedApp] db := by
    refine .single (by decide +kernel) hrenamed ?_ (by decide +kernel) rfl fun a ha => ?_
    · rw [horganizations]
      decide
    · have heq : buildDescriptor oneHost boundApp (some 7) = a :=
        Option.some.inj (hfind.symm.trans ha)
      exact heq ▸ hupdatable
  obtain ⟨db', reports, hsync, -, hagain⟩ :=
    sync_converges (fun a (hnone : a ∈ []) => nomatch hnone) hreaches hready'
  exact ⟨db, db', reports, hreaches, hsync, hagain⟩

/-- A client that has become first-party keeps its tenant, and every sync reports it as updated. -/
theorem tenant_stays_of_firstParty :
    ∃ db db' reports fresh reports', Reachable (step oneHost) noApplications db ∧
      syncAsync oneHost [firstPartyApp] db = some (db', reports) ∧
      syncAsync oneHost [firstPartyApp] noApplications = some (fresh, reports') ∧
      (findByClientId db' "app").map Application.tenantId = some (some 7) ∧
      (findByClientId fresh "app").map Application.tenantId = some none ∧
      (syncAsync oneHost [firstPartyApp] db').map Prod.snd = some [.clientUpdated "app"] := by
  have hrun : ((step oneHost noApplications (.sync [boundApp])).any fun db =>
      (syncAsync oneHost [firstPartyApp] db).any fun after =>
        decide ((findByClientId after.1 "app").map Application.tenantId = some (some 7) ∧
          (syncAsync oneHost [firstPartyApp] after.1).map Prod.snd =
            some [.clientUpdated "app"])) = true := by decide +kernel
  have hfresh : ((syncAsync oneHost [firstPartyApp] noApplications).any fun after =>
      decide ((findByClientId after.1 "app").map Application.tenantId = some none)) = true := by
    decide +kernel
  obtain ⟨db, hstep, hafter⟩ := (Option.any_eq_true _ _).mp hrun
  obtain ⟨after, hsync, htest⟩ := (Option.any_eq_true _ _).mp hafter
  obtain ⟨fresh, hsync', htest'⟩ := (Option.any_eq_true _ _).mp hfresh
  obtain ⟨htenant, hagain⟩ := of_decide_eq_true htest
  exact ⟨db, after.1, after.2, fresh.1, fresh.2,
    .tail (l := .sync [boundApp]) .refl trivial hstep, hsync, hsync', htenant,
    of_decide_eq_true htest', hagain⟩

end Wallow.Identity.ClientSync
