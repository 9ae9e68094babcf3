import Wallow.Lib.SortedPage
import Wallow.Primitives
import Wallow.Shared.Principals
import Mathlib.Data.Finset.Image
import Mathlib.Data.List.Infix

/-!
# Pre-registered clients

`PreRegisteredClientSyncService.cs`, with `PreRegisteredClientOptions.cs`, what it writes through
`OpenIddictApplicationExtensions.cs`, and what it asks of `OrganizationService.cs`: a sync brings
the OpenIddict applications of the configured clients, their registry rows and their organizations
in line with the configuration.
-/

namespace Wallow.Identity.ClientSync

open Wallow.Shared
open Wallow.Api (isWhiteSpace)

/-! ## What the sync runs on -/

structure AbsoluteUri where
  scheme : String
  isLoopback : Bool
  fragment : String
  absoluteUri : String
  /-- What `Uri.Equals` compares: neither the user information nor the fragment is part of it. -/
  comparand : String
  deriving DecidableEq

/-- `new Uri`, which throws where there is none. -/
structure UriParser where
  parse : String → Option AbsoluteUri
  parse_absoluteUri : ∀ text uri, parse text = some uri →
    (parse uri.absoluteUri).map AbsoluteUri.comparand = some uri.comparand

/-- The order of the database. -/
structure Collation where
  le : String → String → Bool
  le_total : ∀ a b, le a b = true ∨ le b a = true
  le_trans : ∀ a b c, le a b = true → le b c = true → le a c = true
  le_antisymm : ∀ a b, le a b = true → le b a = true → a = b

inductive ClientType
  | publicClient
  | confidential
  deriving DecidableEq

structure Host where
  uris : UriParser
  casing : OrdinalCasing
  /-- `ToLowerInvariant`. -/
  toLower : String → String
  collation : Collation
  /-- What OpenIddict validates before it saves an application: its id, its type and whether it has
  a secret, its redirect and its post-logout redirect URIs. -/
  accepts : String → Option ClientType → Bool → Finset String → Finset String → Bool

/-! ## The configuration -/

structure PreRegisteredClientDefinition where
  clientId : String
  displayName : String
  secret : Option String
  redirectUris : List String
  postLogoutRedirectUris : List String
  frontchannelLogoutUri : Option String
  backchannelLogoutUri : Option String
  backchannelLogoutSessionRequired : Bool
  scopes : List String
  refreshTokenLifetime : Option Int
  tenantId : Option Guid
  tenantName : Option String
  seedMembers : List String
  seedMemberRoles : List (String × String)
  declaredPublic : Option Bool
  firstParty : Bool
  deriving DecidableEq

def isNullOrWhiteSpace (text : Option String) : Bool :=
  text.all fun text => text.toList.all isWhiteSpace

namespace PreRegisteredClientDefinition

variable (c : PreRegisteredClientDefinition)

def isPublic : Bool := c.declaredPublic = some true

def isBoundToOrganization : Bool :=
  c.tenantId.any (· ≠ Guid.empty) || !isNullOrWhiteSpace c.tenantName

def clientType : ClientType := if c.isPublic then .publicClient else .confidential

/-- `IsServiceAccount`. -/
def isServiceAccount : Bool := "sa-".toList.isPrefixOf c.clientId.toList

end PreRegisteredClientDefinition

def MINIMUM_SECONDS : Int := 60
def MAXIMUM_SECONDS : Int := 31536000
def FIRST_PARTY_DEFAULT_SECONDS : Int := 604800
def THIRD_PARTY_DEFAULT_SECONDS : Int := 86400

def isInRange (seconds : Int) : Bool := MINIMUM_SECONDS ≤ seconds && seconds ≤ MAXIMUM_SECONDS

section Validate

variable (host : Host)

def tryParseWebUri (value : String) : Option AbsoluteUri :=
  if isNullOrWhiteSpace (some value) then none
  else (host.uris.parse (String.ofList (Api.trim value.toList))).filter fun uri =>
    (uri.scheme = "http" || uri.scheme = "https") && uri.fragment = ""

def tryParseRedirectUri (value : String) : Option AbsoluteUri :=
  (tryParseWebUri host value).filter fun uri => !(uri.scheme = "http" && !uri.isLoopback)

def tryParseBackchannelLogoutUri (value : String) (isConfidential : Bool) : Option AbsoluteUri :=
  (tryParseWebUri host value).filter fun uri => !(uri.scheme = "http" && !isConfidential)

def firstRefusedRedirect (values : List String) : Option String :=
  values.find? fun value => (tryParseRedirectUri host value).isNone

def joinIds (ids : List String) : String := ", ".intercalate ids

/-- The ids of the clients that break a rule. -/
def offenders (clients : List PreRegisteredClientDefinition)
    (violates : PreRegisteredClientDefinition → Bool) : List String :=
  (clients.filter violates).map PreRegisteredClientDefinition.clientId

def ORGANIZATION_RULES : List ((PreRegisteredClientDefinition → Bool) × String × String) := [
  (fun c => c.firstParty && c.isBoundToOrganization, "first-party client(s) ",
    " declare an organization (\"tenantId\"/\"tenantName\"); a first-party client is bound to " ++
    "no organization"),
  (fun c => c.firstParty && (!c.seedMembers.isEmpty || !c.seedMemberRoles.isEmpty),
    "first-party client(s) ",
    " declare \"seedMembers\"/\"seedMemberRoles\"; seed members belong to an organization-bound " ++
    "client"),
  (fun c => !c.firstParty && !c.isBoundToOrganization, "client(s) ",
    " declare no organization; a client that is not \"firstParty\": true must name exactly one " ++
    "(\"tenantId\" or \"tenantName\")")]

/-- `PreRegisteredClientOptions.Validate`, with the message of the exception. -/
def validate (clients : List PreRegisteredClientDefinition) : Except String Unit :=
  let silentlyPublic := offenders clients fun c =>
    isNullOrWhiteSpace c.secret && !(c.declaredPublic = some true)
  let badRedirects := clients.filterMap fun c =>
    (firstRefusedRedirect host (c.redirectUris ++ c.postLogoutRedirectUris)).map fun refused =>
      c.clientId ++ " (" ++ refused ++ ")"
  let badBackchannelUris := clients.filterMap fun c =>
    (c.backchannelLogoutUri.filter fun uri =>
      (tryParseBackchannelLogoutUri host uri !c.isPublic).isNone).map fun uri =>
        c.clientId ++ " (" ++ uri ++ ")"
  let badLifetimes := offenders clients fun c => c.refreshTokenLifetime.any (!isInRange ·)
  let problems := ORGANIZATION_RULES.filterMap fun (violates, before, after) =>
    let ids := offenders clients violates
    if ids.isEmpty then none else some (before ++ joinIds ids ++ after)
  if !silentlyPublic.isEmpty then
    .error ("Pre-registered client(s) " ++ joinIds silentlyPublic ++ " have no secret and do " ++
      "not declare \"public\": true. A missing secret never implies a public client: declare " ++
      "\"public\": true for browser/native clients, or supply the secret for confidential ones.")
  else if !badRedirects.isEmpty then
    .error ("Pre-registered client(s) " ++ joinIds badRedirects ++ " register a redirect URI " ++
      "the platform refuses. Redirect URIs must be absolute, carry no fragment, and use https " ++
      "or http://localhost.")
  else if !badBackchannelUris.isEmpty then
    .error ("Pre-registered client(s) " ++ joinIds badBackchannelUris ++ " register a " ++
      "back-channel logout URI the platform refuses. Back-channel logout URIs must be absolute, " ++
      "carry no fragment, and use https; plain http is allowed only for confidential clients.")
  else if !badLifetimes.isEmpty then
    .error ("Pre-registered client(s) " ++ joinIds badLifetimes ++ " declare a " ++
      "\"refreshTokenLifetime\" outside the accepted range of " ++ toString MINIMUM_SECONDS ++
      " to " ++ toString MAXIMUM_SECONDS ++ " seconds.")
  else if !problems.isEmpty then
    .error ("Pre-registered clients violate the client/organization invariant: " ++
      "; ".intercalate problems ++ ".")
  else .ok ()

end Validate

/-! ## The database -/

inductive ConsentType
  | implicit
  | explicit
  deriving DecidableEq

/-- The permissions, with the prefix of a scope as a constructor. -/
inductive Permission
  | tokenEndpoint
  | revocationEndpoint
  | authorizationEndpoint
  | endSessionEndpoint
  | clientCredentials
  | authorizationCode
  | refreshToken
  | codeResponse
  | scope (name : String)
  | other (text : String)
  deriving DecidableEq

/-- `StartsWith(Permissions.Prefixes.Scope)`. -/
def Permission.isScope : Permission → Bool
  | .scope _ => true
  | _ => false

inductive Requirement
  | proofKeyForCodeExchange
  | other (text : String)
  deriving DecidableEq

/-- An application of OpenIddict, and the descriptor it is populated into.  The properties and the
setting that the sync knows are fields. -/
@[ext] structure Application where
  clientId : String
  clientSecret : Option String
  displayName : Option String
  clientType : Option ClientType
  consentType : Option ConsentType
  permissions : Finset Permission
  requirements : Finset Requirement
  redirectUris : Finset String
  postLogoutRedirectUris : Finset String
  /-- In seconds, of the setting. -/
  refreshTokenLifetime : Option Int
  source : Option String
  tenantId : Option Guid
  frontchannelLogoutUri : Option String
  backchannelLogoutUri : Option String
  backchannelLogoutSessionRequired : Bool
  otherProperties : List (String × String)
  deriving DecidableEq

structure Organization where
  id : Guid
  name : String
  slug : String
  deriving DecidableEq

structure Membership where
  organizationId : Guid
  userId : Guid
  active : Bool
  roleIds : List Guid
  deriving DecidableEq

inductive RegisteredClientKind
  | application
  | serviceAccount
  deriving DecidableEq

structure RegisteredClient where
  clientId : String
  organizationId : Guid
  name : String
  kind : RegisteredClientKind
  suspended : Bool
  deriving DecidableEq

structure Database where
  applications : List Application
  registeredClients : List RegisteredClient
  organizations : List Organization
  /-- The ids of organizations are counted. -/
  lastOrganizationId : Nat
  memberships : List Membership
  findByEmail : String → Option Guid
  /-- `ResolveRoleIdAsync`, which throws where there is none. -/
  resolveRole : String → Option Guid

/-- What the sync logs. -/
inductive SyncReport
  | clientCreated (clientId : String)
  | clientUpdated (clientId : String)
  | clientDeleted (clientId : String)
  | tenantCreated (clientId tenantName : String)
  | seedMemberAdded (clientId email roleName : String)
  | seedMemberNotFound (clientId email : String)
  | registryRowRemoved (clientId : String)
  | registryRowSynced (clientId : String) (tenantId : Guid)
  deriving DecidableEq

/-- A warning about a seed member without an account reports no change. -/
def SyncReport.isChange : SyncReport → Bool
  | .seedMemberNotFound _ _ => false
  | _ => true

/-! ## Organizations -/

section Organizations

variable (host : Host)

def isNamed (name : String) (organization : Organization) : Bool :=
  host.casing.equals organization.name name

/-- `OrganizationRepository.GetAllAsync` with its defaults: the first twenty by name. -/
def getOrganizations (organizations : List Organization) (search : String) : List Organization :=
  SortedPage.page (fun a b : Organization => host.collation.le a.name b.name = true) 20
    (if isNullOrWhiteSpace (some search) then organizations
    else organizations.filter fun o => decide (search.toList <:+: o.name.toList))

/-- `Replace("--", "-")`. -/
def replaceDoubleHyphens : List Char → List Char
  | '-' :: '-' :: rest => '-' :: replaceDoubleHyphens rest
  | c :: rest => c :: replaceDoubleHyphens rest
  | [] => []

def generateSlug (name : String) : String :=
  let hyphens := (host.toLower name).toList.map fun c => if c = ' ' then '-' else c
  let replaced := replaceDoubleHyphens hyphens
  String.ofList ((replaced.dropWhile (· = '-')).reverse.dropWhile (· = '-')).reverse

/-- Whether `CreateOrganizationAsync` goes through: neither text is blank or too long for its
column, and the slug is not taken. -/
def isCreatable (organizations : List Organization) (name : String) : Bool :=
  let slug := generateSlug host name
  !isNullOrWhiteSpace (some name) && !isNullOrWhiteSpace (some slug) &&
    decide (name.length ≤ 256) && decide (slug.length ≤ 256) &&
    decide (slug ∉ organizations.map Organization.slug)

def createOrganization (db : Database) (name : String) : Option (Guid × Database) :=
  if isCreatable host db.organizations name then
    let id := db.lastOrganizationId + 1
    some (id, { db with
      organizations := db.organizations ++ [⟨id, name, generateSlug host name⟩]
      lastOrganizationId := id })
  else none

end Organizations

namespace Database

def hasOrganization (db : Database) (orgId : Guid) : Bool := db.organizations.any (·.id = orgId)

/-- `GetMembersAsync`, by the ids of the users. -/
def getMembers (db : Database) (orgId : Guid) : List Guid :=
  if db.hasOrganization orgId then
    (db.memberships.filter fun m => decide (m.organizationId = orgId) && m.active).map
      Membership.userId
  else []

end Database

/-- `Membership.Grant`. -/
def Membership.grant (m : Membership) (roleId : Guid) : Membership :=
  { m with
    active := true
    roleIds := if roleId ∈ m.roleIds then m.roleIds else m.roleIds ++ [roleId] }

def addMember (db : Database) (orgId userId : Guid) (roleName : String) : Option Database :=
  if db.hasOrganization orgId then
    (db.resolveRole roleName).map fun roleId =>
      let isMembership := fun m : Membership => m.organizationId = orgId ∧ m.userId = userId
      { db with
        memberships :=
          if db.memberships.any (isMembership ·) then
            db.memberships.map fun m => if isMembership m then m.grant roleId else m
          else db.memberships ++ [⟨orgId, userId, true, [roleId]⟩] }
  else none

/-! ## The sync -/

section Sync

variable (host : Host)

def resolveSeedMemberRole (client : PreRegisteredClientDefinition) (email : String) : String :=
  match client.seedMemberRoles.find? fun entry => host.casing.equals entry.1 email with
  | some (_, configured) => if isNullOrWhiteSpace (some configured) then "user" else configured
  | none => "user"

/-- The loop of `EnsureSeedMembersAsync`; the members are those before it. -/
def addSeedMembers (client : PreRegisteredClientDefinition) (orgId : Guid)
    (memberIds : List Guid) : List String → Database → Option (Database × List SyncReport)
  | [], db => some (db, [])
  | email :: emails, db =>
    match db.findByEmail email with
    | none =>
      (addSeedMembers client orgId memberIds emails db).map fun (db, reports) =>
        (db, .seedMemberNotFound client.clientId email :: reports)
    | some userId =>
      if userId ∈ memberIds then addSeedMembers client orgId memberIds emails db
      else
        let roleName := resolveSeedMemberRole host client email
        (addMember db orgId userId roleName).bind fun db =>
          (addSeedMembers client orgId memberIds emails db).map fun (db, reports) =>
            (db, .seedMemberAdded client.clientId email roleName :: reports)

def ensureSeedMembers (db : Database) (orgId : Guid) (client : PreRegisteredClientDefinition) :
    Option (Database × List SyncReport) :=
  if client.seedMembers.isEmpty then some (db, [])
  else addSeedMembers host client orgId (db.getMembers orgId) client.seedMembers db

/-- `ResolveTenantIdAsync` of a client that names its organization. -/
def resolveTenantName (db : Database) (client : PreRegisteredClientDefinition)
    (tenantName : String) : Option (Guid × Database × List SyncReport) :=
  match (getOrganizations host db.organizations tenantName).find? (isNamed host tenantName) with
  | some organization =>
    (ensureSeedMembers host db organization.id client).map fun (db, reports) =>
      (organization.id, db, reports)
  | none =>
    (createOrganization host db tenantName).bind fun (orgId, db) =>
      (ensureSeedMembers host db orgId client).map fun (db, reports) =>
        (orgId, db, .tenantCreated client.clientId tenantName :: reports)

def resolveTenantId (db : Database) (client : PreRegisteredClientDefinition) :
    Option (Option Guid × Database × List SyncReport) :=
  match client.tenantId.filter (· ≠ Guid.empty) with
  | some tenantId =>
    (ensureSeedMembers host db tenantId client).map fun (db, reports) =>
      (some tenantId, db, reports)
  | none =>
    match client.tenantName.filter fun name => !isNullOrWhiteSpace (some name) with
    | some tenantName =>
      (resolveTenantName host db client tenantName).map fun (orgId, db, reports) =>
        (some orgId, db, reports)
    | none => some (none, db, [])

def consentTypeFor (client : PreRegisteredClientDefinition) : ConsentType :=
  if client.firstParty then .implicit else .explicit

def refreshTokenLifetimeFor (client : PreRegisteredClientDefinition) : Option Int :=
  if client.isServiceAccount then none
  else some (client.refreshTokenLifetime.getD
    (if client.firstParty then FIRST_PARTY_DEFAULT_SECONDS else THIRD_PARTY_DEFAULT_SECONDS))

/-- What `Uri.Equals` compares of a text. -/
def comparand (text : String) : Option String :=
  (host.uris.parse text).map AbsoluteUri.comparand

def absoluteUri (text : String) : String :=
  ((host.uris.parse text).map AbsoluteUri.absoluteUri).getD text

def comparands (texts : Finset String) : Finset (Option String) := texts.image (comparand host)

/-- `HashSet<Uri>.Add`: a text stays out when another one of its comparand is in. -/
def addUri (texts : Finset String) (text : String) : Finset String :=
  if comparand host text ∈ comparands host texts then texts else insert text texts

def uriSet (texts : List String) : Finset String := texts.foldl (addUri host) ∅

/-- None of `new Uri` throws. -/
def areUris (client : PreRegisteredClientDefinition) : Bool :=
  (client.redirectUris ++ client.postLogoutRedirectUris ++ client.frontchannelLogoutUri.toList ++
    client.backchannelLogoutUri.toList).all fun text => (host.uris.parse text).isSome

def basePermissions (client : PreRegisteredClientDefinition) : Finset Permission :=
  if client.isServiceAccount then {.tokenEndpoint, .revocationEndpoint, .clientCredentials}
  else {.authorizationEndpoint, .endSessionEndpoint, .tokenEndpoint, .revocationEndpoint,
    .authorizationCode, .refreshToken, .codeResponse}

def scopePermissions (client : PreRegisteredClientDefinition) : Finset Permission :=
  (client.scopes.map Permission.scope).toFinset

def buildDescriptor (client : PreRegisteredClientDefinition) (tenantId : Option Guid) :
    Application where
  clientId := client.clientId
  clientSecret := if client.isPublic then none else client.secret
  displayName := some client.displayName
  clientType := some client.clientType
  consentType := some (consentTypeFor client)
  permissions := basePermissions client ∪ scopePermissions client
  requirements := if client.isServiceAccount then ∅ else {.proofKeyForCodeExchange}
  redirectUris := uriSet host client.redirectUris
  postLogoutRedirectUris := uriSet host client.postLogoutRedirectUris
  refreshTokenLifetime := refreshTokenLifetimeFor client
  source := some "config"
  tenantId := tenantId
  frontchannelLogoutUri := client.frontchannelLogoutUri.map (absoluteUri host)
  backchannelLogoutUri := client.backchannelLogoutUri.map (absoluteUri host)
  backchannelLogoutSessionRequired := client.backchannelLogoutSessionRequired
  otherProperties := []

/-- One comparison of the update: the value it leaves, and whether that is a change. -/
def replaceUnless {α : Type} (same : Bool) (current expected : α) : α × Bool :=
  if same then (current, false) else (expected, true)

/-- A set of URIs is compared by `SetEquals`. -/
def updateUris (current : Finset String) (configured : List String) : Finset String × Bool :=
  replaceUnless (comparands host current = (configured.map (comparand host)).toFinset) current
    (uriSet host configured)

/-- A logout URI is compared with what its property parses to. -/
def updateLogoutUri (current configured : Option String) : Option String × Bool :=
  replaceUnless (current.bind (comparand host) = configured.bind (comparand host)) current
    (configured.map (absoluteUri host))

def updateRefreshTokenLifetime (current expected : Option Int) : Option Int × Bool :=
  match expected with
  | none => (current, false)
  | some seconds => replaceUnless (current = some seconds) current (some seconds)

/-- The comparisons of `UpdateClientAsync`, in their order. -/
def updateDescriptor (descriptor : Application) (client : PreRegisteredClientDefinition)
    (resolvedTenantId : Option Guid) : Application × Bool :=
  let displayName := replaceUnless (descriptor.displayName = some client.displayName)
    descriptor.displayName (some client.displayName)
  let clientType := replaceUnless (descriptor.clientType = some client.clientType)
    descriptor.clientType (some client.clientType)
  -- A secret is written only where the type has changed, and never taken away.
  let clientSecret :=
    if clientType.2 && !client.isPublic then client.secret else descriptor.clientSecret
  let redirectUris := updateUris host descriptor.redirectUris client.redirectUris
  let postLogoutRedirectUris :=
    updateUris host descriptor.postLogoutRedirectUris client.postLogoutRedirectUris
  let permissions :=
    replaceUnless (descriptor.permissions.filter (·.isScope) = scopePermissions client)
      descriptor.permissions
      (descriptor.permissions.filter (!·.isScope) ∪ scopePermissions client)
  let source := replaceUnless descriptor.source.isSome descriptor.source (some "config")
  let consentType := replaceUnless (descriptor.consentType = some (consentTypeFor client))
    descriptor.consentType (some (consentTypeFor client))
  let refreshTokenLifetime := updateRefreshTokenLifetime descriptor.refreshTokenLifetime
    (refreshTokenLifetimeFor client)
  let frontchannelLogoutUri :=
    updateLogoutUri host descriptor.frontchannelLogoutUri client.frontchannelLogoutUri
  let backchannelLogoutUri :=
    updateLogoutUri host descriptor.backchannelLogoutUri client.backchannelLogoutUri
  let sessionRequired := replaceUnless
    (descriptor.backchannelLogoutSessionRequired = client.backchannelLogoutSessionRequired)
    descriptor.backchannelLogoutSessionRequired client.backchannelLogoutSessionRequired
  -- The property is set where there is an organization, and otherwise left as it is.
  let tenantId := replaceUnless (descriptor.tenantId = resolvedTenantId) descriptor.tenantId
    (resolvedTenantId.or descriptor.tenantId)
  ({ descriptor with
      displayName := displayName.1
      clientType := clientType.1
      clientSecret := clientSecret
      redirectUris := redirectUris.1
      postLogoutRedirectUris := postLogoutRedirectUris.1
      permissions := permissions.1
      source := source.1
      consentType := consentType.1
      refreshTokenLifetime := refreshTokenLifetime.1
      frontchannelLogoutUri := frontchannelLogoutUri.1
      backchannelLogoutUri := backchannelLogoutUri.1
      backchannelLogoutSessionRequired := sessionRequired.1
      tenantId := tenantId.1 },
    displayName.2 || clientType.2 || redirectUris.2 || postLogoutRedirectUris.2 ||
      permissions.2 || source.2 || consentType.2 || refreshTokenLifetime.2 ||
      frontchannelLogoutUri.2 || backchannelLogoutUri.2 || sessionRequired.2 || tenantId.2)

def findByClientId (db : Database) (clientId : String) : Option Application :=
  db.applications.find? (·.clientId = clientId)

/-- The validation of OpenIddict before it saves. -/
def isAccepted (application : Application) : Bool :=
  host.accepts application.clientId application.clientType application.clientSecret.isSome
    application.redirectUris application.postLogoutRedirectUris

/-- `CreateClientAsync` or `UpdateClientAsync`. -/
def syncApplication (db : Database) (client : PreRegisteredClientDefinition)
    (tenantId : Option Guid) : Option (Database × List SyncReport) :=
  -- `FindByClientIdAsync` throws at an empty id.
  if client.clientId = "" || !areUris host client then none
  else
    match findByClientId db client.clientId with
    | some existing =>
      let (application, changed) := updateDescriptor host existing client tenantId
      if !changed then some (db, [])
      else if isAccepted host application then
        some ({ db with
          applications := db.applications.map fun a =>
            if a.clientId = client.clientId then application else a },
          [.clientUpdated client.clientId])
      else none
    | none =>
      let application := buildDescriptor host client tenantId
      if isAccepted host application then
        some ({ db with applications := db.applications ++ [application] },
          [.clientCreated client.clientId])
      else none

/-- `RegisteredClient.Create`, which throws for a blank id or name. -/
def createRegisteredClient (client : PreRegisteredClientDefinition) (organizationId : Guid) :
    Option RegisteredClient :=
  if isNullOrWhiteSpace (some client.clientId) || isNullOrWhiteSpace (some client.displayName) ||
      decide (organizationId = Guid.empty) then none
  else some {
    clientId := client.clientId
    organizationId := organizationId
    name := String.ofList (Api.trim client.displayName.toList)
    kind := if client.isServiceAccount then .serviceAccount else .application
    suspended := false }

def getRegistered (db : Database) (clientId : String) : Option RegisteredClient :=
  db.registeredClients.find? (·.clientId = clientId)

def removeRegistered (db : Database) (clientId : String) : Database :=
  { db with registeredClients := db.registeredClients.filter (·.clientId ≠ clientId) }

/-- `SyncRegistryRowAsync`. -/
def syncRegistryRow (db : Database) (client : PreRegisteredClientDefinition)
    (tenantId : Option Guid) : Option (Database × List SyncReport) :=
  match tenantId, getRegistered db client.clientId with
  | none, none => some (db, [])
  | none, some _ =>
    some (removeRegistered db client.clientId, [.registryRowRemoved client.clientId])
  | some tenantId, record =>
    if record.map RegisteredClient.organizationId = some tenantId then some (db, [])
    else
      (createRegisteredClient client tenantId).map fun row =>
        let rest := (removeRegistered db client.clientId).registeredClients
        ({ db with registeredClients := rest ++ [row] },
          [.registryRowSynced client.clientId tenantId])

def createOrUpdateClient (db : Database) (client : PreRegisteredClientDefinition) :
    Option (Database × List SyncReport) :=
  (resolveTenantId host db client).bind fun (tenantId, db, resolved) =>
    (syncApplication host db client tenantId).bind fun (db, synced) =>
      (syncRegistryRow db client tenantId).map fun (db, registered) =>
        (db, resolved ++ synced ++ registered)

def createOrUpdateClients : List PreRegisteredClientDefinition → Database →
    Option (Database × List SyncReport)
  | [], db => some (db, [])
  | client :: clients, db =>
    (createOrUpdateClient host db client).bind fun (db, reports) =>
      (createOrUpdateClients clients db).map fun (db, rest) => (db, reports ++ rest)

def isConfigSourced (application : Application) : Bool :=
  application.source.any fun source => host.casing.equals source "config"

def isConfigured (clients : List PreRegisteredClientDefinition) (clientId : String) : Bool :=
  clients.any fun c => host.casing.equals c.clientId clientId

/-- `DeleteRemovedClientsAsync`. -/
def deleteRemovedClients (clients : List PreRegisteredClientDefinition) (db : Database) :
    Database × List SyncReport :=
  let removed := db.applications.filter fun a =>
    isConfigSourced host a && !isConfigured host clients a.clientId
  ({ db with
      applications := db.applications.filter fun a =>
        !(isConfigSourced host a && !isConfigured host clients a.clientId)
      registeredClients := db.registeredClients.filter fun row =>
        !removed.any (·.clientId = row.clientId) },
    removed.map fun a => .clientDeleted a.clientId)

/-- `SyncAsync`, with what it logs; `none` where it throws. -/
def syncAsync (clients : List PreRegisteredClientDefinition) (db : Database) :
    Option (Database × List SyncReport) :=
  match validate host clients with
  | .error _ => none
  | .ok () =>
    (createOrUpdateClients host clients db).map fun (db, reports) =>
      let (db, deleted) := deleteRemovedClients host clients db
      (db, reports ++ deleted)

end Sync

end Wallow.Identity.ClientSync
