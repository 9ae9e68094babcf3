import Wallow.Lib.Memo
import Wallow.Identity.ClientSync

/-!
# Origins a redirect may have

`OpenIddictRedirectUriValidator.cs`: the origins of one client, or of all of them, kept in a cache
under a key that ends in the client id the caller gave.
-/

namespace Wallow.Identity.RedirectOrigins

open Wallow.Shared
open ClientSync (isNullOrWhiteSpace)

/-! ## The validator -/

/-- What the validator reads of a `Uri`. -/
structure ParsedUri where
  scheme : String
  host : String
  port : Int
  isDefaultPort : Bool
  deriving DecidableEq

/-- `GetOrigin`. -/
def getOrigin (uri : ParsedUri) : String :=
  if uri.isDefaultPort then uri.scheme ++ "://" ++ uri.host
  else uri.scheme ++ "://" ++ uri.host ++ ":" ++ toString uri.port

structure Application where
  clientId : String
  redirectUris : List String
  postLogoutRedirectUris : List String
  deriving DecidableEq

/-- What the validator runs on: the absolute URIs there are, the registered applications, of which
no two share an id, and the configured `AuthUrl`. -/
structure Environment where
  casing : OrdinalCasing
  /-- `Uri.TryCreate` of an absolute URI. -/
  tryCreate : String → Option ParsedUri
  applications : List Application
  unique : applications.Pairwise fun one other => one.clientId ≠ other.clientId
  authUrl : Option String

def CACHE_KEY_PREFIX : String := "allowed_redirect_origins:"

def ALL_CLIENTS_CACHE_KEY : String := CACHE_KEY_PREFIX ++ "*"

structure Call where
  uri : String
  clientId : Option String
  deriving DecidableEq

/-- The client a call is scoped to. -/
def scope (clientId : Option String) : Option String :=
  if isNullOrWhiteSpace clientId then none else clientId

def cacheKey (clientId : Option String) : String :=
  match scope clientId with
  | some id => CACHE_KEY_PREFIX ++ id
  | none => ALL_CLIENTS_CACHE_KEY

/-- The caches of the processes and the one they share. -/
abbrev OriginCaches := Memo.Levels String (List String)

variable (env : Environment)

/-- `HashSet.Add`, with the set's comparer. -/
def add (origins : List String) (origin : String) : List String :=
  if origins.any fun kept => env.casing.equals kept origin then origins else origins ++ [origin]

def contains (origins : List String) (origin : String) : Bool :=
  origins.any fun kept => env.casing.equals kept origin

def addOrigins (uris : List String) (origins : List String) : List String :=
  uris.foldl (fun origins uri =>
    match env.tryCreate uri with
    | some parsedUri => add env origins (getOrigin parsedUri)
    | none => origins) origins

def addApplicationOrigins (origins : List String) (application : Application) : List String :=
  addOrigins env application.postLogoutRedirectUris
    (addOrigins env application.redirectUris origins)

/-- What `GetAllowedOriginsAsync` computes where the cache has nothing. -/
def createOrigins (clientId : Option String) : List String :=
  let origins :=
    match scope clientId with
    | some id =>
      -- an unknown client resolves to no application
      match env.applications.find? fun application => application.clientId = id with
      | some application => addApplicationOrigins env [] application
      | none => []
    | none => env.applications.foldl (addApplicationOrigins env) []
  match env.authUrl with
  | none => origins
  | some authUrl => if authUrl = "" then origins else addOrigins env [authUrl] origins

def originOf (uri : String) : Option String :=
  if isNullOrWhiteSpace (some uri) then none else (env.tryCreate uri).map getOrigin

/-- `GetAllowedOriginsAsync`. -/
def getAllowedOrigins (caches : OriginCaches) (process : Nat) (call : Call) :
    List String × OriginCaches :=
  caches.ask (fun call => cacheKey call.clientId) (fun call => createOrigins env call.clientId)
    process call

/-- `IsAllowedAsync`. -/
def isAllowed (caches : OriginCaches) (process : Nat) (call : Call) : Bool × OriginCaches :=
  match originOf env call.uri with
  | none => (false, caches)
  | some origin =>
    let (allowedOrigins, caches) := getAllowedOrigins env caches process call
    (contains env allowedOrigins origin, caches)

/-- The calls of a run and their answers, while entries are shared, expire and are evicted. -/
def answers : OriginCaches → List (Memo.Event Call String) → List (Call × Bool)
  | _, [] => []
  | caches, .ask process call :: later =>
    let (allowed, caches) := isAllowed env caches process call
    (call, allowed) :: answers caches later
  | caches, .share process key :: later => answers (caches.share process key) later
  | caches, .dropLocal process key :: later => answers (caches.dropLocal process key) later
  | caches, .dropShared key :: later => answers (caches.dropShared key) later

/-! ## What it should answer -/

/-- The URI is one of the client's, or of any client's where there is none, or `AuthUrl`. -/
def Registered (clientId : Option String) (uri : String) : Prop :=
  (∃ application ∈ env.applications, (∀ id, scope clientId = some id → application.clientId = id) ∧
    (uri ∈ application.redirectUris ∨ uri ∈ application.postLogoutRedirectUris)) ∨
  (env.authUrl = some uri ∧ uri ≠ "")

/-- The origin is that of the URI, where it is one. -/
def HasOrigin (uri origin : String) : Prop :=
  ∃ parsedUri, env.tryCreate uri = some parsedUri ∧
    env.casing.equals (getOrigin parsedUri) origin = true

/-- The origin is that of a registered URI. -/
def Allows (clientId : Option String) (origin : String) : Prop :=
  ∃ uri, Registered env clientId uri ∧ HasOrigin env uri origin

/-- The answer is that of an evaluation without a cache. -/
def AsUncached (call : Call) (answer : Bool) : Prop :=
  answer = true ↔ ∃ origin, originOf env call.uri = some origin ∧ Allows env call.clientId origin

variable {env}

/-! ## The sets -/

theorem contains_eq_true {origins : List String} {origin : String} :
    contains env origins origin = true ↔
      ∃ kept ∈ origins, env.casing.equals kept origin = true := List.any_eq_true

theorem contains_add {origins : List String} {added origin : String} :
    contains env (add env origins added) origin = true ↔
      contains env origins origin = true ∨ env.casing.equals added origin = true := by
  unfold add
  split
  · rename_i hkept
    have ⟨kept, hmem, hequals⟩ := List.any_eq_true.mp hkept
    constructor
    · exact fun h => .inl h
    · intro h
      cases h with
      | inl h => exact h
      | inr h =>
        -- another spelling of it is in the set
        refine contains_eq_true.mpr ⟨kept, hmem, ?_⟩
        unfold OrdinalCasing.equals at hequals h ⊢
        rw [decide_eq_true_eq] at hequals h ⊢
        rw [hequals, h]
  · unfold contains
    rw [List.any_append, Bool.or_eq_true, List.any_cons, List.any_nil, Bool.or_false]

theorem contains_addOrigins {uris origins : List String} {origin : String} :
    contains env (addOrigins env uris origins) origin = true ↔
      contains env origins origin = true ∨ ∃ uri ∈ uris, HasOrigin env uri origin := by
  induction uris generalizing origins with
  | nil => simp [addOrigins]
  | cons uri uris ih =>
    have hcons : addOrigins env (uri :: uris) origins = addOrigins env uris
        (match env.tryCreate uri with
          | some parsedUri => add env origins (getOrigin parsedUri)
          | none => origins) := rfl
    rw [hcons, ih]
    simp only [List.mem_cons, exists_eq_or_imp]
    cases huri : env.tryCreate uri with
    | none =>
      have hnone : ¬HasOrigin env uri origin := by
        intro ⟨parsedUri, hparsed, _⟩
        rw [huri] at hparsed
        cases hparsed
      rw [or_iff_right hnone]
    | some parsedUri =>
      have hsome : HasOrigin env uri origin ↔
          env.casing.equals (getOrigin parsedUri) origin = true := by
        unfold HasOrigin
        rw [huri]
        simp only [Option.some.injEq, exists_eq_left']
      rw [contains_add, hsome, or_assoc]

/-- One of the application's URIs has the origin. -/
def Application.HasOrigin (env : Environment) (application : Application) (origin : String) :
    Prop :=
  ∃ uri, (uri ∈ application.redirectUris ∨ uri ∈ application.postLogoutRedirectUris) ∧
    RedirectOrigins.HasOrigin env uri origin

theorem contains_addApplicationOrigins {origins : List String} {application : Application}
    {origin : String} :
    contains env (addApplicationOrigins env origins application) origin = true ↔
      contains env origins origin = true ∨ application.HasOrigin env origin := by
  unfold addApplicationOrigins Application.HasOrigin
  rw [contains_addOrigins, contains_addOrigins, or_assoc]
  simp only [or_and_right, exists_or]

theorem contains_foldl {applications : List Application} {origins : List String}
    {origin : String} :
    contains env (applications.foldl (addApplicationOrigins env) origins) origin = true ↔
      contains env origins origin = true ∨
        ∃ application ∈ applications, application.HasOrigin env origin := by
  induction applications generalizing origins with
  | nil => simp
  | cons application applications ih =>
    rw [List.foldl_cons, ih, contains_addApplicationOrigins, or_assoc]
    simp only [List.mem_cons, exists_eq_or_imp]

theorem eq_of_clientId {first second : Application} (hfirst : first ∈ env.applications)
    (hsecond : second ∈ env.applications) (h : first.clientId = second.clientId) :
    first = second := by
  have hsymm : Std.Symm fun one other : Application => one.clientId ≠ other.clientId :=
    ⟨fun _ _ hne => hne.symm⟩
  by_contra hne
  exact env.unique.forall hfirst hsecond hne h

theorem contains_nil (origin : String) : ¬contains env [] origin = true := Bool.false_ne_true

/-- What the applications in scope add. -/
theorem contains_scoped {clientId : Option String} {origin : String} :
    contains env
      (match scope clientId with
        | some id =>
          match env.applications.find? fun application => application.clientId = id with
          | some application => addApplicationOrigins env [] application
          | none => []
        | none => env.applications.foldl (addApplicationOrigins env) []) origin = true ↔
      ∃ application ∈ env.applications,
        (∀ id, scope clientId = some id → application.clientId = id) ∧
          application.HasOrigin env origin := by
  cases hscope : scope clientId with
  | none =>
    dsimp only
    rw [contains_foldl, or_iff_right (contains_nil origin)]
    simp
  | some id =>
    dsimp only
    simp only [Option.some.injEq, forall_eq']
    cases hfind : env.applications.find? fun application => application.clientId = id with
    | none =>
      refine iff_of_false (contains_nil origin) ?_
      intro ⟨application, hmem, hid, _⟩
      exact List.find?_eq_none.mp hfind application hmem (decide_eq_true hid)
    | some application =>
      have hmem := List.mem_of_find?_eq_some hfind
      have hid := List.find?_some hfind
      rw [decide_eq_true_eq] at hid
      dsimp only
      rw [contains_addApplicationOrigins, or_iff_right (contains_nil origin)]
      constructor
      · exact fun h => ⟨application, hmem, hid, h⟩
      · intro ⟨other, hother, hotherId, h⟩
        rw [eq_of_clientId hmem hother (hid.trans hotherId.symm)]
        exact h

/-- A set that is computed has the origins of an evaluation without a cache. -/
theorem contains_createOrigins {clientId : Option String} {origin : String} :
    contains env (createOrigins env clientId) origin = true ↔ Allows env clientId origin := by
  have hallows : Allows env clientId origin ↔
      (∃ application ∈ env.applications,
        (∀ id, scope clientId = some id → application.clientId = id) ∧
          application.HasOrigin env origin) ∨
      ∃ uri, (env.authUrl = some uri ∧ uri ≠ "") ∧ HasOrigin env uri origin := by
    unfold Allows Registered Application.HasOrigin
    constructor
    · intro ⟨uri, hregistered, horigin⟩
      cases hregistered with
      | inl hown =>
        have ⟨application, hmem, hid, huri⟩ := hown
        exact .inl ⟨application, hmem, hid, uri, huri, horigin⟩
      | inr hauth => exact .inr ⟨uri, hauth, horigin⟩
    · intro h
      cases h with
      | inl hown =>
        have ⟨application, hmem, hid, uri, huri, horigin⟩ := hown
        exact ⟨uri, .inl ⟨application, hmem, hid, huri⟩, horigin⟩
      | inr hauth =>
        have ⟨uri, hurl, horigin⟩ := hauth
        exact ⟨uri, .inr hurl, horigin⟩
  rw [hallows, ← contains_scoped]
  unfold createOrigins
  cases hauth : env.authUrl with
  | none => simp
  | some authUrl =>
    dsimp only
    by_cases hempty : authUrl = ""
    · rw [if_pos hempty]
      simp [hempty]
    · rw [if_neg hempty, contains_addOrigins]
      simp [hempty]

/-! ## Keys -/

/-- A client id that ends in the key of all clients. -/
def Collide (clientId other : Option String) : Prop :=
  (scope clientId = some "*" ∧ scope other = none) ∨
    (scope clientId = none ∧ scope other = some "*")

theorem cacheKey_eq_iff {clientId other : Option String} :
    cacheKey clientId = cacheKey other ↔ scope clientId = scope other ∨ Collide clientId other := by
  have hkey : ∀ clientId, cacheKey clientId = CACHE_KEY_PREFIX ++ (scope clientId).getD "*" := by
    intro clientId
    unfold cacheKey
    cases scope clientId <;> rfl
  rw [hkey, hkey, String.append_right_inj]
  unfold Collide
  cases scope clientId with
  | none => cases scope other <;> simp [eq_comm]
  | some id => cases scope other <;> simp

theorem allows_of_scope {clientId other : Option String} (h : scope clientId = scope other)
    (origin : String) : Allows env clientId origin ↔ Allows env other origin := by
  unfold Allows Registered
  rw [h]

/-! ## Calls after each other -/

/-- What a set answers the call. -/
def answerOf (env : Environment) (call : Call) (origins : List String) : Bool :=
  (originOf env call.uri).any (contains env origins)

/-- The call has an origin, so that the cache is asked. -/
def asksCache (env : Environment) (call : Call) : Bool := (originOf env call.uri).isSome

/-- The set a call gets, as the answer it makes of it. -/
def RightSet (env : Environment) (call : Call) (origins : List String) : Prop :=
  AsUncached env call (answerOf env call origins)

theorem isAllowed_of_none {call : Call} (h : originOf env call.uri = none) (caches : OriginCaches)
    (process : Nat) : isAllowed env caches process call = (false, caches) := by
  rw [isAllowed, h]

theorem isAllowed_of_some {call : Call} {origin : String} (h : originOf env call.uri = some origin)
    (caches : OriginCaches) (process : Nat) : isAllowed env caches process call =
      (answerOf env call (getAllowedOrigins env caches process call).1,
        (getAllowedOrigins env caches process call).2) := by
  rw [isAllowed, answerOf, h]
  rfl

theorem asUncached_of_none {call : Call} (h : originOf env call.uri = none) :
    AsUncached env call false := by
  refine iff_of_false Bool.false_ne_true ?_
  intro ⟨origin, horigin, _⟩
  rw [h] at horigin
  cases horigin

/-- The answers are right exactly if the sets are that the caches give. -/
theorem answers_right_iff (caches : OriginCaches) (events : List (Memo.Event Call String)) :
    (∀ answer ∈ answers env caches events, AsUncached env answer.1 answer.2) ↔
      ∀ answer ∈ caches.answers (fun call => cacheKey call.clientId)
        (fun call => createOrigins env call.clientId) (Memo.reaching (asksCache env) events),
        RightSet env answer.1 answer.2 := by
  induction events generalizing caches with
  | nil =>
    constructor
    · exact fun _ _ h => absurd h List.not_mem_nil
    · exact fun _ _ h => absurd h List.not_mem_nil
  | cons event later ih =>
    cases event with
    | share process key => exact ih (caches.share process key)
    | dropLocal process key => exact ih (caches.dropLocal process key)
    | dropShared key => exact ih (caches.dropShared key)
    | ask process call =>
      have hreaching : Memo.reaching (asksCache env) (.ask process call :: later) =
          if asksCache env call = true then .ask process call :: Memo.reaching (asksCache env) later
          else Memo.reaching (asksCache env) later := List.filter_cons
      have hanswers : answers env caches (.ask process call :: later) =
          (call, (isAllowed env caches process call).1) ::
            answers env (isAllowed env caches process call).2 later := rfl
      rw [hreaching, hanswers, List.forall_mem_cons, asksCache]
      cases horigin : originOf env call.uri with
      | none =>
        rw [isAllowed_of_none horigin, Option.isSome_none, if_neg Bool.false_ne_true]
        exact (and_iff_right (asUncached_of_none horigin)).trans (ih caches)
      | some origin =>
        rw [isAllowed_of_some horigin, Option.isSome_some, if_pos rfl]
        show _ ↔ ∀ answer ∈ (call, _) :: Memo.Levels.answers _ _ _ _, _
        rw [List.forall_mem_cons]
        exact and_congr Iff.rfl (ih _)

theorem rightSet_createOrigins_iff {call : Call} {origin : String} (clientId : Option String)
    (horigin : originOf env call.uri = some origin) :
    RightSet env call (createOrigins env clientId) ↔
      (Allows env clientId origin ↔ Allows env call.clientId origin) := by
  unfold RightSet AsUncached answerOf
  rw [horigin, Option.any_some, contains_createOrigins]
  simp only [Option.some.injEq, exists_eq_left']

theorem rightSet_self (call : Call) : RightSet env call (createOrigins env call.clientId) := by
  cases horigin : originOf env call.uri with
  | none =>
    unfold RightSet answerOf
    rw [horigin]
    exact asUncached_of_none horigin
  | some origin => exact (rightSet_createOrigins_iff call.clientId horigin).mpr Iff.rfl

/-- In every run of a history, with whatever expiries and evictions, each call answers as it would
without a cache: exactly if no call for the client id `*` and no call without one stand in it, one
before the other, of which the later asks for an origin that only one of both may have. -/
theorem every_call_answers_as_uncached_iff (env : Environment) (history : List Call) :
    (∀ events : List (Memo.Event Call String), Memo.calls events = history →
      ∀ answer ∈ answers env .initial events, AsUncached env answer.1 answer.2) ↔
    history.Pairwise fun earlier later => Collide earlier.clientId later.clientId →
      (originOf env earlier.uri).isSome = true → ∀ origin, originOf env later.uri = some origin →
        (Allows env earlier.clientId origin ↔ Allows env later.clientId origin) := by
  have hruns : ∀ events : List (Memo.Event Call String), Memo.calls events = history →
      ((∀ answer ∈ answers env .initial events, AsUncached env answer.1 answer.2) ↔ _) :=
    fun events _ => answers_right_iff .initial events
  rw [forall₂_congr hruns, Memo.right_iff_pairwise_filter rightSet_self, List.pairwise_filter]
  refine List.Pairwise.iff fun earlier later => ?_
  constructor
  · intro h hcollide hearlier origin horigin
    have hasks : asksCache env later = true := Option.isSome_iff_exists.mpr ⟨origin, horigin⟩
    have hright := h hearlier hasks (cacheKey_eq_iff.mpr (.inr hcollide))
    exact (rightSet_createOrigins_iff earlier.clientId horigin).mp hright
  · intro h hearlier hasks hkey
    have ⟨origin, horigin⟩ := Option.isSome_iff_exists.mp hasks
    rw [rightSet_createOrigins_iff earlier.clientId horigin]
    cases cacheKey_eq_iff.mp hkey with
    | inl hscope => exact allows_of_scope hscope origin
    | inr hcollide => exact h hcollide hearlier origin horigin

/-- After a call for the client id `*`, a registered origin is refused without a client. -/
theorem star_blocks_the_others : ¬∀ env history,
    ∀ events : List (Memo.Event Call String), Memo.calls events = history →
      ∀ answer ∈ answers env .initial events, AsUncached env answer.1 answer.2 := by
  intro h
  let uri : ParsedUri := ⟨"https", "app.example", 443, true⟩
  let env : Environment :=
    { casing := .ascii
      tryCreate text := if text = "https://app.example/callback" then some uri else none
      applications := [⟨"app-acme-web", ["https://app.example/callback"], []⟩]
      unique := List.pairwise_singleton _ _
      authUrl := none }
  let star : Call := ⟨"https://app.example/callback", some "*"⟩
  let global : Call := ⟨"https://app.example/callback", none⟩
  have hanswers : answers env .initial [.ask 0 star, .ask 0 global] =
      [(star, false), (global, false)] := by decide +kernel
  have hright := h env [star, global] [.ask 0 star, .ask 0 global] rfl (global, false)
  rw [hanswers] at hright
  have hallowed : ∃ origin, originOf env global.uri = some origin ∧ Allows env none origin := by
    refine ⟨"https://app.example", by decide +kernel, "https://app.example/callback", .inl ?_, uri,
      rfl, by decide +kernel⟩
    refine ⟨_, List.mem_singleton_self _, fun id hid => ?_, .inl (List.mem_singleton_self _)⟩
    cases hid
  exact Bool.false_ne_true ((hright (by decide)).mpr hallowed)

end Wallow.Identity.RedirectOrigins
