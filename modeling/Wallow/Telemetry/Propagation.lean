import Mathlib.Data.List.Basic

/-!
# Propagation over redirects

`fetchWithContext`: one outgoing request with its trace context, and the redirects it follows by
itself, each sent as a request of its own.
-/

namespace Wallow.Telemetry

/-! ## Requests -/

/-- The class `URL`. -/
structure UrlClass where
  Url : Type
  /-- `new URL(location, base)`, which may throw. -/
  resolve : String → Url → Option Url
  origin : Url → String
  includesCredentials : Url → Bool

inductive RedirectMode
  | follow | error | manual
  deriving DecidableEq

inductive BodyKind
  | string | urlSearchParams | blob | bufferSource | formData | stream
  deriving DecidableEq

/-- What a body is made of. -/
structure BodyInit where
  kind : BodyKind
  bytes : List UInt8
  deriving DecidableEq

/-- Whether the body has a source in the sense of the Fetch standard. -/
def BodyInit.hasSource (b : BodyInit) : Bool := b.kind ≠ .stream

/-- The bodies that the outgoing `fetch` can send again. -/
def BodyInit.replays (b : BodyInit) : Bool :=
  b.kind = .string || b.kind = .urlSearchParams || b.kind = .blob

theorem BodyInit.hasSource_of_replays {b : BodyInit} (h : b.replays = true) :
    b.hasSource = true := by
  have ⟨kind, bytes⟩ := b
  cases kind <;> simp_all [replays, hasSource]

/-- Names are compared without their case. -/
structure Headers where
  entries : List (String × String)
  deriving DecidableEq

namespace Headers

def lowercase (name : String) : List Char := name.toList.map Char.toLower

def has (h : Headers) (name : String) : Prop := ∃ e ∈ h.entries, lowercase e.1 = lowercase name

def delete (h : Headers) (name : String) : Headers :=
  ⟨h.entries.filter fun e => lowercase e.1 ≠ lowercase name⟩

def isWhitespace (c : Char) : Bool := c = '\t' || c = '\n' || c = '\r' || c = ' '

def normalize (value : List Char) : List Char :=
  ((value.dropWhile isWhitespace).reverse.dropWhile isWhitespace).reverse

def isValueChar (c : Char) : Bool :=
  c.toNat ≠ 0 && c ≠ '\n' && c ≠ '\r' && c.toNat ≤ 255

/-- `set`, which throws for what is not a header's value. -/
def set (h : Headers) (name value : String) : Option Headers :=
  let text := normalize value.toList
  if text.all isValueChar then some ⟨(h.delete name).entries ++ [(name, String.ofList text)]⟩
  else none

theorem not_has_delete (h : Headers) (name : String) : ¬ (h.delete name).has name := by
  intro ⟨e, he, hname⟩
  have hne := (List.mem_filter.mp he).2
  simp [hname] at hne

theorem has_of_delete {h : Headers} {name deleted : String} (hd : (h.delete deleted).has name) :
    h.has name := by
  have ⟨e, he, hname⟩ := hd
  exact ⟨e, (List.mem_filter.mp he).1, hname⟩

theorem has_of_set {h h' : Headers} {name written value : String} (hne : lowercase written ≠ lowercase name)
    (hset : h.set written value = some h') (hs : h'.has name) : h.has name := by
  simp only [set] at hset
  split at hset
  · have heq := Option.some.inj hset
    subst heq
    have ⟨e, he, hname⟩ := hs
    cases List.mem_append.mp he with
    | inl hd => exact has_of_delete ⟨e, hd, hname⟩
    | inr hw =>
      rw [List.mem_singleton.mp hw] at hname
      exact absurd hname hne
  · exact absurd hset (by simp)

end Headers

structure Request (W : UrlClass) where
  url : W.Url
  method : String
  headers : Headers
  body : Option BodyInit
  redirect : RedirectMode
  credentials : String
  /-- The constructor throws for these methods with a body. -/
  bodyless : method = "GET" ∨ method = "HEAD" → body = none

namespace Request

variable {W : UrlClass}

def origin (r : Request W) : String := W.origin r.url

/-- `new Request(target, init)`, or its `TypeError`. -/
def construct (url : W.Url) (method : String) (headers : Headers) (body : Option BodyInit)
    (redirect : RedirectMode) (credentials : String) : Option (Request W) :=
  if W.includesCredentials url then none
  else if h : method = "GET" ∨ method = "HEAD" → body = none then
    some ⟨url, method, headers, body, redirect, credentials, h⟩
  else none

theorem construct_eq {url : W.Url} {method : String} {headers : Headers}
    {body : Option BodyInit} {redirect : RedirectMode} {credentials : String} {r : Request W}
    (h : construct url method headers body redirect credentials = some r) :
    r.url = url ∧ r.method = method ∧ r.headers = headers ∧ r.body = body ∧
      r.redirect = redirect := by
  unfold construct at h
  split at h
  · exact absurd h (by simp)
  · split at h
    · have hr := Option.some.inj h
      subst hr
      exact ⟨rfl, rfl, rfl, rfl, rfl⟩
    · exact absurd h (by simp)

end Request

/-! ## Answers -/

structure Response where
  status : Nat
  location : Option String
  /-- Whether cancelling the body, where there is one, succeeds. -/
  cancels : Bool
  deriving DecidableEq

/-- How the promise of the host's `fetch` settles. -/
inductive Answer
  | rejects
  | responds (response : Response)
  deriving DecidableEq

inductive FetchError
  | rejected | cancelFailed | redirectRefused | streamingBody
  | invalidHeader | invalidLocation | invalidRequest
  deriving DecidableEq

/-- The texts of the errors that `fetchWithContext` makes itself. -/
def FetchError.message : FetchError → Option String
  | redirectRefused => some "Fetch redirect refused"
  | streamingBody => some "Streaming request bodies cannot be replayed after a redirect"
  | _ => none

def SEE_OTHER : Nat := 303
def MOVED : Nat := 301
def FOUND : Nat := 302
def TEMPORARY : Nat := 307
def PERMANENT : Nat := 308
def MAX_REDIRECTS : Nat := 20

def REDIRECT_STATUSES : List Nat := [MOVED, FOUND, SEE_OTHER, TEMPORARY, PERMANENT]

/-- A redirect: one of the statuses, with a `Location`. -/
def Response.redirects (r : Response) : Bool :=
  REDIRECT_STATUSES.contains r.status && r.location.isSome

/-- The requests that were sent, in order, and what the promise came to. -/
structure Exchange (W : UrlClass) where
  sent : List (Request W)
  result : Except FetchError Response

/-! ## One hop -/

section Hop

variable {W : UrlClass} (ownedOrigins : List String) (traceparent : Option String)

/-- The headers of a hop to the origin. -/
def traceHeaders (origin : String) (headers : Headers) : Option Headers :=
  let bare := ((headers.delete "baggage").delete "traceparent").delete "tracestate"
  match traceparent with
  | some value => if ownedOrigins.contains origin then bare.set "traceparent" value else some bare
  | none => some bare

/-- The request as the hop sends it. -/
def Request.withContext (r : Request W) : Option (Request W) :=
  (traceHeaders ownedOrigins traceparent r.origin r.headers).map fun headers =>
    { r with headers := headers }

def becomesGet (status : Nat) (method : String) : Bool :=
  (status = SEE_OTHER && method ≠ "HEAD") ||
    ((status = MOVED || status = FOUND) && method = "POST")

def redirectHeaders (leaves toGet : Bool) (headers : Headers) : Headers :=
  let kept :=
    if leaves then ((headers.delete "authorization").delete "cookie").delete "proxy-authorization"
    else headers
  if toGet then (kept.delete "content-type").delete "content-length" else kept

/-- The request of the next hop, and the body that the hop after it can send again. -/
def redirected (r : Request W) (status : Nat) (location : String) (replayBody : Option BodyInit) :
    Except FetchError (Request W × Option BodyInit) :=
  match W.resolve location r.url with
  | none => .error .invalidLocation
  | some target =>
    let toGet := becomesGet status r.method
    if !toGet && r.body.isSome && replayBody.isNone then .error .streamingBody
    else
      let body := if toGet then none else replayBody
      match Request.construct target (if toGet then "GET" else r.method)
          (redirectHeaders (W.origin target ≠ r.origin) toGet r.headers) body r.redirect
          r.credentials with
      | none => .error .invalidRequest
      | some next => .ok (next, body)

end Hop

/-! ## The exchange -/

variable {W : UrlClass}

def Exchange.throws (sent : List (Request W)) (e : FetchError) : Exchange W := ⟨sent, .error e⟩

def Exchange.after (sent : Request W) (rest : Exchange W) : Exchange W :=
  ⟨sent :: rest.sent, rest.result⟩

def fetchWithContext (ownedOrigins : List String) (traceparent : Option String)
    (remaining : Nat) (replayBody : Option BodyInit) (request : Request W)
    (answers : Nat → Answer) : Exchange W :=
  match request.withContext ownedOrigins traceparent with
  | none => .throws [] .invalidHeader
  | some sent =>
    match answers 0 with
    | .rejects => .throws [sent] .rejected
    | .responds response =>
      match response.location with
      | none => ⟨[sent], .ok response⟩
      | some location =>
        if !response.redirects || request.redirect = .manual then ⟨[sent], .ok response⟩
        else if !response.cancels then .throws [sent] .cancelFailed
        else if request.redirect = .error then .throws [sent] .redirectRefused
        else
          match remaining with
          | 0 => .throws [sent] .redirectRefused
          | remaining + 1 =>
            match redirected sent response.status location replayBody with
            | .error e => .throws [sent] e
            | .ok (next, replayBody) =>
              .after sent (fetchWithContext ownedOrigins traceparent remaining replayBody next
                fun n => answers (n + 1))

/-! ## The Fetch standard -/

/-- What the standard's redirect fetch makes of the method, and of whether there is a body; `none`
is a network error. -/
def prescribed (status : Nat) (method : String) (body : Option BodyInit) : Option (String × Bool) :=
  if status ≠ 303 ∧ ∃ b ∈ body, b.hasSource = false then none
  else if (status = 301 ∨ status = 302) ∧ method = "POST" then some ("GET", false)
  else if status = 303 ∧ method ≠ "GET" ∧ method ≠ "HEAD" then some ("GET", false)
  else some (method, body.isSome)

/-- The request `t` is what the standard makes of `s` on the status. -/
def AsFetch (status : Nat) (s t : Request W) : Prop :=
  prescribed status s.method s.body = some (t.method, t.body.isSome)

/-- A `GET` without a body behind a `POST` of a stream, which the standard does not redirect. -/
def DropsStream (status : Nat) (s t : Request W) : Prop :=
  prescribed status s.method s.body = none ∧ (status = 301 ∨ status = 302) ∧ s.method = "POST" ∧
    t.method = "GET" ∧ t.body = none

def FetchOrStream (status : Nat) (s t : Request W) : Prop :=
  AsFetch status s t ∨ DropsStream status s t

/-! ## What a hop does -/

section Lemmas

variable {ownedOrigins : List String} {traceparent : Option String}

theorem withContext_eq {r s : Request W} (h : r.withContext ownedOrigins traceparent = some s) :
    ∃ headers, traceHeaders ownedOrigins traceparent r.origin r.headers = some headers ∧
      s = { r with headers := headers } := by
  have ⟨headers, hheaders, heq⟩ := Option.map_eq_some_iff.mp h
  exact ⟨headers, hheaders, heq.symm⟩

def bareHeaders (headers : Headers) : Headers :=
  ((headers.delete "baggage").delete "traceparent").delete "tracestate"

/-- What a hop sends are the bare headers, or those with the trace set on them. -/
theorem traceHeaders_cases {origin : String} {headers traced : Headers}
    (h : traceHeaders ownedOrigins traceparent origin headers = some traced) :
    traced = bareHeaders headers ∨
      (ownedOrigins.contains origin = true ∧
        ∃ value, (bareHeaders headers).set "traceparent" value = some traced) := by
  cases traceparent with
  | none => exact Or.inl (Option.some.inj h).symm
  | some value =>
    by_cases howned : ownedOrigins.contains origin = true
    · have hset : (bareHeaders headers).set "traceparent" value = some traced := by
        rw [← h]
        exact (if_pos howned).symm
      exact Or.inr ⟨howned, value, hset⟩
    · have hbare : some (bareHeaders headers) = some traced := by
        rw [← h]
        exact (if_neg howned).symm
      exact Or.inl (Option.some.inj hbare).symm

theorem has_of_traceHeaders {origin name : String} {headers traced : Headers}
    (h : traceHeaders ownedOrigins traceparent origin headers = some traced)
    (hne : Headers.lowercase "traceparent" ≠ Headers.lowercase name) (hhas : traced.has name) :
    (bareHeaders headers).has name := by
  cases traceHeaders_cases h with
  | inl heq => exact heq ▸ hhas
  | inr hset =>
    have ⟨_, value, hvalue⟩ := hset
    exact Headers.has_of_set hne hvalue hhas

theorem owned_of_traceparent {origin : String} {headers traced : Headers}
    (h : traceHeaders ownedOrigins traceparent origin headers = some traced)
    (hhas : traced.has "traceparent") : ownedOrigins.contains origin = true := by
  cases traceHeaders_cases h with
  | inl heq =>
    have hbare := Headers.has_of_delete (heq ▸ hhas)
    exact absurd hbare (Headers.not_has_delete _ _)
  | inr hset => exact hset.1

theorem not_has_baggage {origin : String} {headers traced : Headers}
    (h : traceHeaders ownedOrigins traceparent origin headers = some traced) :
    ¬ traced.has "baggage" := by
  intro hhas
  have hbare := has_of_traceHeaders h (by decide) hhas
  exact Headers.not_has_delete _ _ (Headers.has_of_delete (Headers.has_of_delete hbare))

theorem not_has_tracestate {origin : String} {headers traced : Headers}
    (h : traceHeaders ownedOrigins traceparent origin headers = some traced) :
    ¬ traced.has "tracestate" := by
  intro hhas
  exact Headers.not_has_delete _ _ (has_of_traceHeaders h (by decide) hhas)

/-- What the next hop's request is, and the body that is left to send again. -/
theorem redirected_eq {r next : Request W} {status : Nat} {location : String}
    {replayBody replayBody' : Option BodyInit}
    (h : redirected r status location replayBody = .ok (next, replayBody')) :
    next.redirect = r.redirect ∧
      next.headers =
        redirectHeaders (next.origin ≠ r.origin) (becomesGet status r.method) r.headers ∧
      next.method = (if becomesGet status r.method then "GET" else r.method) ∧
      next.body = replayBody' ∧
      replayBody' = (if becomesGet status r.method then none else replayBody) ∧
      (becomesGet status r.method = false → r.body.isSome → replayBody.isSome) := by
  unfold redirected at h
  cases htarget : W.resolve location r.url with
  | none =>
    rw [htarget] at h
    exact absurd h (by simp)
  | some target =>
    simp only [htarget] at h
    split at h
    · exact absurd h (by simp)
    · rename_i hbody
      split at h
      · exact absurd h (by simp)
      · rename_i request hrequest
        have heq := Except.ok.inj h
        have hnext : request = next := congrArg Prod.fst heq
        have hreplay := congrArg Prod.snd heq
        have ⟨hurl, hmethod, hheaders, hkept, hmode⟩ := Request.construct_eq hrequest
        subst hnext
        rw [show request.origin = W.origin target by rw [Request.origin, hurl]]
        refine ⟨hmode, hheaders, hmethod, hkept.trans hreplay, hreplay.symm, ?_⟩
        intro htoGet hsome
        cases replayBody with
        | none => simp [htoGet, hsome] at hbody
        | some b => rfl

theorem withContext_frame {r s : Request W} (h : r.withContext ownedOrigins traceparent = some s) :
    s.origin = r.origin ∧ s.method = r.method ∧ s.body = r.body ∧ s.redirect = r.redirect := by
  have ⟨headers, _, heq⟩ := withContext_eq h
  subst heq
  exact ⟨rfl, rfl, rfl, rfl⟩

def CREDENTIALS : List String := ["authorization", "cookie", "proxy-authorization"]

theorem has_of_withContext {r s : Request W} {name : String}
    (h : r.withContext ownedOrigins traceparent = some s) (hname : name ∈ CREDENTIALS)
    (hhas : s.headers.has name) : r.headers.has name := by
  have ⟨headers, hheaders, heq⟩ := withContext_eq h
  subst heq
  have hne : ∀ name ∈ CREDENTIALS,
      Headers.lowercase "traceparent" ≠ Headers.lowercase name := by decide
  have hbare := has_of_traceHeaders hheaders (hne name hname) hhas
  exact Headers.has_of_delete (Headers.has_of_delete (Headers.has_of_delete hbare))

theorem has_of_redirectHeaders {leaves toGet : Bool} {headers : Headers} {name : String}
    (h : (redirectHeaders leaves toGet headers).has name) :
    headers.has name ∧ (leaves = true → name ∉ CREDENTIALS) := by
  have kept {kept : Headers} (hkept : (if toGet then
      (kept.delete "content-type").delete "content-length" else kept).has name) :
      kept.has name := by
    split at hkept
    · exact Headers.has_of_delete (Headers.has_of_delete hkept)
    · exact hkept
  have hhas := kept h
  cases leaves with
  | false => exact ⟨hhas, by simp⟩
  | true =>
    have hcookie := Headers.has_of_delete hhas
    have hauthorization := Headers.has_of_delete hcookie
    refine ⟨Headers.has_of_delete hauthorization, fun _ hname => ?_⟩
    simp only [CREDENTIALS, List.mem_cons, List.not_mem_nil, or_false] at hname
    rcases hname with rfl | rfl | rfl
    · exact Headers.not_has_delete _ _ hauthorization
    · exact Headers.not_has_delete _ _ hcookie
    · exact Headers.not_has_delete _ _ hhas

theorem has_of_redirected {r next : Request W} {status : Nat} {location name : String}
    {replayBody replayBody' : Option BodyInit}
    (h : redirected r status location replayBody = .ok (next, replayBody'))
    (hhas : next.headers.has name) : r.headers.has name := by
  have ⟨_, hheaders, _⟩ := redirected_eq h
  rw [hheaders] at hhas
  exact (has_of_redirectHeaders hhas).1

theorem not_has_of_leaves {r next : Request W} {status : Nat} {location name : String}
    {replayBody replayBody' : Option BodyInit}
    (h : redirected r status location replayBody = .ok (next, replayBody'))
    (hleaves : next.origin ≠ r.origin) (hname : name ∈ CREDENTIALS) :
    ¬ next.headers.has name := by
  intro hhas
  have ⟨_, hheaders, _⟩ := redirected_eq h
  rw [hheaders] at hhas
  exact (has_of_redirectHeaders hhas).2 (decide_eq_true hleaves) hname

/-- The body to send again is the request's own. -/
def Carries (body replayBody : Option BodyInit) : Prop :=
  ∀ b, replayBody = some b → body = some b ∧ b.replays = true

theorem carries_redirected {r next : Request W} {status : Nat} {location : String}
    {replayBody replayBody' : Option BodyInit}
    (h : redirected r status location replayBody = .ok (next, replayBody'))
    (hcarries : Carries r.body replayBody) : Carries next.body replayBody' := by
  intro b hb
  have ⟨_, _, _, hbody, hreplay, _⟩ := redirected_eq h
  refine ⟨hbody.trans hb, ?_⟩
  rw [hreplay] at hb
  split at hb
  · exact absurd hb (by simp)
  · exact (hcarries b hb).2

/-- The test of the code, in the standard's order. -/
theorem becomesGet_iff (status : Nat) (method : String) :
    becomesGet status method = true ↔
      (status = 303 ∧ method ≠ "HEAD") ∨ ((status = 301 ∨ status = 302) ∧ method = "POST") := by
  simp only [becomesGet, Bool.or_eq_true, Bool.and_eq_true, decide_eq_true_eq]
  exact Iff.rfl

/-- A body that is sent again has a source, so the standard sends it again too. -/
theorem prescribed_kept {status : Nat} {method : String} {body replayBody : Option BodyInit}
    (hget : becomesGet status method = false) (hreplays : body.isSome → replayBody.isSome)
    (hcarries : Carries body replayBody) :
    prescribed status method body = some (method, replayBody.isSome) := by
  have hnot := (becomesGet_iff status method).not.mp (by simp [hget])
  have hsource : ¬ (status ≠ 303 ∧ ∃ b ∈ body, b.hasSource = false) := by
    intro ⟨_, b, hb, hnone⟩
    have ⟨c, hc⟩ := Option.isSome_iff_exists.mp (hreplays (Option.isSome_of_mem hb))
    have ⟨hbody, hagain⟩ := hcarries c hc
    have hbc : c = b := Option.some.inj (hbody.symm.trans hb)
    have htrue := BodyInit.hasSource_of_replays hagain
    rw [hbc, hnone] at htrue
    exact absurd htrue (by decide)
  have hsome : body.isSome = replayBody.isSome := by
    cases replayBody with
    | none => exact Bool.eq_false_iff.mpr fun h => absurd (hreplays h) (by simp)
    | some b => rw [(hcarries b rfl).1]
  unfold prescribed
  rw [if_neg hsource, if_neg fun h => hnot (Or.inr h), if_neg fun h => hnot (Or.inl ⟨h.1, h.2.2⟩),
    hsome]

theorem prescribed_get {status : Nat} {r : Request W}
    (hget : becomesGet status r.method = true) :
    prescribed status r.method r.body = some ("GET", false) ∨
      (prescribed status r.method r.body = none ∧ (status = 301 ∨ status = 302) ∧
        r.method = "POST") := by
  cases (becomesGet_iff status r.method).mp hget with
  | inl hother =>
    have ⟨hstatus, hhead⟩ := hother
    apply Or.inl
    unfold prescribed
    rw [if_neg (by simp [hstatus]), if_neg (by omega)]
    by_cases hmethod : r.method = "GET"
    · rw [if_neg (by simp [hmethod]), hmethod, r.bodyless (Or.inl hmethod)]
      rfl
    · exact if_pos ⟨hstatus, hmethod, hhead⟩
  | inr hpost =>
    by_cases hsource : status ≠ 303 ∧ ∃ b ∈ r.body, b.hasSource = false
    · exact Or.inr ⟨if_pos hsource, hpost⟩
    · apply Or.inl
      unfold prescribed
      rw [if_neg hsource, if_pos hpost]

theorem fetchOrStream_redirected {r next : Request W} {status : Nat} {location : String}
    {replayBody replayBody' : Option BodyInit}
    (h : redirected r status location replayBody = .ok (next, replayBody'))
    (hcarries : Carries r.body replayBody) : FetchOrStream status r next := by
  have ⟨_, _, hmethod, hbody, hreplay, hkept⟩ := redirected_eq h
  cases hget : becomesGet status r.method with
  | true =>
    simp only [hget, if_true] at hmethod hreplay
    rw [hreplay] at hbody
    cases prescribed_get hget with
    | inl hsome =>
      apply Or.inl
      rw [AsFetch, hsome, hmethod, hbody]
      rfl
    | inr hnone =>
      have ⟨hrefused, hstatus, hpost⟩ := hnone
      exact Or.inr ⟨hrefused, hstatus, hpost, hmethod, hbody⟩
  | false =>
    simp only [hget] at hmethod hreplay
    apply Or.inl
    rw [AsFetch, prescribed_kept hget (hkept hget) hcarries, hmethod, hbody, hreplay]
    rfl

/-- The requests that an exchange may send, given how many redirects remain, the body that can be
sent again, the request and the answers. -/
inductive Sends (ownedOrigins : List String) (traceparent : Option String) :
    Nat → Option BodyInit → Request W → (Nat → Answer) → List (Request W) → Prop
  | none {remaining replayBody request answers} :
      Sends ownedOrigins traceparent remaining replayBody request answers []
  | last {remaining replayBody request answers sent}
      (hsent : request.withContext ownedOrigins traceparent = some sent) :
      Sends ownedOrigins traceparent remaining replayBody request answers [sent]
  | hop {remaining replayBody request answers sent response location next replayBody' rest}
      (hsent : request.withContext ownedOrigins traceparent = some sent)
      (hanswer : answers 0 = .responds response)
      (hmode : request.redirect = .follow)
      (hnext : redirected sent response.status location replayBody = .ok (next, replayBody'))
      (hrest : Sends ownedOrigins traceparent remaining replayBody' next
        (fun n => answers (n + 1)) rest) :
      Sends ownedOrigins traceparent (remaining + 1) replayBody request answers (sent :: rest)

variable (ownedOrigins traceparent) in
theorem fetchWithContext_sends (remaining : Nat) (replayBody : Option BodyInit)
    (request : Request W) (answers : Nat → Answer) :
    Sends ownedOrigins traceparent remaining replayBody request answers
      (fetchWithContext ownedOrigins traceparent remaining replayBody request answers).sent := by
  induction remaining generalizing replayBody request answers with
  | zero =>
    rw [fetchWithContext.eq_def]
    cases hsent : request.withContext ownedOrigins traceparent with
    | none => exact .none
    | some sent =>
      dsimp only
      repeat' split
      all_goals exact .last hsent
  | succ remaining ih =>
    rw [fetchWithContext.eq_def]
    cases hsent : request.withContext ownedOrigins traceparent with
    | none => exact .none
    | some sent =>
      dsimp only
      cases hanswer : answers 0 with
      | rejects => exact .last hsent
      | responds response =>
        cases hlocation : response.location with
        | none =>
          simp only [hlocation]
          exact .last hsent
        | some location =>
          simp only [hlocation]
          split
          · exact .last hsent
          · split
            · exact .last hsent
            · split
              · exact .last hsent
              · rename_i hreturns _ herror
                have hmode : request.redirect = .follow := by
                  cases hredirect : request.redirect <;> simp_all
                cases hnext : redirected sent response.status location replayBody with
                | error e => exact .last hsent
                | ok step => exact .hop hsent hanswer hmode hnext (ih _ _ _)

namespace Sends

variable {remaining : Nat} {replayBody : Option BodyInit} {request : Request W}
  {answers : Nat → Answer} {sent : List (Request W)}

theorem length_le (h : Sends ownedOrigins traceparent remaining replayBody request answers sent) :
    sent.length ≤ remaining + 1 := by
  induction h with
  | none => exact Nat.zero_le _
  | last => exact Nat.le_add_left 1 _
  | hop _ _ _ _ _ ih =>
    rw [List.length_cons]
    omega

/-- What is sent was given its trace headers. -/
theorem traced (h : Sends ownedOrigins traceparent remaining replayBody request answers sent) :
    ∀ s ∈ sent, ∃ headers, traceHeaders ownedOrigins traceparent s.origin headers =
      some s.headers := by
  have traced_of {r s : Request W} (hs : r.withContext ownedOrigins traceparent = some s) :
      ∃ headers, traceHeaders ownedOrigins traceparent s.origin headers = some s.headers := by
    have ⟨headers, hheaders, heq⟩ := withContext_eq hs
    subst heq
    exact ⟨r.headers, hheaders⟩
  induction h with
  | none => simp
  | last hsent =>
    intro s hs
    rw [List.mem_singleton.mp hs]
    exact traced_of hsent
  | hop hsent _ _ _ _ ih =>
    intro s hs
    cases List.mem_cons.mp hs with
    | inl heq =>
      rw [heq]
      exact traced_of hsent
    | inr hrest => exact ih s hrest

/-- Headers that are not the request's are on nothing that is sent. -/
theorem bare (h : Sends ownedOrigins traceparent remaining replayBody request answers sent)
    {name : String} (hname : name ∈ CREDENTIALS) (hbare : ¬ request.headers.has name) :
    ∀ s ∈ sent, ¬ s.headers.has name := by
  induction h with
  | none => simp
  | last hsent =>
    intro s hs hhas
    rw [List.mem_singleton.mp hs] at hhas
    exact hbare (has_of_withContext hsent hname hhas)
  | hop hsent _ _ hnext _ ih =>
    intro s hs
    have hbare_sent := fun hhas => hbare (has_of_withContext hsent hname hhas)
    cases List.mem_cons.mp hs with
    | inl heq =>
      rw [heq]
      exact hbare_sent
    | inr hrest => exact ih (fun hhas => hbare_sent (has_of_redirected hnext hhas)) s hrest

/-- Once a request went to another origin, no request has credentials. -/
theorem credentials (h : Sends ownedOrigins traceparent remaining replayBody request answers sent)
    {name : String} (hname : name ∈ CREDENTIALS) :
    ∀ (i j : Nat) (s t : Request W), i ≤ j → sent[i]? = some s → sent[j]? = some t →
      s.origin ≠ request.origin → ¬ t.headers.has name := by
  induction h with
  | none => simp
  | last hsent =>
    intro i j s t _ hs _ hleft
    have hmem := List.mem_of_getElem? hs
    rw [List.mem_singleton.mp hmem] at hleft
    exact absurd (withContext_frame hsent).1 hleft
  | @hop _ _ request _ first _ _ next _ _ hsent _ _ hnext hrest ih =>
    intro i j s t hij hs ht hleft
    cases i with
    | zero =>
      have heq : _ = s := Option.some.inj hs
      rw [← heq] at hleft
      exact absurd (withContext_frame hsent).1 hleft
    | succ i =>
      cases j with
      | zero => exact absurd hij (by omega)
      | succ j =>
        by_cases hsame : next.origin = request.origin
        · exact ih i j s t (by omega) hs ht (hsame ▸ hleft)
        · -- the hop itself leaves the origin, and its request has no credentials any more
          have hleaves : next.origin ≠ first.origin := by
            rw [(withContext_frame hsent).1]
            exact hsame
          exact bare hrest hname (not_has_of_leaves hnext hleaves hname) t
            (List.mem_of_getElem? ht)

/-- The first request, and how each follows from the one before. -/
theorem methods (h : Sends ownedOrigins traceparent remaining replayBody request answers sent)
    (hcarries : Carries request.body replayBody) :
    (∀ s, sent[0]? = some s → s.method = request.method ∧ s.body = request.body) ∧
      ∀ (i : Nat) (s t : Request W), sent[i]? = some s → sent[i + 1]? = some t →
        ∃ response, answers i = .responds response ∧ FetchOrStream response.status s t := by
  induction h with
  | none => simp
  | last hsent =>
    have ⟨_, hmethod, hbody, _⟩ := withContext_frame hsent
    refine ⟨fun s hs => ?_, fun i s t _ ht => absurd ht (by simp)⟩
    have heq := Option.some.inj hs
    subst heq
    exact ⟨hmethod, hbody⟩
  | @hop _ _ _ _ first response _ next _ rest hsent hanswer _ hnext hrest ih =>
    have ⟨_, hmethod, hbody, _⟩ := withContext_frame hsent
    have hfirst : Carries first.body _ := hbody ▸ hcarries
    have ⟨hhead, htail⟩ := ih (carries_redirected hnext hfirst)
    refine ⟨fun s hs => ?_, fun i s t hs ht => ?_⟩
    · have heq := Option.some.inj hs
      subst heq
      exact ⟨hmethod, hbody⟩
    · cases i with
      | zero =>
        have heq := Option.some.inj hs
        subst heq
        have ⟨htmethod, htbody⟩ := hhead t ht
        refine ⟨response, hanswer, ?_⟩
        unfold FetchOrStream AsFetch DropsStream
        rw [htmethod, htbody]
        exact fetchOrStream_redirected hnext hfirst
      | succ i => exact htail i s t hs ht

theorem single (h : Sends ownedOrigins traceparent remaining replayBody request answers sent)
    (hmode : request.redirect ≠ .follow) : sent.length ≤ 1 := by
  cases h with
  | none => exact Nat.zero_le 1
  | last => exact Nat.le_refl 1
  | hop _ _ hfollow => exact absurd hfollow hmode

end Sends

/-- No answer is read but those to the redirects that remain and the one before them. -/
theorem fetchWithContext_congr {remaining : Nat} {replayBody : Option BodyInit}
    {request : Request W} {answers answers' : Nat → Answer}
    (h : ∀ i ≤ remaining, answers' i = answers i) :
    fetchWithContext ownedOrigins traceparent remaining replayBody request answers' =
      fetchWithContext ownedOrigins traceparent remaining replayBody request answers := by
  induction remaining generalizing replayBody request answers answers' with
  | zero =>
    rw [fetchWithContext.eq_def, fetchWithContext.eq_def, h 0 (Nat.le_refl 0)]
  | succ remaining ih =>
    have hrest : ∀ i ≤ remaining, answers' (i + 1) = answers (i + 1) :=
      fun i hi => h (i + 1) (by omega)
    rw [fetchWithContext.eq_def, fetchWithContext.eq_def _ _ _ _ _ answers, h 0 (Nat.zero_le _)]
    simp only [ih hrest]

theorem fetchWithContext_manual {remaining : Nat} {replayBody : Option BodyInit}
    {request sent : Request W} {answers : Nat → Answer} {response : Response}
    (hsent : request.withContext ownedOrigins traceparent = some sent)
    (hanswer : answers 0 = .responds response) (hmode : request.redirect = .manual) :
    fetchWithContext ownedOrigins traceparent remaining replayBody request answers =
      ⟨[sent], .ok response⟩ := by
  rw [fetchWithContext.eq_def]
  simp only [hsent, hanswer, hmode]
  cases response.location with
  | none => rfl
  | some location => simp

theorem fetchWithContext_error {remaining : Nat} {replayBody : Option BodyInit}
    {request sent : Request W} {answers : Nat → Answer} {response : Response}
    (hsent : request.withContext ownedOrigins traceparent = some sent)
    (hanswer : answers 0 = .responds response) (hredirects : response.redirects = true)
    (hmode : request.redirect = .error) :
    fetchWithContext ownedOrigins traceparent remaining replayBody request answers =
      .throws [sent] (if response.cancels then .redirectRefused else .cancelFailed) := by
  rw [fetchWithContext.eq_def]
  simp only [hsent, hanswer, hmode, hredirects]
  cases hlocation : response.location with
  | none => simp [Response.redirects, hlocation] at hredirects
  | some location => cases response.cancels <;> simp

end Lemmas

/-! ## The outgoing fetch -/

/-- What the outgoing `fetch` is called with: the request it constructs, and the body in `init`. -/
structure Outgoing (W : UrlClass) where
  request : Request W
  initBody : Option BodyInit
  /-- The constructor takes the body of `init`, where there is one. -/
  body_of_init : ∀ b, initBody = some b → request.body = some b

namespace Outgoing

def replayBody (o : Outgoing W) : Option BodyInit := o.initBody.filter BodyInit.replays

def fetch (o : Outgoing W) (ownedOrigins : List String) (traceparent : Option String)
    (answers : Nat → Answer) : Exchange W :=
  fetchWithContext ownedOrigins traceparent MAX_REDIRECTS o.replayBody o.request answers

theorem carries (o : Outgoing W) : Carries o.request.body o.replayBody := by
  intro b hb
  have ⟨hinit, hreplays⟩ := Option.filter_eq_some_iff.mp hb
  exact ⟨o.body_of_init b hinit, hreplays⟩

end Outgoing

/-- What propagation promises of an exchange, where `hops` is the rule on the methods and bodies of
two requests, one after the other on a status. -/
structure Propagates (hops : Nat → Request W → Request W → Prop) (ownedOrigins : List String)
    (start : Request W) (answers : Nat → Answer) (x : Exchange W) : Prop where
  bounded : x.sent.length ≤ 21
  owned : ∀ s ∈ x.sent, s.headers.has "traceparent" → ownedOrigins.contains s.origin = true
  stripped : ∀ s ∈ x.sent, ¬ s.headers.has "baggage" ∧ ¬ s.headers.has "tracestate"
  credentials : ∀ (i j : Nat) (s t : Request W), i ≤ j → x.sent[i]? = some s →
    x.sent[j]? = some t → s.origin ≠ start.origin → ∀ name ∈ CREDENTIALS, ¬ t.headers.has name
  first : ∀ s, x.sent[0]? = some s → s.method = start.method ∧ s.body = start.body
  methods : ∀ (i : Nat) (s t : Request W), x.sent[i]? = some s → x.sent[i + 1]? = some t →
    ∃ response, answers i = .responds response ∧ hops response.status s t
  manual : start.redirect = .manual → x.sent.length ≤ 1 ∧ ∀ response, x.sent ≠ [] →
    answers 0 = .responds response → x.result = .ok response
  error : start.redirect = .error → x.sent.length ≤ 1 ∧ ∀ response, x.sent ≠ [] →
    answers 0 = .responds response → response.redirects = true → ∃ e, x.result = .error e

theorem withContext_of_sent {ownedOrigins : List String} {traceparent : Option String}
    {remaining : Nat} {replayBody : Option BodyInit} {request : Request W}
    {answers : Nat → Answer}
    (h : (fetchWithContext ownedOrigins traceparent remaining replayBody request answers).sent ≠
      []) : ∃ sent, request.withContext ownedOrigins traceparent = some sent := by
  cases hsent : request.withContext ownedOrigins traceparent with
  | none =>
    rw [fetchWithContext.eq_def, hsent] at h
    exact absurd rfl h
  | some sent => exact ⟨sent, rfl⟩

/-- Every exchange propagates as it should, whatever the answers, and reads at most 21 of them. -/
theorem Outgoing.fetch_propagates (o : Outgoing W) (ownedOrigins : List String)
    (traceparent : Option String) (answers : Nat → Answer) :
    Propagates FetchOrStream ownedOrigins o.request answers
        (o.fetch ownedOrigins traceparent answers) ∧
      ∀ answers', (∀ i < 21, answers' i = answers i) →
        o.fetch ownedOrigins traceparent answers' = o.fetch ownedOrigins traceparent answers := by
  have hsends := fetchWithContext_sends ownedOrigins traceparent MAX_REDIRECTS o.replayBody
    o.request answers
  refine ⟨?_, fun answers' h => fetchWithContext_congr fun i hi => h i (by
    unfold MAX_REDIRECTS at hi
    omega)⟩
  exact {
    bounded := hsends.length_le
    owned := fun s hs hhas =>
      have ⟨_, htraced⟩ := hsends.traced s hs
      owned_of_traceparent htraced hhas
    stripped := fun s hs =>
      have ⟨_, htraced⟩ := hsends.traced s hs
      ⟨not_has_baggage htraced, not_has_tracestate htraced⟩
    credentials := fun i j s t hij hs ht hleft _ hname =>
      hsends.credentials hname i j s t hij hs ht hleft
    first := (hsends.methods o.carries).1
    methods := (hsends.methods o.carries).2
    manual := fun hmode => by
      refine ⟨hsends.single (by simp [hmode]), fun response hne hanswer => ?_⟩
      have ⟨sent, hsent⟩ := withContext_of_sent hne
      exact congrArg Exchange.result (fetchWithContext_manual hsent hanswer hmode)
    error := fun hmode => by
      refine ⟨hsends.single (by simp [hmode]), fun response hne hanswer hredirects => ?_⟩
      have ⟨sent, hsent⟩ := withContext_of_sent hne
      exact ⟨_, congrArg Exchange.result
        (fetchWithContext_error hsent hanswer hredirects hmode)⟩ }

/-- URLs of an origin and a path, with `Location`s that are absolute paths. -/
def pathUrls : UrlClass where
  Url := String × String
  resolve location base := some (base.1, location)
  origin := Prod.fst
  includesCredentials _ := false

def streamed : Outgoing pathUrls where
  request := ⟨("https://api.example.test", "/form"), "POST", ⟨[]⟩, some ⟨.stream, [1]⟩, .follow,
    "same-origin", by decide⟩
  initBody := some ⟨.stream, [1]⟩
  body_of_init _ h := h

/-- A `POST` of a stream that is answered 302 goes on as a `GET`. -/
theorem stream_followed :
    ¬ ∀ (o : Outgoing pathUrls) (ownedOrigins : List String) (traceparent : Option String)
      (answers : Nat → Answer), Propagates AsFetch ownedOrigins o.request answers
        (o.fetch ownedOrigins traceparent answers) := by
  intro h
  let answers : Nat → Answer := fun n =>
    if n = 0 then .responds ⟨302, some "/next", true⟩ else .responds ⟨200, none, true⟩
  have ⟨response, hanswer, hfetch⟩ :=
    (h streamed [] none answers).methods 0 _ _ rfl rfl
  have hresponse := Answer.responds.inj hanswer
  subst hresponse
  have hrefused : prescribed 302 "POST" (some ⟨.stream, [1]⟩) = none := by decide
  exact absurd (hrefused.symm.trans hfetch) (by simp)

end Wallow.Telemetry
