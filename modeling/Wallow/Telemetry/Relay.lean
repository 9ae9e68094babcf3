import Wallow.Telemetry.FaroBatch
import Wallow.Lib.SplitText

/-!
# The browser relay

`createBrowserRelay`: the identity a request has, the context token that stands for it, and what
the relay answers and forwards.
-/

namespace Wallow.Telemetry

def isIdentifierChar (c : Char) : Bool :=
  ('A' ≤ c && c ≤ 'Z') || ('a' ≤ c && c ≤ 'z') || ('0' ≤ c && c ≤ '9') || c = '_' || c = '.' ||
    c = '-'

/-- `identifier`. -/
def isIdentifier (text : String) : Bool :=
  1 ≤ text.toList.length && text.toList.length ≤ 128 && text.toList.all isIdentifierChar

def isLowerHex (c : Char) : Bool := ('a' ≤ c && c ≤ 'f') || ('0' ≤ c && c ≤ '9')

/-- Sixteen random bytes in hexadecimal. -/
structure AnonymousId where
  text : String
  shape : (text.toList.length = 32 && text.toList.all isLowerHex) = true

structure TelemetrySession where
  userId : String
  organizationId : Option String
  sessionId : String

/-- The test that `handle` makes of a session. -/
def TelemetrySession.isValid (s : TelemetrySession) : Bool :=
  isIdentifier s.userId && isIdentifier s.sessionId && s.organizationId.all isIdentifier

/-- Whom a request is from. -/
structure RelayIdentity where
  anonymous : AnonymousId
  session : Option TelemetrySession
  valid : session.all TelemetrySession.isValid = true

namespace RelayIdentity

/-- The entries of the text a context token is made of; what is `undefined` is written as null. -/
def entries (i : RelayIdentity) : List (Option String) :=
  [some i.anonymous.text, i.session.map (·.userId), i.session.bind (·.organizationId),
    i.session.map (·.sessionId)]

def entryJson : Option String → Json
  | some text => .string text
  | none => .null

def contextText (i : RelayIdentity) : String :=
  (Json.array (i.entries.map entryJson)).stringify

end RelayIdentity

structure RelayRequest where
  /-- The origin of the URL of the request. -/
  urlOrigin : String
  method : String
  origin : Option String
  cookie : Option String
  contentEncoding : Option String
  contentType : Option String
  contentLength : Option Nat
  body : Option Json

structure RelayResponse where
  status : Nat
  /-- The context in the JSON of the answer. -/
  context : Option String
  setCookie : Option String

/-- What the relay posts to the collector. -/
structure FaroWire where
  batch : FaroBatch
  sessionId : String
  session : Option TelemetrySession
  page : String

/-- What goes into one request from outside: the limits on the rate, the session that
`resolveSession` finds, or its failure, the clock, the random bytes, and whether reading the body
takes too long. -/
structure RelayTurn where
  admitted : Bool
  resolved : Option (Option TelemetrySession)
  now : Nat
  fresh : AnonymousId
  bodyExpired : Bool

structure RelayOptions where
  origin : String
  environment : String
  release : String
  /-- The HMAC under the ingestion credential. -/
  createHmac : String → String
  sanitizeFaroBatch : Json → FaroBatch
  sanitizeUrl : String → String

namespace RelayOptions

def sessionSeconds : Nat := 3600

def cookieName : String := "wallow_telemetry_anon"

def startsWith (start text : String) : Bool := start.toList.isPrefixOf text.toList

variable (o : RelayOptions)

def hmac (value : String) : String := o.createHmac ("wallow.telemetry.context:" ++ value)

/-- The token of an identity. -/
def contextOf (i : RelayIdentity) : String := o.hmac i.contextText

def isSpace (c : Char) : Bool := c = ' ' || c = '\t'

def trim (text : List Char) : List Char :=
  ((text.dropWhile isSpace).reverse.dropWhile isSpace).reverse

/-- The value of the anonymous cookie among those of a request. -/
def cookieValue (header : Option String) : List Char :=
  let start := (cookieName ++ "=").toList
  let parts := (SplitText.split ';' (header.getD "").toList).map trim
  ((parts.find? fun part => start.isPrefixOf part).map (·.drop start.length)).getD []

def decimal? (text : List Char) : Option Nat :=
  if 10 ≤ text.length ∧ text.length ≤ 16 ∧ text.all Char.isDigit then
    some (text.foldl (fun n c => 10 * n + (c.toNat - '0'.toNat)) 0)
  else none

/-- The identifier of a cookie that the relay has signed and that has not run out. -/
def signedId (now : Nat) (value : List Char) : Option AnonymousId :=
  match SplitText.split '.' value with
  | id :: expiry :: signature :: _ =>
    if h : ((String.ofList id).toList.length = 32 &&
        (String.ofList id).toList.all isLowerHex) = true then
      if (decimal? expiry).any (now < ·) &&
          String.ofList signature = o.hmac (String.ofList (id ++ '.' :: expiry)) then
        some ⟨String.ofList id, h⟩
      else none
    else none
  | _ => none

def freshCookie (now : Nat) (fresh : AnonymousId) : String :=
  let expires := toString (now + sessionSeconds * 1000)
  cookieName ++ "=" ++ fresh.text ++ "." ++ expires ++ "." ++
    o.hmac (fresh.text ++ "." ++ expires) ++ "; Path=/; HttpOnly; SameSite=Strict; Max-Age=" ++
    toString sessionSeconds ++ if startsWith "https:" o.origin then "; Secure" else ""

def anonymous (turn : RelayTurn) (cookie : Option String) : AnonymousId × Option String :=
  match o.signedId turn.now (cookieValue cookie) with
  | some id => (id, none)
  | none => (turn.fresh, some (o.freshCookie turn.now turn.fresh))

def sessionIdOf (i : RelayIdentity) : String :=
  o.hmac ((i.session.map (·.sessionId)).getD i.anonymous.text)

/-- The attributes that every record is stamped with. -/
def trusted (i : RelayIdentity) : List (String × String) :=
  [("session.id", o.sessionIdOf i)] ++
    (i.session.map fun s => ("user.id", s.userId)).toList ++
    ((i.session.bind (·.organizationId)).map fun id => ("organization.id", id)).toList

def pageUrl (payload : Json) : String :=
  match (record ((payload.get "meta").getD .null)).get "page" with
  | none => "[redacted]"
  | some page =>
    match (record page).get "url" with
    | some (.string url) => o.sanitizeUrl url
    | _ => "[redacted]"

def wireOf (i : RelayIdentity) (payload : Json) : FaroWire where
  batch := stampFaroContext (o.trusted i) (o.sanitizeFaroBatch payload)
  sessionId := o.sessionIdOf i
  session := i.session
  page := o.pageUrl payload

def wireJson (wire : FaroWire) : Json :=
  .object (wire.batch.toFields ++ [("meta", .object (
    [("app", .object [("environment", .string o.environment), ("version", .string o.release)]),
      ("session", .object [("id", .string wire.sessionId)])] ++
    (wire.session.map fun s => ("user", Json.object [("id", .string s.userId),
      ("attributes", .object (s.organizationId.map fun id =>
        ("organization_id", Json.string id)).toList)])).toList ++
    [("page", .object [("url", .string wire.page)])]))])

def reject (status : Nat) : RelayResponse × Option FaroWire := (⟨status, none, none⟩, none)

/-- The part of `handle` that takes a batch. -/
def handlePost (i : RelayIdentity) (cookie : Option String) (expired : Bool) (r : RelayRequest) :
    RelayResponse × Option FaroWire :=
  if r.contentEncoding.isSome then reject 415
  else if !r.contentType.any (startsWith "application/json") then reject 415
  else if r.contentLength.any (BROWSER_LIMITS.batchBytes < ·) then reject 413
  else
    match r.body with
    | none => reject 413
    | some body =>
      if expired || BROWSER_LIMITS.batchBytes < body.byteLength then reject 413
      else
        let payload := record body
        let wire := o.wireOf i payload
        match payload.get "context" with
        | some (.string context) =>
          if context ≠ o.contextOf i then (⟨409, some (o.contextOf i), cookie⟩, none)
          else if BROWSER_LIMITS.batchBytes < (o.wireJson wire).byteLength then reject 413
          else (⟨204, none, cookie⟩, some wire)
        | _ => (⟨409, some (o.contextOf i), cookie⟩, none)

/-- The request comes from a page of the application. -/
def sameOrigin (r : RelayRequest) : Bool :=
  r.urlOrigin = o.origin &&
    if r.method = "POST" then r.origin = some o.origin else r.origin.all (· = o.origin)

/-- `handle`, with the identity it has found. The session is resolved and the cookie is read
without a wait in between, and nothing that comes later changes what they gave. -/
def handle (turn : RelayTurn) (r : RelayRequest) :
    Option RelayIdentity × RelayResponse × Option FaroWire :=
  if !o.sameOrigin r then (none, reject 403)
  else if r.method ≠ "POST" ∧ r.method ≠ "GET" then (none, reject 405)
  else if !turn.admitted then (none, reject 429)
  else
    match turn.resolved with
    | none => (none, reject 503)
    | some session =>
      if h : session.all TelemetrySession.isValid = true then
        let (id, cookie) := o.anonymous turn r.cookie
        let i : RelayIdentity := ⟨id, session, h⟩
        if r.method = "GET" then (some i, ⟨200, some (o.contextOf i), cookie⟩, none)
        else (some i, o.handlePost i cookie turn.bodyExpired r)
      else (none, reject 503)

end RelayOptions

/-! ## What the relay answers and forwards -/

namespace RelayOptions

variable {o : RelayOptions} {i : RelayIdentity} {r : RelayRequest}

/-- The answer gives the context of an identity, and a batch is forwarded under the identity whose
context it names. -/
structure HandledFor (o : RelayOptions) (i : RelayIdentity) (r : RelayRequest)
    (answer : RelayResponse × Option FaroWire) : Prop where
  context : ∀ c, answer.1.context = some c → c = o.contextOf i
  forwarded : ∀ w, answer.2 = some w → ∃ body, r.body = some body ∧
    (record body).get "context" = some (.string (o.contextOf i)) ∧ w = o.wireOf i (record body)

theorem reject_handledFor (status : Nat) : HandledFor o i r (reject status) where
  context := fun _ h => by cases h
  forwarded := fun _ h => by cases h

theorem context_handledFor (status : Nat) (cookie : Option String) :
    HandledFor o i r (⟨status, some (o.contextOf i), cookie⟩, none) where
  context := fun _ h => (Option.some.inj h).symm
  forwarded := fun _ h => by cases h

theorem handlePost_handledFor (cookie : Option String) (expired : Bool) :
    HandledFor o i r (o.handlePost i cookie expired r) := by
  unfold handlePost
  split
  · exact reject_handledFor 415
  split
  · exact reject_handledFor 415
  split
  · exact reject_handledFor 413
  split
  · exact reject_handledFor 413
  rename_i body hbody
  split
  · exact reject_handledFor 413
  simp only
  split
  · rename_i context hcontext
    split
    · exact context_handledFor 409 cookie
    · rename_i hsame
      split
      · exact reject_handledFor 413
      · -- the batch names the context of the identity
        rw [not_not.mp hsame] at hcontext
        refine ⟨fun _ h => (by cases h), fun w hw => ?_⟩
        cases hw
        exact ⟨body, hbody, hcontext, rfl⟩
  · exact context_handledFor 409 cookie

/-- A request is refused, or answered for the identity it is found to have. -/
theorem handle_cases (o : RelayOptions) (turn : RelayTurn) (r : RelayRequest) :
    (∃ status, o.handle turn r = (none, reject status)) ∨
      ∃ i, (o.handle turn r).1 = some i ∧ HandledFor o i r (o.handle turn r).2 := by
  unfold handle
  split
  · exact .inl ⟨403, rfl⟩
  split
  · exact .inl ⟨405, rfl⟩
  split
  · exact .inl ⟨429, rfl⟩
  split
  · exact .inl ⟨503, rfl⟩
  split
  · simp only
    split
    · exact .inr ⟨_, rfl, context_handledFor 200 _⟩
    · exact .inr ⟨_, rfl, handlePost_handledFor _ _⟩
  · exact .inl ⟨503, rfl⟩

end RelayOptions

/-! ## A token for each identity -/

namespace RelayIdentity

variable {i j : RelayIdentity}

theorem plain_of_isIdentifier {text : String} (h : isIdentifier text = true) :
    ∀ c ∈ text.toList, isIdentifierChar c = true := by
  simp only [isIdentifier, Bool.and_eq_true, List.all_eq_true] at h
  exact h.2

theorem plain_of_isLowerHex {c : Char} (h : isLowerHex c = true) : isIdentifierChar c = true := by
  simp only [isLowerHex, isIdentifierChar, Bool.or_eq_true, Bool.and_eq_true, decide_eq_true_eq,
    Char.le_def, UInt32.le_iff_toNat_le] at h ⊢
  simp at h ⊢
  omega

/-- An entry is written with the characters of identifiers. -/
def EntryPlain (entry : Option String) : Prop :=
  ∀ text, entry = some text → ∀ c ∈ text.toList, isIdentifierChar c = true

theorem entries_plain (i : RelayIdentity) : ∀ entry ∈ i.entries, EntryPlain entry := by
  rintro _ h text rfl
  have hanonymous := i.anonymous.shape
  rw [Bool.and_eq_true, List.all_eq_true] at hanonymous
  have hvalid := i.valid
  rw [entries, List.mem_cons, Option.some.injEq] at h
  cases hsession : i.session with
  | none =>
    rw [hsession] at h
    obtain rfl | h := h
    · exact fun c hc => plain_of_isLowerHex (hanonymous.2 c hc)
    · simp at h
  | some s =>
    rw [hsession, Option.all_some, TelemetrySession.isValid, Bool.and_eq_true, Bool.and_eq_true,
      Option.all_eq_true] at hvalid
    obtain ⟨⟨huser, hid⟩, horganization⟩ := hvalid
    rw [hsession] at h
    simp only [Option.map_some, Option.bind_some, List.mem_cons, Option.some.injEq,
      List.not_mem_nil, or_false] at h
    obtain rfl | rfl | h | rfl := h
    · exact fun c hc => plain_of_isLowerHex (hanonymous.2 c hc)
    · exact plain_of_isIdentifier huser
    · exact plain_of_isIdentifier (horganization text h.symm)
    · exact plain_of_isIdentifier hid

theorem isPlain_of_isIdentifierChar {c : Char} (h : isIdentifierChar c = true) :
    Json.IsPlain c ∧ c ≠ ',' := by
  simp only [isIdentifierChar, Bool.or_eq_true, Bool.and_eq_true, decide_eq_true_eq, Char.le_def,
    UInt32.le_iff_toNat_le] at h
  have hcode : ∀ d : Char, c = d ↔ c.toNat = d.toNat := fun d =>
    ⟨fun heq => heq ▸ rfl, fun heq => Char.toNat_inj.mp heq⟩
  rw [hcode, hcode, hcode] at h
  rw [Json.IsPlain, ne_eq (a := c), hcode]
  have hvalue : c.val.toNat = c.toNat := rfl
  rw [hvalue] at h
  simp at h ⊢
  omega

/-- The text of an entry: a quotation, or null. -/
def entryChars : Option String → List Char
  | some text => '"' :: (text.toList ++ ['"'])
  | none => ['n', 'u', 'l', 'l']

theorem toList_entryJson {entry : Option String} (h : EntryPlain entry) :
    (entryJson entry).stringify.toList = entryChars entry := by
  cases entry with
  | none => rfl
  | some text =>
    exact Json.toList_quote_of_plain fun c hc => (isPlain_of_isIdentifierChar (h text rfl c hc)).1

theorem comma_not_mem_entryChars {entry : Option String} (h : EntryPlain entry) :
    ',' ∉ entryChars entry := by
  cases entry with
  | none => decide
  | some text =>
    have hnone : ',' ∉ text.toList := fun hc =>
      (isPlain_of_isIdentifierChar (h text rfl ',' hc)).2 rfl
    simpa [entryChars] using hnone

theorem entryChars_inj {entry entry' : Option String} (h : entryChars entry = entryChars entry') :
    entry = entry' := by
  cases entry <;> cases entry' <;> simp [entryChars] at h ⊢
  exact String.toList_inj.mp h

/-- The text of an entry has no comma, so the entries can be read off the text. -/
theorem entries_inj (h : i.contextText = j.contextText) : i.entries = j.entries := by
  have hcomma : ∀ k : RelayIdentity, ∀ x ∈ k.entries.map entryJson, ',' ∉ x.stringify.toList := by
    intro k x hx
    obtain ⟨entry, hentry, rfl⟩ := List.mem_map.mp hx
    rw [toList_entryJson (entries_plain k entry hentry)]
    exact comma_not_mem_entryChars (entries_plain k entry hentry)
  have hchars : ∀ k : RelayIdentity,
      ((k.entries.map entryJson).map Json.stringify).map String.toList =
        k.entries.map entryChars := by
    intro k
    rw [List.map_map, List.map_map]
    exact List.map_congr_left fun entry hentry => toList_entryJson (entries_plain k entry hentry)
  have hitems : Json.stringifyItems (i.entries.map entryJson) =
      Json.stringifyItems (j.entries.map entryJson) := by
    have htext := congrArg String.toList h
    rw [contextText, contextText, Json.stringify, Json.stringify] at htext
    simpa [String.toList_inj] using htext
  have hlength : (i.entries.map entryJson).length = (j.entries.map entryJson).length := by
    simp [entries]
  have hmap := Json.stringifyItems_inj hlength (hcomma i) (hcomma j) hitems
  have hentries := congrArg (List.map String.toList) hmap
  rw [hchars, hchars] at hentries
  exact List.map_injective_iff.mpr (fun _ _ => entryChars_inj) hentries

/-- The text of an identity determines it. -/
theorem contextText_inj (h : i.contextText = j.contextText) : i = j := by
  have hentries := entries_inj h
  obtain ⟨⟨anonymous, hshape⟩, session, hvalid⟩ := i
  obtain ⟨⟨anonymous', hshape'⟩, session', hvalid'⟩ := j
  simp only [entries, List.cons.injEq, Option.some.injEq, and_true] at hentries
  obtain ⟨rfl, huser, horganization, hid⟩ := hentries
  cases session with
  | none =>
    cases session' with
    | none => rfl
    | some s' => cases huser
  | some s =>
    cases session' with
    | none => cases huser
    | some s' =>
      obtain ⟨user, organization, id⟩ := s
      obtain ⟨user', organization', id'⟩ := s'
      cases huser
      cases hid
      cases horganization
      rfl

end RelayIdentity

namespace RelayOptions

/-- Two identities with one context are one identity. -/
theorem contextOf_inj {o : RelayOptions} (hhmac : Function.Injective o.createHmac)
    {i j : RelayIdentity} (h : o.contextOf i = o.contextOf j) : i = j := by
  have htext := congrArg String.toList (hhmac h)
  rw [String.toList_append, String.toList_append, List.append_cancel_left_eq] at htext
  exact RelayIdentity.contextText_inj (String.toList_inj.mp htext)

end RelayOptions

end Wallow.Telemetry
