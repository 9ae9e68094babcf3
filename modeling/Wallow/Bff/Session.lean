import Mathlib.Data.Option.Basic

/-!
# BFF sessions and the decisions the proxy takes on them

The session record of `session.ts`, the token response of `oidc.ts`, and the pure tests of
`proxy.ts`.  Times are epoch milliseconds, as `Date.now()` gives them.
-/

namespace Wallow.Bff

/-- The resolved identity of a session.  Only `sub` is read by the stores and the proxy. -/
structure BffUser where
  sub : String
  deriving DecidableEq

/-- `BffSession` of `session.ts`; an absent optional member is `none`. -/
structure BffSession where
  sessionId : String
  accessToken : String
  refreshToken : Option String
  idToken : Option String
  expiresAt : Int
  user : BffUser
  sid : Option String
  version : Int
  csrfToken : Option String
  deriving DecidableEq

/-- `TokenResponse` of `oidc.ts`. -/
structure TokenResponse where
  access_token : String
  refresh_token : Option String
  id_token : Option String
  expires_in : Int
  deriving DecidableEq

def EXPIRY_SKEW_MS : Int := 30000
def MS_PER_SECOND : Int := 1000
def VERSION_STEP : Int := 1

/-- The fast path of `ensureFreshSession`: the access token outlives the skew. -/
def isFresh (session : BffSession) (now : Int) : Bool :=
  session.expiresAt - EXPIRY_SKEW_MS > now

def hasRefreshToken (session : BffSession) : Bool :=
  session.refreshToken != none && session.refreshToken != some ""

def STATE_CHANGING_METHODS : List String := ["POST", "PUT", "PATCH", "DELETE"]

def isStateChangingMethod (method : String) : Bool :=
  method.toUpper ∈ STATE_CHANGING_METHODS

/-- An absent or empty session token is never satisfiable. -/
def csrfTokenMatches (expected presented : Option String) : Bool :=
  match expected, presented with
  | some a, some b => a != "" && b != "" && a == b
  | _, _ => false

/-- The session `refreshUnderLock` builds from a token response. -/
def rotated (session : BffSession) (tokens : TokenResponse) (now : Int) : BffSession :=
  { session with
    accessToken := tokens.access_token
    refreshToken := tokens.refresh_token <|> session.refreshToken
    idToken := tokens.id_token <|> session.idToken
    expiresAt := now + tokens.expires_in * MS_PER_SECOND
    version := session.version + VERSION_STEP }

/-- Whether a refresh rotated the session out from under `before`. -/
def changed (before after : BffSession) : Bool :=
  after.version != before.version || after.accessToken != before.accessToken

theorem hasRefreshToken_iff (session : BffSession) :
    hasRefreshToken session = true ↔ ∃ token, session.refreshToken = some token ∧ token ≠ "" := by
  unfold hasRefreshToken
  cases session.refreshToken <;> simp

@[simp] theorem rotated_sessionId (session : BffSession) (tokens : TokenResponse) (now : Int) :
    (rotated session tokens now).sessionId = session.sessionId := rfl

/-- A rotation bumps the version, so `changed` always notices it. -/
theorem changed_rotated (session : BffSession) (tokens : TokenResponse) (now : Int) :
    changed session (rotated session tokens now) = true := by
  have hne : session.version + VERSION_STEP ≠ session.version := by
    unfold VERSION_STEP
    omega
  simp [changed, rotated, hne]

end Wallow.Bff
