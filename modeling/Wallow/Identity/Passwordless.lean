import Wallow.Lib.Expiring
import Wallow.Identity.Errors
import Wallow.Identity.SignIn

/-!
# Passwordless sign-in

`PasswordlessService.cs` over the Redis commands it sends, and the fixed window of
`RedisFixedWindowCounter.cs` that limits its sends.
-/

namespace Wallow.Identity

structure PasswordlessOptions where
  rateLimitMaxRequests : Int := 3
  rateLimitWindow : Int := 15 * TICKS_PER_MINUTE
  magicLinkTtl : Int := 10 * TICKS_PER_MINUTE
  otpTtl : Int := 5 * TICKS_PER_MINUTE

/-! ## Redis -/

/-- The keys of the service; `PasswordlessKey.render_injective` is why they are kept apart. -/
inductive PasswordlessKey
  | rate (email : String)
  | magicLink (rawToken : String)
  | otp (email : String)
  deriving DecidableEq

def RATE_LIMIT_KEY_PREFIX : String := "pwdless:rate:"
def MAGIC_LINK_KEY_PREFIX : String := "pwdless:magic:"
def OTP_KEY_PREFIX : String := "pwdless:otp:"

def PasswordlessKey.render : PasswordlessKey → String
  | .rate email => RATE_LIMIT_KEY_PREFIX ++ email
  | .magicLink rawToken => MAGIC_LINK_KEY_PREFIX ++ rawToken
  | .otp email => OTP_KEY_PREFIX ++ email

theorem PasswordlessKey.toList_render (key : PasswordlessKey) :
    key.render.toList = match key with
      | .rate email => "pwdless:rate:".toList ++ email.toList
      | .magicLink rawToken => "pwdless:magic:".toList ++ rawToken.toList
      | .otp email => "pwdless:otp:".toList ++ email.toList := by
  cases key with
  | rate email => exact String.toList_append
  | magicLink rawToken => exact String.toList_append
  | otp email => exact String.toList_append

theorem PasswordlessKey.render_injective : Function.Injective PasswordlessKey.render := by
  intro a b h
  have hl := congrArg String.toList h
  rw [toList_render, toList_render] at hl
  cases a <;> cases b <;> simp_all [String.toList_inj]

/-- A text and which of the sends stored it; the service reads the text only. -/
structure StoredText where
  text : String
  serial : Nat
  deriving DecidableEq

structure PasswordlessRedis where
  counters : ExpiringMap PasswordlessKey Int
  strings : ExpiringMap PasswordlessKey StoredText

namespace PasswordlessRedis

variable (redis : PasswordlessRedis) (now : Int) (key : PasswordlessKey)

def empty : PasswordlessRedis := ⟨.empty, .empty⟩

/-- `INCR`, which keeps the expiry of a live counter and gives a new one none. -/
def stringIncrement : Int × PasswordlessRedis :=
  match redis.counters.alive now key with
  | none => (1, { redis with counters := redis.counters.put key 1 none })
  | some counter =>
    (counter.value + 1,
      { redis with counters := redis.counters.put key (counter.value + 1) counter.expiresAt })

def keyExpire (window : Int) : PasswordlessRedis :=
  match redis.counters.alive now key with
  | none => redis
  | some counter =>
    { redis with counters := redis.counters.put key counter.value (some (now + window)) }

/-- `null` for a missing key and for one without an expiry. -/
def keyTimeToLive : Option Int :=
  (redis.counters.alive now key).bind fun counter => counter.expiresAt.map (· - now)

def stringSet (value : StoredText) (ttl : Int) : PasswordlessRedis :=
  { redis with strings := redis.strings.put key value (some (now + ttl)) }

def stringGet : Option StoredText := redis.strings.lookup now key

def keyDelete : PasswordlessRedis := { redis with strings := redis.strings.erase key }

end PasswordlessRedis

/-! ## The fixed window -/

/-- `IncrementAsync`. -/
def incrementWindow (redis : PasswordlessRedis) (now : Int) (key : PasswordlessKey)
    (window : Int) : Int × PasswordlessRedis :=
  let (count, redis) := redis.stringIncrement now key
  if count = 1 then (count, redis.keyExpire now key window) else (count, redis)

/-- `GetRetryAfterAsync`. -/
def retryAfter (redis : PasswordlessRedis) (now : Int) (key : PasswordlessKey)
    (window : Int) : Int :=
  match redis.keyTimeToLive now key with
  | some remaining => if remaining > 0 then remaining else window
  | none => window

/-- `CheckRateLimitAsync`: the wait of `RateLimitExceeded`, `none` where the send may go on. -/
def checkRateLimit (options : PasswordlessOptions) (redis : PasswordlessRedis) (now : Int)
    (email : String) : Option Int × PasswordlessRedis :=
  let (count, redis) := incrementWindow redis now (.rate email) options.rateLimitWindow
  if count ≤ options.rateLimitMaxRequests then (none, redis)
  else (some (retryAfter redis now (.rate email) options.rateLimitWindow), redis)

/-! ## Sends -/

/-- What a send draws: a raw token and its protected form, or a code. -/
structure CredentialDraw where
  rawToken : String
  signature : String
  code : Nat
  deriving DecidableEq

/-- What is published for the mailer. -/
inductive PasswordlessMail
  | magicLinkRequested (userId : Guid) (email token : String)
      (returnUrl clientId : Option String)
  | otpCodeRequested (userId : Guid) (email code : String)
  deriving DecidableEq

def PasswordlessMail.userId : PasswordlessMail → Guid
  | .magicLinkRequested userId _ _ _ _ => userId
  | .otpCodeRequested userId _ _ => userId

inductive PasswordlessChannel
  | magicLink (returnUrl clientId : Option String)
  | otp
  deriving DecidableEq

structure PasswordlessSend where
  channel : PasswordlessChannel
  email : String
  deriving DecidableEq

namespace PasswordlessSend

variable (send : PasswordlessSend) (options : PasswordlessOptions) (draw : CredentialDraw)

/-- Where the credential goes, what is stored there, and for how long. -/
def entry : PasswordlessKey × String × Int :=
  match send.channel with
  | .magicLink _ _ => (.magicLink draw.rawToken, send.email, options.magicLinkTtl)
  | .otp => (.otp send.email, padLeft 6 draw.code, options.otpTtl)

def store (redis : PasswordlessRedis) (now : Int) (serial : Nat) : PasswordlessRedis :=
  let (key, text, ttl) := send.entry options draw
  redis.stringSet now key ⟨text, serial⟩ ttl

def mail (userId : Guid) : PasswordlessMail :=
  match send.channel with
  | .magicLink returnUrl clientId =>
    .magicLinkRequested userId send.email (draw.rawToken ++ "." ++ draw.signature) returnUrl
      clientId
  | .otp => .otpCodeRequested userId send.email (padLeft 6 draw.code)

end PasswordlessSend

/-- A stored text is the new one, or was stored before. -/
theorem strings_store {send : PasswordlessSend} {options : PasswordlessOptions}
    {draw : CredentialDraw} {redis : PasswordlessRedis} {now : Int} {serial : Nat}
    {key : PasswordlessKey} {entry : Expiring StoredText}
    (h : (send.store options draw redis now serial).strings key = some entry) :
    (key = (send.entry options draw).1 ∧ entry.value.serial = serial) ∨
      redis.strings key = some entry := by
  rcases ExpiringMap.some_of_put h with ⟨hkey, rfl⟩ | hold
  · exact .inl ⟨hkey, rfl⟩
  · exact .inr hold

/-- Redis, what was published, the latest first, and how many credentials were stored. -/
structure PasswordlessState where
  redis : PasswordlessRedis
  mails : List PasswordlessMail
  serial : Nat

def PasswordlessState.initial : PasswordlessState := ⟨.empty, [], 0⟩

/-- The two sends, with the answer of `FindByEmailAsync`: the wait where the send is refused. -/
def performSend (options : PasswordlessOptions) (findByEmail : String → Option Guid)
    (send : PasswordlessSend) (draw : CredentialDraw) (s : PasswordlessState) (now : Int) :
    Option Int × PasswordlessState :=
  match checkRateLimit options s.redis now send.email with
  | (some wait, redis) => (some wait, { s with redis := redis })
  | (none, redis) =>
    match findByEmail send.email with
    -- an unknown address is answered like a known one
    | none => (none, { s with redis := redis })
    | some userId =>
      (none, ⟨send.store options draw redis now s.serial, send.mail draw userId :: s.mails,
        s.serial + 1⟩)

def sendMagicLink (options : PasswordlessOptions) (findByEmail : String → Option Guid)
    (email : String) (returnUrl clientId : Option String) (draw : CredentialDraw)
    (s : PasswordlessState) (now : Int) : Option Int × PasswordlessState :=
  performSend options findByEmail ⟨.magicLink returnUrl clientId, email⟩ draw s now

def sendOtp (options : PasswordlessOptions) (findByEmail : String → Option Guid)
    (email : String) (draw : CredentialDraw) (s : PasswordlessState) (now : Int) :
    Option Int × PasswordlessState :=
  performSend options findByEmail ⟨.otp, email⟩ draw s now

/-! ## Validations -/

/-- A validation up to its read: the key, the entry it accepts and the address it will answer. -/
structure AcceptedCredential where
  key : PasswordlessKey
  stored : StoredText
  email : String
  deriving DecidableEq

/-- `ValidateMagicLinkAsync` up to the read of the token's key. -/
def readMagicLink (platform : Platform) (redis : PasswordlessRedis) (now : Int)
    (token : String) : Except ErrorCatalogEntry AcceptedCredential :=
  match splitToken token with
  | none => .error IdentityErrors.authTokenInvalid
  | some (rawToken, providedSignature) =>
    if platform.unprotectLink providedSignature = some rawToken then
      match redis.stringGet now (.magicLink rawToken) with
      | none => .error IdentityErrors.authTokenExpired
      | some stored =>
        if stored.text = "" then .error IdentityErrors.authTokenExpired
        else .ok ⟨.magicLink rawToken, stored, stored.text⟩
    else .error IdentityErrors.authTokenInvalid

/-- `ValidateOtpAsync` up to the comparison with the stored code. -/
def readOtp (redis : PasswordlessRedis) (now : Int) (email code : String) :
    Except ErrorCatalogEntry AcceptedCredential :=
  match redis.stringGet now (.otp email) with
  | none => .error IdentityErrors.authOtpInvalid
  | some stored =>
    if stored.text = "" then .error IdentityErrors.authOtpInvalid
    else if stored.text = code then .ok ⟨.otp email, stored, email⟩
    else .error IdentityErrors.authOtpInvalid

inductive PasswordlessValidation
  | magicLink (token : String)
  | otp (email code : String)
  deriving DecidableEq

def PasswordlessValidation.read (platform : Platform) (redis : PasswordlessRedis) (now : Int) :
    PasswordlessValidation → Except ErrorCatalogEntry AcceptedCredential
  | .magicLink token => readMagicLink platform redis now token
  | .otp email code => readOtp redis now email code

/-- `ValidateMagicLinkAsync` and `ValidateOtpAsync`: the delete's outcome is not looked at. -/
def PasswordlessValidation.perform (platform : Platform) (redis : PasswordlessRedis) (now : Int)
    (validation : PasswordlessValidation) :
    Except ErrorCatalogEntry String × PasswordlessRedis :=
  match validation.read platform redis now with
  | .error error => (.error error, redis)
  | .ok accepted => (.ok accepted.email, redis.keyDelete accepted.key)

/-- What a validation accepts is what is stored under its key. -/
theorem stringGet_of_readMagicLink {platform : Platform} {redis : PasswordlessRedis} {now : Int}
    {token : String} {accepted : AcceptedCredential}
    (h : readMagicLink platform redis now token = .ok accepted) :
    redis.stringGet now accepted.key = some accepted.stored := by
  rw [readMagicLink] at h
  cases htoken : splitToken token with
  | none =>
    rw [htoken] at h
    cases h
  | some parts =>
    obtain ⟨rawToken, providedSignature⟩ := parts
    rw [htoken] at h
    dsimp only at h
    split at h
    · cases hget : redis.stringGet now (.magicLink rawToken) with
      | none =>
        rw [hget] at h
        cases h
      | some stored =>
        rw [hget] at h
        dsimp only at h
        split at h
        · cases h
        · cases h
          exact hget
    · cases h

theorem stringGet_of_readOtp {redis : PasswordlessRedis} {now : Int} {email code : String}
    {accepted : AcceptedCredential} (h : readOtp redis now email code = .ok accepted) :
    redis.stringGet now accepted.key = some accepted.stored := by
  rw [readOtp] at h
  cases hget : redis.stringGet now (.otp email) with
  | none =>
    rw [hget] at h
    cases h
  | some stored =>
    rw [hget] at h
    dsimp only at h
    split at h
    · cases h
    · split at h
      · cases h
        exact hget
      · cases h

theorem PasswordlessValidation.stringGet_of_read {platform : Platform} {redis : PasswordlessRedis}
    {now : Int} {validation : PasswordlessValidation} {accepted : AcceptedCredential}
    (h : validation.read platform redis now = .ok accepted) :
    redis.stringGet now accepted.key = some accepted.stored := by
  cases validation with
  | magicLink token => exact stringGet_of_readMagicLink h
  | otp email code => exact stringGet_of_readOtp h

end Wallow.Identity
