import Wallow.Bff.ProxyRequest

/-!
# The reference a browser is left with

When a request rotated the session's tokens, the browser must be handed a reference to the rotated
session.  `proxyRequest` hands it over on every answer but one kind: a reactive refresh whose
replay is not relayed leaves the new reference out.
-/

namespace Wallow.Bff

/-! ## What a refresh rotates, and where the store keeps it -/

namespace LockAnswer

/-- The session a refresh of `before` rotated it to, whether or not the store kept it. -/
def rotation (before : BffSession) (now : Int) : LockAnswer → Option BffSession
  | .ran (some tokens) _ _ => some (rotated before tokens now)
  | .joined (.ok stored) => if changed before stored.session then some stored.session else none
  | .declined (some (some peer)) => if changed before peer then some peer else none
  | _ => none

/-- The references the store gave or resolved, each with its session. -/
def references (before : BffSession) (ref : String) (now : Int) :
    LockAnswer → List (String × BffSession)
  | .ran (some tokens) (some nextRef) _ => [(nextRef, rotated before tokens now)]
  | .joined (.ok stored) => [(stored.ref, stored.session)]
  | .declined (some (some peer)) => [(ref, peer)]
  | _ => []

/-- The reference the refreshed session is stored under. -/
def reference (ref : String) : LockAnswer → String
  | .ran _ (some nextRef) _ => nextRef
  | .joined (.ok stored) => stored.ref
  | _ => ref

/-- The store does not throw once the tokens were exchanged. -/
def kept : LockAnswer → Bool
  | .ran (some _) written released => written.isSome && released
  | _ => true

end LockAnswer

variable {before session fresh s : BffSession} {ref : String} {now : Int} {answer : LockAnswer}

theorem changed_eq_false_iff {after : BffSession} :
    changed before after = false ↔
      after.version = before.version ∧ after.accessToken = before.accessToken := by
  simp [changed]

theorem refreshUnderLock_ok {stored : StoredSession}
    (h : refreshUnderLock before ref now answer = .ok stored) :
    (stored.ref, stored.session) ∈ answer.references before ref now ∧
      stored.ref = answer.reference ref ∧ answer.kept = true ∧
      answer.rotation before now =
        if changed before stored.session then some stored.session else none := by
  cases answer with
  | ran exchange written released =>
    cases exchange with
    | none => simp [refreshUnderLock] at h
    | some tokens =>
      cases written with
      | none => simp [refreshUnderLock] at h
      | some nextRef =>
        cases released with
        | false => simp [refreshUnderLock] at h
        | true =>
          simp only [refreshUnderLock, if_true, Except.ok.injEq] at h
          subst h
          simp [LockAnswer.references, LockAnswer.reference, LockAnswer.kept, LockAnswer.rotation,
            changed_rotated]
  | joined settled =>
    simp only [refreshUnderLock] at h
    subst h
    simp [LockAnswer.references, LockAnswer.reference, LockAnswer.kept, LockAnswer.rotation]
  | declined peer =>
    match peer with
    | none => simp [refreshUnderLock] at h
    | some none => simp [refreshUnderLock] at h
    | some (some peer) =>
      simp only [refreshUnderLock, Except.ok.injEq] at h
      subst h
      simp [LockAnswer.references, LockAnswer.reference, LockAnswer.kept, LockAnswer.rotation]
  | fault => simp [refreshUnderLock] at h

/-- A refresh that throws rotated nothing, unless the store threw after the exchange. -/
theorem refreshUnderLock_error {error : RefreshError}
    (h : refreshUnderLock before ref now answer = .error error) :
    (answer.kept = true ∧ answer.rotation before now = none) ∨
      (answer.kept = false ∧ error = .fault ∧
        ∃ tokens, answer.rotation before now = some (rotated before tokens now)) := by
  cases answer with
  | ran exchange written released =>
    cases exchange with
    | none => exact Or.inl ⟨rfl, rfl⟩
    | some tokens =>
      cases written with
      | none =>
        simp only [refreshUnderLock, Except.error.injEq] at h
        exact Or.inr ⟨rfl, h.symm, tokens, rfl⟩
      | some nextRef =>
        cases released with
        | false =>
          simp only [refreshUnderLock, Bool.false_eq_true, if_false, Except.error.injEq] at h
          exact Or.inr ⟨rfl, h.symm, tokens, rfl⟩
        | true => simp [refreshUnderLock] at h
  | joined settled =>
    simp only [refreshUnderLock] at h
    subst h
    exact Or.inl ⟨rfl, rfl⟩
  | declined peer =>
    match peer with
    | none => exact Or.inl ⟨rfl, rfl⟩
    | some none => exact Or.inl ⟨rfl, rfl⟩
    | some (some peer) => simp [refreshUnderLock] at h
  | fault => exact Or.inl ⟨rfl, rfl⟩

/-! ## The course of a request -/

/-- The request gets as far as its forward attempts. -/
def reachesUpstream (req : ProxiedRequest) : Bool :=
  req.inside && !(readsBody req.method && !req.bodyReadable)

theorem reachesUpstream_iff {req : ProxiedRequest} :
    reachesUpstream req = true ↔
      req.inside = true ∧ (readsBody req.method && !req.bodyReadable) = false := by
  simp only [reachesUpstream, Bool.and_eq_true, Bool.not_eq_true']

def proactiveAnswer (session : BffSession) (answers : Answers) : Option LockAnswer :=
  if !isFresh session answers.now && hasRefreshToken session then some answers.proactive else none

def reactiveAnswer (req : ProxiedRequest) (fresh : BffSession) (answers : Answers) :
    Option LockAnswer :=
  if reachesUpstream req && refreshesReactively fresh answers.first then some answers.reactive
  else none

def proactiveRotation (session : BffSession) (answers : Answers) : Option BffSession :=
  (proactiveAnswer session answers).bind (·.rotation session answers.proactiveNow)

def reactiveRotation (req : ProxiedRequest) (fresh : BffSession) (answers : Answers) :
    Option BffSession :=
  (reactiveAnswer req fresh answers).bind (·.rotation fresh answers.reactiveNow)

/-- The session to forward with, its reference and the cookies written so far, where the request
gets that far. -/
def prepared (config : CookieConfig) (session : BffSession) (ref : String) (answers : Answers) :
    Option (BffSession × String × List SetCookie) :=
  match ensureFreshSession session ref answers with
  | .error _ => none
  | .ok fresh =>
    (writeBackChanged config session fresh ref answers).map fun written => (fresh, written)

/-- The most recently rotated session. -/
def newestRotation (config : CookieConfig) (req : ProxiedRequest) (session : BffSession)
    (ref : String) (answers : Answers) : Option BffSession :=
  match prepared config session ref answers with
  | none => proactiveRotation session answers
  | some (fresh, _) =>
    (reactiveRotation req fresh answers).or (proactiveRotation session answers)

/-- The reactive refresh ends in a `RefreshFailedError`. -/
def reactiveTornDown (req : ProxiedRequest) (fresh : BffSession) (currentRef : String)
    (answers : Answers) : Bool :=
  (reactiveAnswer req fresh answers).any fun answer =>
    refreshUnderLock fresh currentRef answers.reactiveNow answer == .error .refreshFailed

def tornDown (config : CookieConfig) (req : ProxiedRequest) (session : BffSession)
    (ref : String) (answers : Answers) : Bool :=
  ensureFreshSession session ref answers == .error .refreshFailed ||
    (prepared config session ref answers).any fun p => reactiveTornDown req p.1 p.2.1 answers

/-- Every reference the store gave or resolved while the request ran, with its session. -/
def references (config : CookieConfig) (req : ProxiedRequest) (session : BffSession)
    (ref : String) (answers : Answers) : List (String × BffSession) :=
  (ref, session) ::
  ((proactiveAnswer session answers).toList.flatMap
    (·.references session ref answers.proactiveNow)) ++
  (prepared config session ref answers).toList.flatMap fun p =>
    (if changed session p.1 then [(p.2.1, p.1)] else []) ++
    (reactiveAnswer req p.1 answers).toList.flatMap (·.references p.1 p.2.1 answers.reactiveNow)

/-- If the request rotated the session and did not tear it down, its answer leaves the browser
with a reference to the most recently rotated session. -/
def CarriesNewest (config : CookieConfig) (jar : Jar) (req : ProxiedRequest) (answers : Answers) :
    Prop :=
  ∀ session ref, gate config jar req answers = .ok (session, ref) →
    tornDown config req session ref answers = false →
    ∀ s, newestRotation config req session ref answers = some s →
      ∃ response r, proxyRequest config jar req answers = some response ∧
        readSessionRef (jar.applyAll response.setCookie) config = some r ∧
        (r, s) ∈ references config req session ref answers

/-! ## When it does -/

/-- The last answer of the API is handed back to the browser. -/
def UpstreamAnswer.relayed : UpstreamAnswer → Bool
  | .response r => r.ok || (isRedirect r && !isAuthFailure r)
  | _ => false

/-- The cookies of an answer that is handed back, or of an error that still carries it. -/
def UpstreamAnswer.lines : UpstreamAnswer → List SetCookie
  | .response r =>
    if r.ok || (isRedirect r && !isAuthFailure r) then r.setCookie
    else if isAuthFailure r && r.status != UNAUTHORIZED_STATUS then []
    else r.setCookie
  | _ => []

def throttled : UpstreamAnswer → Bool
  | .response r => r.status == TOO_MANY_REQUESTS_STATUS
  | _ => false

/-- The upstream cookies on the answer of a request with no new rotation. -/
def upstreamLines (req : ProxiedRequest) (fresh : BffSession) (currentRef : String)
    (answers : Answers) : List SetCookie :=
  if !reachesUpstream req then []
  else if refreshesReactively fresh answers.first then
    match refreshUnderLock fresh currentRef answers.reactiveNow answers.reactive with
    | .error _ => []
    | .ok _ => answers.second.lines
  else if throttled answers.first then answers.second.lines
  else answers.first.lines

/-- A reference that reads back whole from a jar it is written to. -/
def Deliverable (config : CookieConfig) (jar : Jar) (ref : String) : Prop :=
  ref ≠ "" ∧ ChunksClear config jar ref

/-- The store throws nowhere between an exchange and the end of the proxy's own write-back, the
body can be read, a reactive rotation is followed by a replay that is relayed, and the reference
written last is deliverable. -/
def KeepsNewest (config : CookieConfig) (jar : Jar) (req : ProxiedRequest) (answers : Answers) :
    Prop :=
  ∀ session ref, gate config jar req answers = .ok (session, ref) →
    (∀ answer ∈ proactiveAnswer session answers, answer.kept = true) ∧
    ∀ fresh, ensureFreshSession session ref answers = .ok fresh →
      match writeBackChanged config session fresh ref answers with
      | none => False
      | some (currentRef, cookies) =>
        (∀ answer ∈ reactiveAnswer req fresh answers, answer.kept = true) ∧
        match reactiveRotation req fresh answers with
        | some _ => answers.second.relayed = true ∧
            Deliverable config (jar.applyAll (answers.second.lines ++ cookies))
              (answers.reactive.reference currentRef)
        | none => changed session fresh = true →
            reactiveTornDown req fresh currentRef answers = false →
            (req.inside = true → reachesUpstream req = true) ∧
              Deliverable config (jar.applyAll (upstreamLines req fresh currentRef answers))
                currentRef

/-! ## The two halves of a request -/

section

variable {config : CookieConfig} {jar : Jar} {req : ProxiedRequest} {answers : Answers}
  {currentRef : String} {cookies : List SetCookie}

theorem ensureFreshSession_ok (h : ensureFreshSession session ref answers = .ok fresh) :
    proactiveRotation session answers = if changed session fresh then some fresh else none := by
  unfold ensureFreshSession at h
  unfold proactiveRotation proactiveAnswer
  cases hfresh : isFresh session answers.now with
  | true =>
    rw [hfresh, if_pos rfl, Except.ok.injEq] at h
    subst h
    simp [changed]
  | false =>
    cases htoken : hasRefreshToken session with
    | false => simp [hfresh, htoken] at h
    | true =>
      simp only [hfresh, htoken, Bool.false_eq_true, if_false, if_true] at h
      cases hlock : refreshUnderLock session ref answers.proactiveNow answers.proactive with
      | error error =>
        rw [hlock] at h
        cases h
      | ok stored =>
        rw [hlock] at h
        cases h
        simpa using (refreshUnderLock_ok hlock).2.2.2

theorem ensureFreshSession_kept (h : ensureFreshSession session ref answers = .ok fresh) :
    ∀ answer ∈ proactiveAnswer session answers, answer.kept = true := by
  intro answer hmem
  unfold proactiveAnswer at hmem
  split at hmem
  · rename_i hasked
    cases hmem
    obtain ⟨hstale, htoken⟩ := Bool.and_eq_true_iff.mp hasked
    have hfresh : isFresh session answers.now = false := by simpa using hstale
    simp only [ensureFreshSession, hfresh, htoken, Bool.false_eq_true, if_false, if_true] at h
    cases hlock : refreshUnderLock session ref answers.proactiveNow answers.proactive with
    | error error =>
      rw [hlock] at h
      cases h
    | ok stored => exact (refreshUnderLock_ok hlock).2.2.1
  · cases hmem

theorem ensureFreshSession_error {error : RefreshError}
    (h : ensureFreshSession session ref answers = .error error) :
    ((∀ answer ∈ proactiveAnswer session answers, answer.kept = true) ∧
      proactiveRotation session answers = none) ∨
    ((∃ answer ∈ proactiveAnswer session answers, answer.kept = false) ∧ error = .fault ∧
      ∃ s, proactiveRotation session answers = some s ∧ changed session s = true) := by
  unfold ensureFreshSession at h
  unfold proactiveRotation proactiveAnswer
  cases hfresh : isFresh session answers.now with
  | true => simp [hfresh] at h
  | false =>
    cases htoken : hasRefreshToken session with
    | false => exact Or.inl ⟨by simp, by simp⟩
    | true =>
      simp only [hfresh, htoken, Bool.false_eq_true, if_false, if_true] at h
      cases hlock : refreshUnderLock session ref answers.proactiveNow answers.proactive with
      | ok stored =>
        rw [hlock] at h
        cases h
      | error error' =>
        rw [hlock] at h
        cases h
        rcases refreshUnderLock_error hlock with ⟨hkept, hnone⟩ | ⟨hlost, hfault, tokens, hrot⟩
        · exact Or.inl ⟨by simpa using hkept, by simpa using hnone⟩
        · refine Or.inr ⟨⟨answers.proactive, by simp, hlost⟩, hfault, _, by simpa using hrot, ?_⟩
          exact changed_rotated ..

/-- The last answer is relayed, or thrown with what it still carries. -/
theorem settle_cases (current : StoredSession) (answer : UpstreamAnswer) :
    (answer.relayed = true ∧ ∃ r, settle current answer = .ok (r, current) ∧
      r.setCookie = answer.lines) ∨
    (answer.relayed = false ∧ ((∃ r, settle current answer = .error (.upstream r) ∧
      r.setCookie = answer.lines) ∨
      ∃ status code, settle current answer = .error (.failure status code) ∧
        answer.lines = [])) := by
  cases answer with
  | timeout => exact Or.inr ⟨rfl, Or.inr ⟨_, _, rfl, rfl⟩⟩
  | networkFailure => exact Or.inr ⟨rfl, Or.inr ⟨_, _, rfl, rfl⟩⟩
  | response r =>
    simp only [settle, UpstreamAnswer.relayed, UpstreamAnswer.lines]
    by_cases hok : r.ok = true
    · simp [hok]
    · by_cases hredirect : (isRedirect r && !isAuthFailure r) = true
      · simp [hok, hredirect]
      · by_cases hlogin : (isAuthFailure r && r.status != UNAUTHORIZED_STATUS) = true
        · simp [hok, hredirect, hlogin]
        · simp [hok, hredirect, hlogin]

theorem forward_reactive (currentRef : String)
    (h : refreshesReactively fresh answers.first = true) :
    forwardWithResilience fresh currentRef answers =
      match refreshUnderLock fresh currentRef answers.reactiveNow answers.reactive with
      | .error error => .error (.refresh error)
      | .ok current => settle current answers.second := by
  unfold forwardWithResilience
  cases hfirst : answers.first with
  | response r =>
    have hauth : (isAuthFailure r && hasRefreshToken fresh) = true := by
      simpa [refreshesReactively, hfirst] using h
    exact if_pos hauth
  | timeout => simp [refreshesReactively, hfirst] at h
  | networkFailure => simp [refreshesReactively, hfirst] at h

theorem forward_plain (currentRef : String) (h : refreshesReactively fresh answers.first = false) :
    forwardWithResilience fresh currentRef answers =
      settle ⟨fresh, currentRef⟩ (if throttled answers.first then answers.second
        else answers.first) := by
  unfold forwardWithResilience
  cases hfirst : answers.first with
  | response r =>
    have hauth : (isAuthFailure r && hasRefreshToken fresh) = false := by
      simpa [refreshesReactively, hfirst] using h
    simp only [hauth, Bool.false_eq_true, if_false, throttled]
    exact (apply_ite (settle ⟨fresh, currentRef⟩) _ _ _).symm
  | timeout => rfl
  | networkFailure => rfl

theorem forwardRequest_settled (config : CookieConfig) (jar : Jar) (cookies : List SetCookie)
    {current : StoredSession} {answer : UpstreamAnswer}
    (hreach : reachesUpstream req = true)
    (hforward : forwardWithResilience fresh currentRef answers = settle current answer) :
    ∃ response, forwardRequest config jar req answers fresh currentRef cookies = some response ∧
      response.setCookie = answer.lines ++
        if answer.relayed && changed fresh current.session then
          cookies ++ writeSessionRef config current.ref
        else cookies := by
  obtain ⟨hinside, hbody⟩ := reachesUpstream_iff.mp hreach
  unfold forwardRequest
  simp only [hinside, hbody, hforward, Bool.not_true, Bool.false_eq_true, if_false]
  rcases settle_cases current answer with ⟨hrelayed, r, hsettle, hlines⟩ |
    ⟨hrelayed, ⟨r, hsettle, hlines⟩ | ⟨status, code, hsettle, hlines⟩⟩
  · simp [hsettle, hrelayed, hlines]
  · simp [hsettle, hrelayed, hlines]
  · simp [hsettle, hrelayed, hlines, problemResponse]

/-- The answer to a request that is not torn down, where nothing was rotated reactively. -/
theorem forwardRequest_unrotated (config : CookieConfig) (jar : Jar) (cookies : List SetCookie)
    (hrot : reactiveRotation req fresh answers = none)
    (htorn : reactiveTornDown req fresh currentRef answers = false)
    (hbody : req.inside = true → reachesUpstream req = true) :
    ∃ response, forwardRequest config jar req answers fresh currentRef cookies = some response ∧
      response.setCookie = upstreamLines req fresh currentRef answers ++ cookies := by
  cases hinside : req.inside with
  | false => simp [forwardRequest, hinside, upstreamLines, reachesUpstream, problemResponse]
  | true =>
    have hreach := hbody hinside
    have hnotBody := (reachesUpstream_iff.mp hreach).2
    cases hreactive : refreshesReactively fresh answers.first with
    | false =>
      obtain ⟨response, hresponse, hlines⟩ :=
        forwardRequest_settled config jar cookies hreach (forward_plain currentRef hreactive)
      refine ⟨response, hresponse, ?_⟩
      -- nothing was refreshed, so the settled session is the one forwarded with
      have hsame : changed fresh fresh = false := by simp [changed]
      rw [hlines]
      simp only [hsame, Bool.and_false, Bool.false_eq_true, if_false, upstreamLines, hreach,
        hreactive, Bool.not_true]
      split <;> rfl
    | true =>
      have hanswer : reactiveAnswer req fresh answers = some answers.reactive := by
        simp [reactiveAnswer, hreach, hreactive]
      have hnone : answers.reactive.rotation fresh answers.reactiveNow = none := by
        simpa [reactiveRotation, hanswer] using hrot
      cases hlock : refreshUnderLock fresh currentRef answers.reactiveNow answers.reactive with
      | error error =>
        -- a refusal would have torn the session down
        have hfault : error = .fault := by
          cases error with
          | fault => rfl
          | refreshFailed => simp [reactiveTornDown, hanswer, hlock] at htorn
        subst hfault
        refine ⟨refreshFaultResponse cookies, ?_, ?_⟩
        · simp [forwardRequest, hinside, hnotBody, forward_reactive currentRef hreactive, hlock]
        · simp [refreshFaultResponse, problemResponse, upstreamLines, hreach, hreactive, hlock]
      | ok current =>
        have hrotation := (refreshUnderLock_ok hlock).2.2.2
        -- a refresh that changed the session would have rotated it
        have hsame : changed fresh current.session = false := by
          by_contra hne
          rw [hnone, if_pos (by simpa using hne)] at hrotation
          cases hrotation
        have hforward : forwardWithResilience fresh currentRef answers =
            settle current answers.second := by
          rw [forward_reactive currentRef hreactive, hlock]
        obtain ⟨response, hresponse, hlines⟩ :=
          forwardRequest_settled config jar cookies hreach hforward
        refine ⟨response, hresponse, ?_⟩
        rw [hlines]
        simp [hsame, upstreamLines, hreach, hreactive, hlock]

/-- The answer to a request that rotated the session reactively. -/
theorem forwardRequest_rotated (config : CookieConfig) (jar : Jar) (cookies : List SetCookie)
    (currentRef : String) (hrot : reactiveRotation req fresh answers = some s) :
    changed fresh s = true ∧
    ((answers.reactive.kept = true ∧ (answers.reactive.reference currentRef, s) ∈
        answers.reactive.references fresh currentRef answers.reactiveNow ∧
      ∃ response, forwardRequest config jar req answers fresh currentRef cookies = some response ∧
        response.setCookie = answers.second.lines ++
          if answers.second.relayed then
            cookies ++ writeSessionRef config (answers.reactive.reference currentRef)
          else cookies) ∨
    (answers.reactive.kept = false ∧
      ∃ response, forwardRequest config jar req answers fresh currentRef cookies = some response ∧
        response.setCookie = cookies)) := by
  obtain ⟨answer, hanswer, hrotation⟩ := Option.bind_eq_some_iff.mp hrot
  unfold reactiveAnswer at hanswer
  split at hanswer
  · rename_i hboth
    cases hanswer
    obtain ⟨hreach, hreactive⟩ := Bool.and_eq_true_iff.mp hboth
    cases hlock : refreshUnderLock fresh currentRef answers.reactiveNow answers.reactive with
    | error error =>
      rcases refreshUnderLock_error hlock with ⟨-, hnone⟩ | ⟨hlost, rfl, tokens, htokens⟩
      · rw [hnone] at hrotation
        cases hrotation
      · rw [htokens, Option.some.injEq] at hrotation
        obtain ⟨hinside, hnotBody⟩ := reachesUpstream_iff.mp hreach
        refine ⟨hrotation ▸ changed_rotated ..,
          Or.inr ⟨hlost, refreshFaultResponse cookies, ?_, rfl⟩⟩
        simp [forwardRequest, hinside, hnotBody, forward_reactive currentRef hreactive, hlock]
    | ok current =>
      obtain ⟨hmem, href, hkept, hchanged⟩ := refreshUnderLock_ok hlock
      rw [hrotation] at hchanged
      split at hchanged
      · rename_i hne
        rw [Option.some.injEq] at hchanged
        subst hchanged
        have hforward : forwardWithResilience fresh currentRef answers =
            settle current answers.second := by
          rw [forward_reactive currentRef hreactive, hlock]
        obtain ⟨response, hresponse, hlines⟩ :=
          forwardRequest_settled config jar cookies hreach hforward
        refine ⟨hne, Or.inl ⟨hkept, href ▸ hmem, response, hresponse, ?_⟩⟩
        rw [hlines, hne, Bool.and_true, href]
      · cases hchanged
  · cases hanswer

/-! ## The law -/

theorem rotation_of_not_kept (before : BffSession) (now : Int) (h : answer.kept = false) :
    ∃ tokens, answer.rotation before now = some (rotated before tokens now) := by
  cases answer with
  | ran exchange written released =>
    cases exchange with
    | none => cases h
    | some tokens => exact ⟨tokens, rfl⟩
  | joined settled => cases h
  | declined peer => cases h
  | fault => cases h

theorem proxyRequest_refreshed (hgate : gate config jar req answers = .ok (session, ref))
    (hfresh : ensureFreshSession session ref answers = .ok fresh) :
    proxyRequest config jar req answers =
      match writeBackChanged config session fresh ref answers with
      | none => none
      | some (currentRef, cookies) =>
        forwardRequest config jar req answers fresh currentRef cookies := by
  cases hwritten : writeBackChanged config session fresh ref answers with
  | none => simp only [proxyRequest, hgate, hfresh, hwritten]
  | some written => simp only [proxyRequest, hgate, hfresh, hwritten]

theorem prepared_error {error : RefreshError}
    (hfresh : ensureFreshSession session ref answers = .error error) :
    prepared config session ref answers = none := by
  simp [prepared, hfresh]

theorem prepared_ok (hfresh : ensureFreshSession session ref answers = .ok fresh) :
    prepared config session ref answers =
      (writeBackChanged config session fresh ref answers).map fun written => (fresh, written) := by
  simp [prepared, hfresh]

theorem prepared_unwritten (hfresh : ensureFreshSession session ref answers = .ok fresh)
    (hwrite : writeBackChanged config session fresh ref answers = none) :
    prepared config session ref answers = none := by
  rw [prepared_ok hfresh, hwrite]
  rfl

theorem prepared_written (hfresh : ensureFreshSession session ref answers = .ok fresh)
    (hwrite : writeBackChanged config session fresh ref answers = some (currentRef, cookies)) :
    prepared config session ref answers = some (fresh, currentRef, cookies) := by
  rw [prepared_ok hfresh, hwrite]
  rfl

theorem writeBackChanged_some
    (h : writeBackChanged config session fresh ref answers = some (currentRef, cookies)) :
    (changed session fresh = true ∧ cookies = writeSessionRef config currentRef) ∨
      (changed session fresh = false ∧ currentRef = ref ∧ cookies = []) := by
  unfold writeBackChanged at h
  split at h
  · rename_i hchanged
    obtain ⟨written, -, hpair⟩ := Option.map_eq_some_iff.mp h
    cases hpair
    exact Or.inl ⟨hchanged, rfl⟩
  · rename_i hchanged
    cases h
    exact Or.inr ⟨by simpa using hchanged, rfl, rfl⟩

theorem writeBackChanged_none
    (h : writeBackChanged config session fresh ref answers = none) :
    changed session fresh = true := by
  unfold writeBackChanged at h
  split at h
  · assumption
  · cases h

theorem reactiveAnswer_of_rotation (hrot : reactiveRotation req fresh answers = some s) :
    reactiveAnswer req fresh answers = some answers.reactive := by
  unfold reactiveRotation reactiveAnswer at hrot
  unfold reactiveAnswer
  split
  · rfl
  · rename_i hnot
    rw [if_neg hnot] at hrot
    cases hrot

/-- A refresh that rotated the session does not end in a teardown. -/
theorem reactiveTornDown_of_rotation (currentRef : String)
    (hrot : reactiveRotation req fresh answers = some s) :
    reactiveTornDown req fresh currentRef answers = false := by
  have hanswer := reactiveAnswer_of_rotation hrot
  have hrotation : answers.reactive.rotation fresh answers.reactiveNow = some s := by
    simpa [reactiveRotation, hanswer] using hrot
  simp only [reactiveTornDown, hanswer, Option.any_some]
  rw [beq_eq_false_iff_ne]
  intro hlock
  rcases refreshUnderLock_error hlock with ⟨-, hnone⟩ | ⟨-, hfault, -⟩
  · rw [hnone] at hrotation
    cases hrotation
  · cases hfault

/-- With nothing thrown by the store and every reactive rotation relayed, the browser is left with
the newest reference, whatever the store. -/
theorem carriesNewest_of_keepsNewest (h : KeepsNewest config jar req answers) :
    CarriesNewest config jar req answers := by
  intro session ref hgate htorn s hnewest
  obtain ⟨hproactive, hforward⟩ := h session ref hgate
  cases hensure : ensureFreshSession session ref answers with
  | error error =>
    rw [newestRotation, prepared_error hensure] at hnewest
    rcases ensureFreshSession_error hensure with ⟨-, hnone⟩ | ⟨⟨answer, hmem, hlost⟩, -, -⟩
    · rw [hnone] at hnewest
      cases hnewest
    -- the store lost the rotated session, which the condition excludes
    · rw [hproactive answer hmem] at hlost
      cases hlost
  | ok fresh =>
    have hrotation := ensureFreshSession_ok hensure
    replace hforward := hforward fresh hensure
    cases hwrite : writeBackChanged config session fresh ref answers with
    | none =>
      rw [hwrite] at hforward
      -- the proxy's own write-back threw, which the condition excludes
      exact hforward.elim
    | some written =>
      obtain ⟨currentRef, cookies⟩ := written
      rw [hwrite] at hforward
      obtain ⟨hkept, hforward⟩ := hforward
      have hprepared := prepared_written hensure hwrite
      have hproxy : proxyRequest config jar req answers =
          forwardRequest config jar req answers fresh currentRef cookies := by
        rw [proxyRequest_refreshed hgate hensure, hwrite]
      rw [newestRotation, hprepared] at hnewest
      rw [hproxy]
      cases hreactive : reactiveRotation req fresh answers with
      | none =>
        simp only [hreactive, Option.none_or] at hnewest
        rw [hrotation] at hnewest
        split at hnewest
        · rename_i hchanged
          cases hnewest
          -- the proactive rotation is the newest: its reference was written before the forward
          have hnotTorn : reactiveTornDown req s currentRef answers = false := by
            simpa [tornDown, hensure, hprepared] using htorn
          rw [hreactive] at hforward
          obtain ⟨hbody, href, hclear⟩ := hforward hchanged hnotTorn
          obtain ⟨response, hresponse, hlines⟩ :=
            forwardRequest_unrotated config jar cookies hreactive hnotTorn hbody
          have hcookies : cookies = writeSessionRef config currentRef := by
            rcases writeBackChanged_some hwrite with ⟨-, hcookies⟩ | ⟨hsame, -, -⟩
            · exact hcookies
            · rw [hsame] at hchanged
              cases hchanged
          obtain ⟨rest, hread, hrest⟩ := readSessionRef_written config
            (jar.applyAll (upstreamLines req s currentRef answers)) href
          refine ⟨response, currentRef, hresponse, ?_, ?_⟩
          · rw [hlines, Jar.applyAll_append, hcookies, hread, hrest.mpr hclear]
            simp
          · simp [references, hprepared, hchanged]
        · cases hnewest
      | some s' =>
        simp only [hreactive, Option.some_or, Option.some.injEq] at hnewest
        subst hnewest
        rw [hreactive] at hforward
        -- the reactive rotation is the newest: only a relayed replay carries its reference
        obtain ⟨hrelayed, href, hclear⟩ := hforward
        have hanswer := reactiveAnswer_of_rotation hreactive
        obtain ⟨-, ⟨-, hmem, response, hresponse, hlines⟩ | ⟨hlost, -⟩⟩ :=
          forwardRequest_rotated config jar cookies currentRef hreactive
        · rw [hrelayed, if_pos rfl] at hlines
          obtain ⟨rest, hread, hrest⟩ := readSessionRef_written config
            (jar.applyAll (answers.second.lines ++ cookies)) href
          refine ⟨response, answers.reactive.reference currentRef, hresponse, ?_, ?_⟩
          · rw [hlines, ← List.append_assoc, Jar.applyAll_append, hread, hrest.mpr hclear,
              String.append_empty]
          · simp [references, hprepared, hanswer, hmem]
        · rw [hkept _ hanswer] at hlost
          cases hlost

/-! ## The condition is exact -/

/-- References as sealing makes them: a string is a reference to one session at most, and no
reference is another one with something appended. -/
structure Sealed (refs : List (String × BffSession)) : Prop where
  one_session : ∀ r s s', (r, s) ∈ refs → (r, s') ∈ refs → s = s'
  no_extension : ∀ r rest s s', (r, s) ∈ refs → (r ++ rest, s') ∈ refs → rest = ""

/-- The API sets no cookie of the session's names. -/
def LeavesSessionCookies (config : CookieConfig) (answers : Answers) : Prop :=
  ∀ line ∈ answers.second.lines, ∀ i, line.name ≠ chunkCookieName config.cookieName i

theorem gate_ref (hgate : gate config jar req answers = .ok (session, ref)) :
    readSessionRef jar config = some ref := by
  unfold gate at hgate
  split at hgate
  · cases hgate
  · split at hgate
    · cases hgate
    · rename_i ref' href
      split at hgate
      · cases hgate
      · cases hgate
      · split at hgate
        · cases hgate
        · cases hgate
          exact href

/-- Reading back a written reference finds a reference to `s` only if it is found whole. -/
theorem deliverable_of_read {refs : List (String × BffSession)} {r : String} {s' : BffSession}
    (hsealed : Sealed refs) (hwritten : (currentRef, s') ∈ refs)
    (hread : readSessionRef (jar.applyAll (writeSessionRef config currentRef)) config = some r)
    (hmem : (r, s) ∈ refs) : r = currentRef ∧ Deliverable config jar currentRef := by
  have hne : currentRef ≠ "" := by
    rintro rfl
    rw [readSessionRef_empty] at hread
    cases hread
  obtain ⟨rest, hwhole, hrest⟩ := readSessionRef_written config jar hne
  rw [hread, Option.some.injEq] at hwhole
  subst hwhole
  -- what is read is the reference with a rest, and no reference extends another
  have hempty := hsealed.no_extension _ _ _ _ hwritten hmem
  refine ⟨?_, hne, hrest.mp hempty⟩
  rw [hempty, String.append_empty]

/-- Where the answer's own cookies are the ones written before the reactive refresh, the browser
holds no reference to what that refresh rotated the session to. -/
theorem stale_read {refs : List (String × BffSession)} {lines : List SetCookie} {r : String}
    (hsealed : Sealed refs) (hgate : gate config jar req answers = .ok (session, ref))
    (hwrite : writeBackChanged config session fresh ref answers = some (currentRef, cookies))
    (hread₀ : (ref, session) ∈ refs)
    (hwritten : changed session fresh = true → (currentRef, fresh) ∈ refs)
    (hlines : ∀ line ∈ lines, ∀ i, line.name ≠ chunkCookieName config.cookieName i)
    (hread : readSessionRef (jar.applyAll (lines ++ cookies)) config = some r)
    (hmem : (r, s) ∈ refs) : changed fresh s = false := by
  rw [Jar.applyAll_append] at hread
  rcases writeBackChanged_some hwrite with ⟨hchanged, rfl⟩ | ⟨hsame, rfl, rfl⟩
  · obtain ⟨rfl, -⟩ := deliverable_of_read hsealed (hwritten hchanged) hread hmem
    have heq := hsealed.one_session _ _ _ hmem (hwritten hchanged)
    simp [heq, changed]
  -- nothing was written, and the API's own cookies do not touch the session's
  · have hjar : readSessionRef (jar.applyAll lines) config = readSessionRef jar config :=
      readSessionRef_congr fun i => Jar.lookup_applyAll_of_ne fun line hline =>
        (hlines line hline i).symm
    have hr : r = currentRef := by
      rw [show (jar.applyAll lines).applyAll [] = jar.applyAll lines from rfl, hjar,
        gate_ref hgate, Option.some.injEq] at hread
      exact hread.symm
    have heq := hsealed.one_session _ _ _ (hr ▸ hmem) hread₀
    obtain ⟨hversion, htoken⟩ := changed_eq_false_iff.mp hsame
    exact changed_eq_false_iff.mpr ⟨heq ▸ hversion.symm, heq ▸ htoken.symm⟩

/-! ### What carrying the newest reference takes -/

section Carried

variable (hseal : Sealed (references config req session ref answers))
  (hgate : gate config jar req answers = .ok (session, ref))
  (h : CarriesNewest config jar req answers)

include hseal hgate h

/-- The answer to a refresh that fails sets no cookie, so nothing was exchanged before. -/
theorem kept_of_refused {error : RefreshError}
    (hensure : ensureFreshSession session ref answers = .error error) :
    ∀ answer ∈ proactiveAnswer session answers, answer.kept = true := by
  rcases ensureFreshSession_error hensure with ⟨hkept, -⟩ | ⟨-, rfl, s, hrotation, hchanged⟩
  · exact hkept
  · have hprepared : prepared config session ref answers = none := prepared_error hensure
    have htorn : tornDown config req session ref answers = false := by
      simp [tornDown, hensure, hprepared]
    obtain ⟨response, r, hresponse, hread, hmem⟩ := h session ref hgate htorn s
      (by rw [newestRotation, hprepared]; exact hrotation)
    -- the fault's answer sets no cookie: the browser keeps what it had
    have hfault : response = refreshFaultResponse [] := by
      simpa [proxyRequest, hgate, hensure] using hresponse.symm
    have hr : r = ref := by
      rw [hfault, show jar.applyAll (refreshFaultResponse []).setCookie = jar from rfl,
        gate_ref hgate, Option.some.injEq] at hread
      exact hread.symm
    have heq := hseal.one_session _ _ _ (hr ▸ hmem) List.mem_cons_self
    simp [heq, changed] at hchanged

omit hseal in
/-- A write-back that throws gives no answer to carry the reference. -/
theorem written_of_carried (hensure : ensureFreshSession session ref answers = .ok fresh) :
    writeBackChanged config session fresh ref answers ≠ none := by
  intro hwrite
  have hchanged := writeBackChanged_none hwrite
  have hprepared := prepared_unwritten hensure hwrite
  have htorn : tornDown config req session ref answers = false := by
    simp [tornDown, hensure, hprepared]
  obtain ⟨response, r, hresponse, -, -⟩ := h session ref hgate htorn fresh
    (by rw [newestRotation, hprepared]; simp [ensureFreshSession_ok hensure, hchanged])
  rw [proxyRequest_refreshed hgate hensure, hwrite] at hresponse
  cases hresponse

variable (hensure : ensureFreshSession session ref answers = .ok fresh)
  (hwrite : writeBackChanged config session fresh ref answers = some (currentRef, cookies))

include hensure hwrite

omit hseal in
/-- What the proxy answers, where nothing is torn down after the write-back. -/
theorem carried_forward (hnotTorn : reactiveTornDown req fresh currentRef answers = false)
    (hnewest : newestRotation config req session ref answers = some s) :
    ∃ response r, forwardRequest config jar req answers fresh currentRef cookies = some response ∧
      readSessionRef (jar.applyAll response.setCookie) config = some r ∧
      (r, s) ∈ references config req session ref answers := by
  have hprepared := prepared_written hensure hwrite
  have htorn : tornDown config req session ref answers = false := by
    simp [tornDown, hensure, hprepared, hnotTorn]
  obtain ⟨response, r, hresponse, hread, hmem⟩ := h session ref hgate htorn s hnewest
  rw [proxyRequest_refreshed hgate hensure, hwrite] at hresponse
  exact ⟨response, r, hresponse, hread, hmem⟩

/-- Without a reactive rotation the write-back's own reference is the newest. -/
theorem deliverable_of_unrotated (hreactive : reactiveRotation req fresh answers = none)
    (hchanged : changed session fresh = true)
    (hnotTorn : reactiveTornDown req fresh currentRef answers = false) :
    (req.inside = true → reachesUpstream req = true) ∧
      Deliverable config (jar.applyAll (upstreamLines req fresh currentRef answers))
        currentRef := by
  have hprepared := prepared_written hensure hwrite
  have hnewest : newestRotation config req session ref answers = some fresh := by
    rw [newestRotation, hprepared]
    simp [hreactive, ensureFreshSession_ok hensure, hchanged]
  obtain ⟨response, r, hresponse, hread, hmem⟩ :=
    carried_forward hgate h hensure hwrite hnotTorn hnewest
  have hbody : req.inside = true → reachesUpstream req = true := by
    intro hinside
    by_contra hnot
    -- an unread body throws, and then there is no answer at all
    have hunread : (readsBody req.method && !req.bodyReadable) = true := by
      by_contra hread'
      exact hnot (reachesUpstream_iff.mpr ⟨hinside, by simpa using hread'⟩)
    simp [forwardRequest, hinside, hunread] at hresponse
  obtain ⟨response', hresponse', hlines⟩ :=
    forwardRequest_unrotated config jar cookies hreactive hnotTorn hbody
  rw [hresponse, Option.some.injEq] at hresponse'
  subst hresponse'
  have hcurrent : (currentRef, fresh) ∈ references config req session ref answers := by
    simp [references, hprepared, hchanged]
  rcases writeBackChanged_some hwrite with ⟨-, rfl⟩ | ⟨hsame, -, -⟩
  · rw [hlines, Jar.applyAll_append] at hread
    exact ⟨hbody, (deliverable_of_read hseal hcurrent hread hmem).2⟩
  · rw [hsame] at hchanged
    cases hchanged

/-- After a reactive rotation the store kept its session, and the replay is relayed. -/
theorem deliverable_of_rotated (hforeign : LeavesSessionCookies config answers)
    (hreactive : reactiveRotation req fresh answers = some s) :
    (∀ answer ∈ reactiveAnswer req fresh answers, answer.kept = true) ∧
      answers.second.relayed = true ∧
      Deliverable config (jar.applyAll (answers.second.lines ++ cookies))
        (answers.reactive.reference currentRef) := by
  have hprepared := prepared_written hensure hwrite
  have hnotTorn := reactiveTornDown_of_rotation currentRef hreactive
  have hanswer := reactiveAnswer_of_rotation hreactive
  have hfirst : (ref, session) ∈ references config req session ref answers := List.mem_cons_self
  have hcurrent : changed session fresh = true →
      (currentRef, fresh) ∈ references config req session ref answers := by
    intro hchanged
    simp [references, hprepared, hchanged]
  have hnewest : newestRotation config req session ref answers = some s := by
    rw [newestRotation, hprepared]
    simp [hreactive]
  obtain ⟨response, r, hresponse, hread, hmem⟩ :=
    carried_forward hgate h hensure hwrite hnotTorn hnewest
  obtain ⟨hchanged, hrotated⟩ := forwardRequest_rotated config jar cookies currentRef hreactive
  rcases hrotated with ⟨hkept, hreference, response', hresponse', hlines⟩ |
    ⟨-, response', hresponse', hlines⟩
  · rw [hresponse, Option.some.injEq] at hresponse'
    subst hresponse'
    have hreference' : (answers.reactive.reference currentRef, s) ∈
        references config req session ref answers := by
      simp [references, hprepared, hanswer, hreference]
    cases hrelayed : answers.second.relayed with
    | true =>
      rw [hrelayed, if_pos rfl] at hlines
      rw [hlines, ← List.append_assoc, Jar.applyAll_append] at hread
      refine ⟨fun answer hmem' => ?_, rfl, (deliverable_of_read hseal hreference' hread hmem).2⟩
      rw [hanswer] at hmem'
      cases hmem'
      exact hkept
    | false =>
      rw [hrelayed, if_neg (by simp)] at hlines
      rw [hlines] at hread
      -- a replay that is not relayed leaves only the older cookies
      rw [stale_read hseal hgate hwrite hfirst hcurrent hforeign hread hmem] at hchanged
      cases hchanged
  · rw [hresponse, Option.some.injEq] at hresponse'
    subst hresponse'
    rw [hlines, ← List.nil_append cookies] at hread
    -- so does a store that throws after the exchange
    rw [stale_read hseal hgate hwrite hfirst hcurrent (by simp) hread hmem] at hchanged
    cases hchanged

end Carried

theorem keepsNewest_of_carriesNewest (hforeign : LeavesSessionCookies config answers)
    (hsealed : ∀ session ref, gate config jar req answers = .ok (session, ref) →
      Sealed (references config req session ref answers))
    (h : CarriesNewest config jar req answers) : KeepsNewest config jar req answers := by
  intro session ref hgate
  have hseal := hsealed session ref hgate
  cases hensure : ensureFreshSession session ref answers with
  | error error =>
    exact ⟨kept_of_refused hseal hgate h hensure, fun fresh hok => by cases hok⟩
  | ok fresh =>
    refine ⟨ensureFreshSession_kept hensure, fun fresh' hok => ?_⟩
    cases hok
    cases hwrite : writeBackChanged config session fresh ref answers with
    | none => exact written_of_carried hgate h hensure hwrite
    | some written =>
      obtain ⟨currentRef, cookies⟩ := written
      cases hreactive : reactiveRotation req fresh answers with
      | none =>
        refine ⟨fun answer hanswer => ?_, fun hchanged hnotTorn =>
          deliverable_of_unrotated hseal hgate h hensure hwrite hreactive hchanged hnotTorn⟩
        cases hkept : answer.kept with
        | true => rfl
        | false =>
          -- what the store lost had been rotated
          obtain ⟨tokens, htokens⟩ := rotation_of_not_kept fresh answers.reactiveNow hkept
          rw [reactiveRotation, Option.mem_def.mp hanswer, Option.bind_some, htokens] at hreactive
          cases hreactive
      | some s => exact deliverable_of_rotated hseal hgate h hensure hwrite hforeign hreactive

end

def cookieConfig : CookieConfig := ⟨"__bff", true, .lax, 86400, by decide⟩

def getRequest : ProxiedRequest := ⟨true, "GET", none, true, true⟩

def freshSession : BffSession where
  sessionId := "s1"
  accessToken := "a0"
  refreshToken := some "t0"
  idToken := none
  expiresAt := 600000
  user := ⟨"alice"⟩
  sid := none
  version := 1
  csrfToken := none

def newTokens : TokenResponse := ⟨"a1", some "t1", none, 600⟩

def presented : Jar := (∅ : Jar).insert "__bff" "sealed-0"

/-- The API rejects the token, the refresh succeeds, and the replay is answered with `status`. -/
def rejectedThen (status : Nat) : Answers where
  stored := some (some freshSession)
  now := 0
  proactive := .fault
  proactiveNow := 0
  writeBack := none
  first := .response ⟨401, none, []⟩
  reactive := .ran (some newTokens) (some "sealed-1") true
  reactiveNow := 0
  second := .response ⟨status, none, []⟩
  destroyed := true

end Wallow.Bff
