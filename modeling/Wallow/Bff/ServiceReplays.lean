import Wallow.Bff.ServiceTokens

/-!
# What a replay carries, and what an invalidation evicts

Every token is cached once, before any request knows it.  A rejected token is out of the cache
from the end of its invalidation on and cannot come back; what is left is an acquisition that
still holds it, and a newer token that the `DEL` meets.
-/

namespace Wallow.Bff.ServiceTokens

open Transition

namespace State

/-! ## The invariant -/

/-- The cache holds the token. -/
def Cached (s : State) (t : String) : Prop :=
  ∃ cached, s.cache = some cached ∧ cached.accessToken = t

/-- What holds of each request: the token it was rejected with is out of the cache and is not what
its acquisition or its second attempt hands out; before its `DEL` the cache holds nothing newer
than the rejection. -/
def Fits (s : State) (process : Nat) : Phase → Prop
  | .getting rejected | .missed rejected => ∀ t ∈ rejected, ¬ s.Cached t
  | .waiting rejected => ∀ t ∈ rejected, ¬ s.Cached t ∧
      ∃ a, s.inflight process = some a ∧ a.token ≠ some t
  | .attempting rejected token => ∀ t ∈ rejected, ¬ s.Cached t ∧ token ≠ t
  | .invalidating token before => token ∈ before
  | .deleting token before => token ∈ before ∧ ∀ t, s.Cached t → t ∈ before
  | .finished => True

/-- The token is in the cache, with an acquisition of another process, or with a request. -/
def HeldBut (s : State) (process : Option Nat) (t : String) : Prop :=
  s.Cached t ∨
    (∃ q a, some q ≠ process ∧ s.inflight q = some a ∧ a.token = some t) ∨
    ∃ req ∈ s.requests, t ∈ req.phase.tokens

/-- Every token about was granted, and one about to be cached is nowhere else yet. -/
structure Sound (s : State) : Prop where
  granted : ∀ t, s.HeldBut none t → t ∈ s.granted
  fresh : ∀ p a t, s.inflight p = some a → a.stores = some t → ¬ s.HeldBut (some p) t
  fits : ∀ req ∈ s.requests, s.Fits req.process req.phase
  spares : s.SparesNewer

variable {s : State} {p q i : Nat} {now : Int} {t : String} {a b : Acquisition}
  {phase old : Phase} {req : Request}

theorem HeldBut.all {process : Option Nat} (h : s.HeldBut process t) : s.HeldBut none t := by
  rcases h with h | ⟨q, a, -, hq, ha⟩ | h
  · exact Or.inl h
  · exact Or.inr (Or.inl ⟨q, a, Option.some_ne_none q, hq, ha⟩)
  · exact Or.inr (Or.inr h)

theorem cached_of_readCache {cached : CachedToken} (h : s.readCache now = some cached) :
    s.Cached cached.accessToken :=
  ⟨cached, (Option.filter_eq_some_iff.mp h).1, rfl⟩

theorem rejected_mem_tokens (h : phase.rejected = some t) : t ∈ phase.tokens := by
  cases phase with
  | getting r | missed r | waiting r =>
    rw [Phase.rejected] at h
    simp [Phase.tokens, h]
  | attempting r u =>
    rw [Phase.rejected] at h
    simp [Phase.tokens, h]
  | invalidating u before | deleting u before | finished => cases h

theorem stores_eq_token (h : a.stores = some t) : a.token = some t := by
  cases a <;> first | exact h | cases h

theorem fetched_token (locked : Bool) (u : String) : (fetched locked u).token = some u := by
  cases locked <;> rfl

theorem fetched_stores (locked : Bool) (u : String) : (fetched locked u).stores = none := by
  cases locked <;> rfl

theorem initial_sound (cache : Option CachedToken) (lock : Bool) :
    (initial cache lock).Sound where
  granted t h := by
    rcases h with ⟨cached, hc, rfl⟩ | ⟨q, a, -, hq, -⟩ | ⟨req, hreq, -⟩
    · change cache = some cached at hc
      simp [initial, hc]
    · cases hq
    · cases hreq
  fresh p a t hp := by cases hp
  fits req hreq := by cases hreq
  spares e he := by cases he

/-! ## A request moves -/

/-- What the cache loses and the acquisitions keep leaves a request's facts standing. -/
theorem Fits.mono {s' : State} (h : s.Fits p phase) (hcache : ∀ t, s'.Cached t → s.Cached t)
    (hinflight : ∀ t, phase = .waiting (some t) → s'.inflight p = s.inflight p) :
    s'.Fits p phase := by
  cases phase with
  | getting r | missed r =>
    intro t ht hc
    exact h t ht (hcache t hc)
  | waiting r =>
    intro t ht
    have hsame : s'.inflight p = s.inflight p := hinflight t (by rw [Option.mem_def.mp ht])
    rw [hsame]
    exact ⟨fun hc => (h t ht).1 (hcache t hc), (h t ht).2⟩
  | attempting r u =>
    intro t ht
    exact ⟨fun hc => (h t ht).1 (hcache t hc), (h t ht).2⟩
  | invalidating u before => exact h
  | deleting u before => exact ⟨h.1, fun t hc => h.2 t (hcache t hc)⟩
  | finished => trivial

/-- A request comes to a phase whose tokens it knew, or has read from the cache. -/
theorem Sound.put (h : s.Sound) (hi : s.requests[i]? = some req)
    (htokens : ∀ t ∈ phase.tokens, t ∈ req.phase.tokens ∨ s.Cached t)
    (hfits : s.Fits req.process phase) : (s.put i req.process phase).Sound := by
  have hreq : req ∈ s.requests := List.mem_of_getElem? hi
  have hheld : ∀ process t, (s.put i req.process phase).HeldBut process t →
      s.HeldBut process t := by
    intro process t ht
    rcases ht with ht | ht | ⟨r, hr, ht⟩
    · exact Or.inl ht
    · exact Or.inr (Or.inl ht)
    · rcases List.mem_or_eq_of_mem_set hr with hr | rfl
      · exact Or.inr (Or.inr ⟨r, hr, ht⟩)
      · rcases htokens t ht with ht | ht
        · exact Or.inr (Or.inr ⟨req, hreq, ht⟩)
        · exact Or.inl ht
  refine ⟨fun t ht => h.granted t (hheld none t ht),
    fun p a t hp hst ht => h.fresh p a t hp hst (hheld (some p) t ht), fun r hr => ?_, h.spares⟩
  rcases List.mem_or_eq_of_mem_set hr with hr | rfl
  · exact (h.fits r hr).mono (fun _ hc => hc) fun _ _ => rfl
  · exact hfits.mono (fun _ hc => hc) fun _ _ => rfl

/-- The entry of the cache lapses or is deleted. -/
theorem Sound.dropCache (h : s.Sound) : ({ s with cache := none } : State).Sound := by
  have hnone : ∀ t, ¬ ({ s with cache := none } : State).Cached t := by
    intro t hc
    obtain ⟨cached, hcached, -⟩ := hc
    cases hcached
  have hheld : ∀ process t, ({ s with cache := none } : State).HeldBut process t →
      s.HeldBut process t := by
    intro process t ht
    rcases ht with ht | ht
    · exact absurd ht (hnone t)
    · exact Or.inr ht
  exact ⟨fun t ht => h.granted t (hheld none t ht),
    fun p a t hp hst ht => h.fresh p a t hp hst (hheld (some p) t ht),
    fun r hr => (h.fits r hr).mono (fun t hc => absurd hc (hnone t)) fun _ _ => rfl, h.spares⟩

theorem Sound.setLock (h : s.Sound) (lock : Bool) : ({ s with lock := lock } : State).Sound :=
  ⟨h.granted, h.fresh, fun r hr => (h.fits r hr).mono (fun _ hc => hc) fun _ _ => rfl, h.spares⟩

/-! ## An acquisition moves -/

/-- An acquisition comes to hold a token it held already, or has read from the cache. -/
theorem Sound.enter (h : s.Sound)
    (htoken : ∀ t, b.token = some t →
      s.Cached t ∨ ∃ a, s.inflight p = some a ∧ a.token = some t)
    (hstores : b.stores = none) : (s.enter p b).Sound := by
  have hheld : ∀ process t, process ≠ some p → (s.enter p b).HeldBut process t →
      s.HeldBut process t := by
    intro process t hne ht
    rcases ht with ht | ⟨q, c, hq, hc, htok⟩ | ht
    · exact Or.inl ht
    · by_cases hqp : q = p
      · subst hqp
        rw [inflight_enter_self, Option.some.injEq] at hc
        subst hc
        -- the token of `b` was about before: cached, or with the acquisition `b` replaces
        cases htoken t htok with
        | inl hcached => exact Or.inl hcached
        | inr hold =>
          obtain ⟨a, ha, hat⟩ := hold
          exact Or.inr (Or.inl ⟨q, a, hq, ha, hat⟩)
      · rw [inflight_enter_of_ne s b hqp] at hc
        exact Or.inr (Or.inl ⟨q, c, hq, hc, htok⟩)
    · exact Or.inr (Or.inr ht)
  refine ⟨fun t ht => h.granted t (hheld none t (Option.some_ne_none p).symm ht),
    fun q a t hq hst ht => ?_, fun r hr => ?_, h.spares⟩
  · have hqp : q ≠ p := by
      intro heq
      subst heq
      rw [inflight_enter_self, Option.some.injEq] at hq
      rw [← hq, hstores] at hst
      cases hst
    rw [inflight_enter_of_ne s b hqp] at hq
    exact h.fresh q a t hq hst (hheld (some q) t (fun heq => hqp (Option.some.inj heq)) ht)
  -- only a request that waits on `p` sees the acquisition change
  · have hr' : s.Fits r.process r.phase := h.fits r hr
    by_cases hrp : r.process = p
    · cases hphase : r.phase with
      | waiting rejected =>
        rw [hphase] at hr'
        intro t ht
        obtain ⟨hgone, a, ha, hat⟩ := hr' t ht
        refine ⟨hgone, b, by rw [hrp]; exact inflight_enter_self .., fun hbt => ?_⟩
        cases htoken t hbt with
        | inl hcached => exact hgone hcached
        | inr hold =>
          obtain ⟨a', ha', hat'⟩ := hold
          rw [hrp, ha'] at ha
          cases ha
          exact hat hat'
      | _ => exact (hphase ▸ hr').mono (fun _ hc => hc) (by intro t ht; cases ht)
    · exact hr'.mono (fun _ hc => hc) fun _ _ => inflight_enter_of_ne s b hrp

/-! ## `get` and `invalidate` -/

theorem Sound.act_getting (h : s.Sound) (hi : s.requests[i]? = some req)
    {rejected : Option String} (hphase : req.phase = .getting rejected) {s' : State}
    (hs : s.act i now req = some s') : s'.Sound := by
  have hgone : s.Fits req.process (.getting rejected) :=
    hphase ▸ h.fits req (List.mem_of_getElem? hi)
  simp only [act, hphase] at hs
  cases hread : s.readCache now with
  | some cached =>
    rw [hread] at hs
    cases hs
    have hc : s.Cached cached.accessToken := cached_of_readCache hread
    apply h.put hi
    · intro t ht
      rw [hphase]
      cases List.mem_cons.mp ht with
      | inl heq => exact Or.inr (heq ▸ hc)
      | inr hold => exact Or.inl hold
    · intro t ht
      -- the token read is cached, the rejected one is not
      exact ⟨hgone t ht, fun heq => hgone t ht (heq ▸ hc)⟩
  | none =>
    rw [hread] at hs
    cases hs
    apply h.put hi
    · intro t ht
      rw [hphase]
      exact Or.inl ht
    · exact hgone

theorem Sound.act_missed (h : s.Sound) (hi : s.requests[i]? = some req)
    {rejected : Option String} (hphase : req.phase = .missed rejected)
    (hjoin : s.joinsRejected i = false) {s' : State} (hs : s.act i now req = some s') :
    s'.Sound := by
  have hgone : s.Fits req.process (.missed rejected) :=
    hphase ▸ h.fits req (List.mem_of_getElem? hi)
  have htokens : ∀ t ∈ (Phase.waiting rejected).tokens, t ∈ req.phase.tokens := fun t ht => by
    rw [hphase]
    exact ht
  simp only [act, hphase] at hs
  cases hin : s.inflight req.process with
  | some a =>
    rw [hin] at hs
    cases hs
    apply h.put hi (fun t ht => Or.inl (htokens t ht))
    intro t ht
    refine ⟨hgone t ht, a, hin, fun ha => ?_⟩
    -- otherwise the request would join an acquisition that holds its rejected token
    have hjoins : s.joinsRejected i = true := by
      obtain ⟨process, phase⟩ := req
      subst hphase
      cases ht
      change s.inflight process = some a at hin
      simp only [joinsRejected, hi, hin, Option.any_some, ha, decide_true]
    rw [hjoin] at hjoins
    cases hjoins
  | none =>
    rw [hin] at hs
    cases hs
    have hstart : (s.enter req.process .locking).Sound := h.enter (by simp [Acquisition.token]) rfl
    apply hstart.put hi (fun t ht => Or.inl (htokens t ht))
    intro t ht
    exact ⟨hgone t ht, .locking, inflight_enter_self .., by simp [Acquisition.token]⟩

theorem Sound.act_invalidating (h : s.Sound) (hi : s.requests[i]? = some req)
    {token : String} {before : List String} (hphase : req.phase = .invalidating token before)
    {s' : State} (hs : s.act i now req = some s') : s'.Sound := by
  have hbefore : s.Fits req.process (.invalidating token before) :=
    hphase ▸ h.fits req (List.mem_of_getElem? hi)
  have htokens : ∀ t ∈ [token], t ∈ req.phase.tokens := fun t ht => by
    rw [hphase]
    exact ht
  simp only [act, hphase] at hs
  by_cases hc : s.cache.any (·.accessToken = token)
  · rw [if_pos hc] at hs
    cases hs
    refine h.put hi (fun t ht => Or.inl (htokens t ht)) ⟨hbefore, fun u hu => ?_⟩
    obtain ⟨cached, hcached, rfl⟩ := hu
    rw [hcached, Option.any_some, decide_eq_true_eq] at hc
    exact hc ▸ hbefore
  · rw [if_neg hc] at hs
    cases hs
    refine h.put hi (fun t ht => Or.inl (htokens t ht)) fun t ht hcached => ?_
    obtain ⟨cached, hcache, heq⟩ := hcached
    cases ht
    rw [hcache, Option.any_some, decide_eq_true_eq] at hc
    exact hc heq

theorem Sound.act_deleting (h : s.Sound) (hi : s.requests[i]? = some req)
    {token : String} {before : List String} (hphase : req.phase = .deleting token before)
    {s' : State} (hs : s.act i now req = some s') : s'.Sound := by
  have hbefore : s.Fits req.process (.deleting token before) :=
    hphase ▸ h.fits req (List.mem_of_getElem? hi)
  -- the `DEL` empties the cache first; what it evicted is looked at last
  have hempty : ({ s with cache := none } : State).Sound := h.dropCache
  have hput : (({ s with cache := none } : State).put i req.process
      (.getting (some token))).Sound := by
    apply hempty.put hi
    · intro t ht
      rw [hphase]
      exact Or.inl ht
    · intro t ht hc
      obtain ⟨cached, hcached, -⟩ := hc
      cases hcached
  simp only [act, hphase] at hs
  cases hs
  refine ⟨hput.granted, hput.fresh, fun r hr => (hput.fits r hr).mono (fun _ hc => hc)
    fun _ _ => rfl, ?_⟩
  cases hcache : s.cache with
  | none => exact h.spares
  | some cached =>
    intro e he
    cases List.mem_cons.mp he with
    | inl heq =>
      rw [heq]
      -- nothing newer was written since the `GET`
      exact hbefore.2 _ ⟨cached, hcache, rfl⟩
    | inr hold => exact h.spares e hold

theorem Sound.act (h : s.Sound) (hi : s.requests[i]? = some req)
    (hjoin : s.joinsRejected i = false) {s' : State} (hs : s.act i now req = some s') :
    s'.Sound := by
  cases hphase : req.phase with
  | getting rejected => exact h.act_getting hi hphase hs
  | missed rejected => exact h.act_missed hi hphase hjoin hs
  | invalidating token before => exact h.act_invalidating hi hphase hs
  | deleting token before => exact h.act_deleting hi hphase hs
  | waiting rejected | attempting rejected token | finished =>
    simp only [State.act, hphase] at hs
    cases hs

theorem Sound.answer (h : s.Sound) (hi : s.requests[i]? = some req) {unauthorized : Bool}
    {s' : State} (hs : s.answer i unauthorized req = some s') : s'.Sound := by
  cases hphase : req.phase with
  | attempting rejected token =>
    cases rejected with
    | none =>
      simp only [State.answer, hphase, Option.some.injEq] at hs
      subst hs
      cases unauthorized with
      | true =>
        have hheld : s.HeldBut none token := by
          refine Or.inr (Or.inr ⟨req, List.mem_of_getElem? hi, ?_⟩)
          rw [hphase]
          exact List.mem_cons_self ..
        refine h.put hi (fun t ht => Or.inl ?_) (h.granted token hheld)
        rw [hphase]
        exact ht
      | false => exact h.put hi (fun t ht => by cases ht) trivial
    | some refused =>
      simp only [State.answer, hphase, Option.some.injEq] at hs
      subst hs
      exact h.put hi (fun t ht => by cases ht) trivial
  | _ =>
    simp only [State.answer, hphase] at hs
    cases hs

theorem Sound.failRequest (h : s.Sound) (hi : s.requests[i]? = some req) {s' : State}
    (hs : s.failRequest i req = some s') : s'.Sound := by
  have hput : (s.put i req.process .finished).Sound :=
    h.put hi (fun t ht => by cases ht) trivial
  cases hphase : req.phase with
  | waiting rejected | finished =>
    simp only [State.failRequest, hphase] at hs
    cases hs
  | _ =>
    simp only [State.failRequest, hphase, Option.some.injEq] at hs
    exact hs ▸ hput

theorem Sound.begin (h : s.Sound) (process : Nat) :
    ({ s with requests := s.requests ++ [⟨process, .getting none⟩] } : State).Sound := by
  have hheld : ∀ but t,
      ({ s with requests := s.requests ++ [⟨process, .getting none⟩] } : State).HeldBut but t →
      s.HeldBut but t := by
    intro but t ht
    rcases ht with ht | ht | ⟨r, hr, ht⟩
    · exact Or.inl ht
    · exact Or.inr (Or.inl ht)
    · cases List.mem_append.mp hr with
      | inl hold => exact Or.inr (Or.inr ⟨r, hold, ht⟩)
      | inr hnew =>
        rw [List.mem_singleton.mp hnew] at ht
        cases ht
  refine ⟨fun t ht => h.granted t (hheld none t ht),
    fun p a t hp hst ht => h.fresh p a t hp hst (hheld (some p) t ht), fun r hr => ?_, h.spares⟩
  cases List.mem_append.mp hr with
  | inl hold => exact (h.fits r hold).mono (fun _ hc => hc) fun _ _ => rfl
  | inr hnew =>
    rw [List.mem_singleton.mp hnew]
    intro t ht
    cases ht

/-! ## `acquire` -/

/-- The promise settles: its result reaches the requests that await it. -/
theorem Sound.settle (h : s.Sound) {result : Option String}
    (hin : s.inflight p = some (.settled result)) : (s.settle p result).Sound := by
  -- a request that goes on knows the promise's token beside its own
  have hresumed : ∀ r ∈ s.requests, ∀ t ∈ (resume p result r).phase.tokens,
      t ∈ r.phase.tokens ∨ result = some t := by
    intro r hr t ht
    obtain ⟨process, phase⟩ := r
    cases phase with
    | waiting rejected =>
      simp only [resume] at ht
      by_cases hp : process = p
      · rw [if_pos hp] at ht
        cases result with
        | none => cases ht
        | some u =>
          cases List.mem_cons.mp ht with
          | inl heq => exact Or.inr (heq ▸ rfl)
          | inr hold => exact Or.inl hold
      · rw [if_neg hp] at ht
        exact Or.inl ht
    | _ => exact Or.inl ht
  -- the other processes' acquisitions stand as they did
  have hrest : ∀ q a, (s.settle p result).inflight q = some a → q ≠ p ∧ s.inflight q = some a := by
    intro q a hq
    change Function.update s.inflight p none q = some a at hq
    have hqp : q ≠ p := by
      intro heq
      subst heq
      rw [Function.update_self] at hq
      cases hq
    rw [Function.update_of_ne hqp] at hq
    exact ⟨hqp, hq⟩
  have hheld : ∀ but t, but ≠ some p → (s.settle p result).HeldBut but t → s.HeldBut but t := by
    intro but t hbut ht
    rcases ht with ht | ⟨q, a, hq, ha, hat⟩ | ⟨r, hr, ht⟩
    · exact Or.inl ht
    · exact Or.inr (Or.inl ⟨q, a, hq, (hrest q a ha).2, hat⟩)
    · obtain ⟨r₀, hr₀, rfl⟩ := List.mem_map.mp hr
      cases hresumed r₀ hr₀ t ht with
      | inl hold => exact Or.inr (Or.inr ⟨r₀, hr₀, hold⟩)
      | inr hres => exact Or.inr (Or.inl ⟨p, _, hbut.symm, hin, hres⟩)
  refine ⟨fun t ht => h.granted t (hheld none t (Option.some_ne_none p).symm ht),
    fun q a t hq hst ht => ?_, fun r hr => ?_, h.spares⟩
  · obtain ⟨hqp, hq⟩ := hrest q a hq
    exact h.fresh q a t hq hst (hheld (some q) t (fun heq => hqp (Option.some.inj heq)) ht)
  · obtain ⟨⟨process, phase⟩, hr₀, rfl⟩ := List.mem_map.mp hr
    have hfit : s.Fits process phase := h.fits _ hr₀
    cases phase with
    | waiting rejected =>
      simp only [resume]
      by_cases hp : process = p
      · rw [if_pos hp]
        cases result with
        | none => trivial
        | some u =>
          intro t ht
          obtain ⟨hgone, a, ha, hat⟩ := hfit t ht
          rw [hp, hin] at ha
          cases ha
          exact ⟨hgone, fun heq => hat (congrArg some heq)⟩
      · rw [if_neg hp]
        exact hfit.mono (fun _ hc => hc) fun _ _ => Function.update_of_ne hp ..
    | _ => exact hfit.mono (fun _ hc => hc) (by intro t ht; cases ht)

/-- A granted token is nowhere else. -/
theorem Sound.grant {u : String} (h : s.Sound) (hnew : u ∉ s.granted) (hb : b.token = some u) :
    ({ s with granted := u :: s.granted }.enter p b).Sound := by
  have hheld : ∀ but t, ({ s with granted := u :: s.granted }.enter p b).HeldBut but t →
      s.HeldBut but t ∨ t = u ∧ but ≠ some p := by
    intro but t ht
    rcases ht with ht | ⟨q, a, hq, ha, hat⟩ | ht
    · exact Or.inl (Or.inl ht)
    · by_cases hqp : q = p
      · subst hqp
        rw [inflight_enter_self, Option.some.injEq] at ha
        rw [← ha, hb, Option.some.injEq] at hat
        exact Or.inr ⟨hat.symm, hq.symm⟩
      · rw [inflight_enter_of_ne _ b hqp] at ha
        exact Or.inl (Or.inr (Or.inl ⟨q, a, hq, ha, hat⟩))
    · exact Or.inl (Or.inr (Or.inr ht))
  refine ⟨fun t ht => ?_, fun q a t hq hst ht => ?_, fun r hr => ?_, h.spares⟩
  · cases hheld none t ht with
    | inl hold => exact List.mem_cons_of_mem u (h.granted t hold)
    | inr hu => exact hu.1 ▸ List.mem_cons_self ..
  · by_cases hqp : q = p
    · subst hqp
      rw [inflight_enter_self, Option.some.injEq] at hq
      -- the new acquisition stores `u`, which nobody else can hold
      have htu : t = u := by
        rw [← hq] at hst
        exact Option.some.inj ((stores_eq_token hst).symm.trans hb)
      cases hheld (some q) t ht with
      | inl hold => exact hnew (htu ▸ h.granted t hold.all)
      | inr hother => exact hother.2 rfl
    · rw [inflight_enter_of_ne _ b hqp] at hq
      cases hheld (some q) t ht with
      | inl hold => exact h.fresh q a t hq hst hold
      | inr hu =>
        have hheldq : s.HeldBut none t :=
          Or.inr (Or.inl ⟨q, a, Option.some_ne_none q, hq, stores_eq_token hst⟩)
        exact hnew (hu.1 ▸ h.granted t hheldq)
  · have hfit : s.Fits r.process r.phase := h.fits r hr
    by_cases hrp : r.process = p
    · cases hphase : r.phase with
      | waiting rejected =>
        rw [hphase] at hfit
        intro t ht
        -- the rejected token was granted before, the new one was not
        have htold : t ∈ s.granted := by
          refine h.granted t (Or.inr (Or.inr ⟨r, hr, ?_⟩))
          rw [hphase, Phase.tokens, Option.mem_toList]
          exact ht
        refine ⟨(hfit t ht).1, b, by rw [hrp]; exact inflight_enter_self .., fun hbt => ?_⟩
        rw [hb, Option.some.injEq] at hbt
        exact hnew (hbt ▸ htold)
      | _ => exact (hphase ▸ hfit).mono (fun _ hc => hc) (by intro t ht; cases ht)
    · exact hfit.mono (fun _ hc => hc) fun _ _ => inflight_enter_of_ne _ b hrp

/-- A token is cached that no request was rejected with and every deleting request spares. -/
theorem Fits.recache {record : CachedToken} (h : s.Fits p phase)
    (hnew : record.accessToken ∉ phase.tokens)
    (hdelete : ∀ t before, phase = .deleting t before → record.accessToken ∈ before) :
    ({ s with cache := some record } : State).Fits p phase := by
  -- the cache holds `record` and nothing else
  have hcached : ∀ t, ({ s with cache := some record } : State).Cached t →
      t = record.accessToken := by
    intro t hc
    obtain ⟨cached, hcached, rfl⟩ := hc
    cases hcached
    rfl
  have hgone : ∀ t, phase.rejected = some t →
      ¬ ({ s with cache := some record } : State).Cached t := by
    intro t ht hc
    exact hnew (hcached t hc ▸ rejected_mem_tokens ht)
  cases phase with
  | getting r | missed r => exact hgone
  | waiting r =>
    intro t ht
    exact ⟨hgone t ht, (h t ht).2⟩
  | attempting r u =>
    intro t ht
    exact ⟨hgone t ht, (h t ht).2⟩
  | invalidating u before => exact h
  | deleting u before =>
    refine ⟨h.1, fun t hc => ?_⟩
    rw [hcached t hc]
    exact hdelete u before rfl
  | finished => trivial

/-- The write of the cache, while no invalidation of an older rejection is about to delete. -/
theorem Sound.store (h : s.Sound) {locked : Bool} {record : CachedToken}
    (hin : s.inflight p = some (.storing locked record)) (hdelete : s.storesUnderDelete p = false) :
    ({ s.enter p (fetched locked record.accessToken) with
      cache := some record } : State).Sound := by
  -- until its `SET` the token is with its own acquisition only
  have hfresh : ¬ s.HeldBut (some p) record.accessToken := h.fresh p _ _ hin rfl
  have hheldp : s.HeldBut none record.accessToken :=
    Or.inr (Or.inl ⟨p, _, Option.some_ne_none p, hin, rfl⟩)
  -- first the acquisition moves on, then the cache takes the token
  have henter : (s.enter p (fetched locked record.accessToken)).Sound := by
    apply h.enter
    · intro t ht
      rw [fetched_token] at ht
      exact Or.inr ⟨_, hin, ht⟩
    · exact fetched_stores locked _
  have hheld : ∀ but t, ({ s.enter p (fetched locked record.accessToken) with
      cache := some record } : State).HeldBut but t →
      (s.enter p (fetched locked record.accessToken)).HeldBut but t ∨ t = record.accessToken := by
    intro but t ht
    rcases ht with ⟨cached, hcached, rfl⟩ | ht
    · cases hcached
      exact Or.inr rfl
    · exact Or.inl (Or.inr ht)
  refine ⟨fun t ht => ?_, fun q a t hq hst ht => ?_, fun r hr => ?_, h.spares⟩
  · cases hheld none t ht with
    | inl hold => exact henter.granted t hold
    | inr heq =>
      rw [heq]
      exact h.granted _ hheldp
  · cases hheld (some q) t ht with
    | inl hold => exact henter.fresh q a t hq hst hold
    | inr heq =>
      -- two acquisitions would be about to cache one token
      have hqp : q ≠ p := by
        intro hqp
        subst hqp
        change (s.enter q (fetched locked record.accessToken)).inflight q = some a at hq
        rw [inflight_enter_self, Option.some.injEq] at hq
        rw [← hq, fetched_stores] at hst
        cases hst
      change (s.enter p (fetched locked record.accessToken)).inflight q = some a at hq
      rw [inflight_enter_of_ne _ _ hqp] at hq
      exact h.fresh q a t hq hst (Or.inr (Or.inl ⟨p, _, fun hpq => hqp (Option.some.inj hpq).symm,
        hin, congrArg some heq.symm⟩))
  -- no request knows the token, and the condition spares the deleting ones
  · refine (henter.fits r hr).recache (fun ht => hfresh (Or.inr (Or.inr ⟨r, hr, ht⟩))) ?_
    intro t before hphase
    rw [storesUnderDelete, hin, List.any_eq_false] at hdelete
    have hspared := hdelete r hr
    rw [hphase, decide_eq_true_eq, not_not] at hspared
    exact hspared

theorem Sound.acquire (h : s.Sound) (hin : s.inflight p = some a)
    (hdelete : s.storesUnderDelete p = false) {s' : State} (hs : s.acquire p now a = some s') :
    s'.Sound := by
  -- the three ways an acquisition moves: it keeps its token, reads one, or has none
  have hkeep : ∀ b, (∀ t, b.token = some t → a.token = some t) → b.stores = none →
      (s.enter p b).Sound := fun b hb => h.enter fun t ht => Or.inr ⟨a, hin, hb t ht⟩
  have hread : ∀ b cached, s.readCache now = some cached → b.token = some cached.accessToken →
      b.stores = none → (s.enter p b).Sound := by
    intro b cached hc hb
    apply h.enter
    intro t ht
    rw [hb, Option.some.injEq] at ht
    exact Or.inl (ht ▸ cached_of_readCache hc)
  have hempty : ∀ b, b.token = none → b.stores = none → (s.enter p b).Sound := by
    intro b hb
    apply hkeep
    intro t ht
    rw [hb] at ht
    cases ht
  cases a with
  | locking =>
    simp only [State.acquire] at hs
    split at hs
    · cases hs
      exact hempty _ rfl rfl
    · cases hs
      exact (hempty .doubleChecking rfl rfl).setLock true
  | polling deadline =>
    cases hs
    split
    · exact hempty _ rfl rfl
    · exact hempty _ rfl rfl
  | sleeping deadline =>
    simp only [State.acquire] at hs
    cases hc : s.readCache now with
    | some cached =>
      rw [hc] at hs
      cases hs
      exact hread _ cached hc rfl rfl
    | none =>
      rw [hc] at hs
      cases hs
      exact hempty _ rfl rfl
  | checkingLock deadline =>
    cases hs
    split
    · exact hempty _ rfl rfl
    · exact hempty _ rfl rfl
  | lastRead =>
    simp only [State.acquire] at hs
    cases hc : s.readCache now with
    | some cached =>
      rw [hc] at hs
      cases hs
      exact hread _ cached hc rfl rfl
    | none =>
      rw [hc] at hs
      cases hs
      exact hempty _ rfl rfl
  | doubleChecking =>
    simp only [State.acquire] at hs
    cases hc : s.readCache now with
    | some cached =>
      rw [hc] at hs
      cases hs
      exact hread _ cached hc rfl rfl
    | none =>
      rw [hc] at hs
      cases hs
      exact hempty _ rfl rfl
  | granting locked => cases hs
  | storing locked record =>
    cases hs
    exact h.store hin hdelete
  | releasing result =>
    cases hs
    exact (hkeep (.settled result) (fun t ht => ht) rfl).setLock false
  | settled result =>
    cases hs
    exact h.settle hin

theorem Sound.failAcquire (h : s.Sound) {s' : State} (hs : s.failAcquire p a = some s') :
    s'.Sound := by
  have hreleasing : (s.enter p (.releasing none)).Sound := h.enter (fun t ht => by cases ht) rfl
  have hsettled : (s.enter p (.settled none)).Sound := h.enter (fun t ht => by cases ht) rfl
  unfold State.failAcquire at hs
  split at hs
  · exact Option.some.inj hs ▸ hreleasing
  · exact Option.some.inj hs ▸ hreleasing
  · exact Option.some.inj hs ▸ hreleasing
  · cases hs
  · exact Option.some.inj hs ▸ hsettled

/-! ## Runs -/

theorem step_sound {m : Move} (h : s.Sound) (horder : s.inOrder m = true) {s' : State}
    (hs : step s m = some s') : s'.Sound := by
  cases m with
  | begin process =>
    cases hs
    exact h.begin process
  | act i now =>
    obtain ⟨req, hi, hact⟩ := Option.bind_eq_some_iff.mp hs
    exact h.act hi (Bool.not_eq_true' _ ▸ horder) hact
  | answer i unauthorized =>
    obtain ⟨req, hi, hanswer⟩ := Option.bind_eq_some_iff.mp hs
    exact h.answer hi hanswer
  | failRequest i =>
    obtain ⟨req, hi, hfail⟩ := Option.bind_eq_some_iff.mp hs
    exact h.failRequest hi hfail
  | acquire process now =>
    obtain ⟨a, hin, hacquire⟩ := Option.bind_eq_some_iff.mp hs
    exact h.acquire hin (Bool.not_eq_true' _ ▸ horder) hacquire
  -- the issuer's promise: no token is granted twice
  | grant process now accessToken expiresIn =>
    obtain ⟨a, hin, hgrant⟩ := Option.bind_eq_some_iff.mp hs
    cases a with
    | granting locked =>
      simp only [State.grant, Option.ite_none_left_eq_some, Option.some.injEq] at hgrant
      obtain ⟨hnew, rfl⟩ := hgrant
      refine h.grant hnew ?_
      split
      · rfl
      · exact fetched_token locked accessToken
    | _ => cases hgrant
  | failAcquire process =>
    obtain ⟨a, -, hfail⟩ := Option.bind_eq_some_iff.mp hs
    exact h.failAcquire hfail
  | lapseCache =>
    cases hs
    exact h.dropCache
  | lapseLock =>
    cases hs
    exact h.setLock false

theorem Sound.replaysAnew (h : s.Sound) : s.ReplaysAnew := by
  intro req hreq rejected token hphase
  have hfit : s.Fits req.process (.attempting (some rejected) token) := hphase ▸ h.fits req hreq
  exact (hfit rejected rfl).2

/-- In every run in which no rejected request joins an acquisition that holds its token, and no
token is cached between the `GET` and the `DEL` of an older rejection's invalidation, a replay
carries another token and an invalidation evicts none obtained after its rejection. -/
theorem service_replays (cache : Option CachedToken) (lock : Bool) (s : State)
    (h : Reaches step (fun s m => s.inOrder m = true) (initial cache lock) s) :
    s.ReplaysAnew ∧ s.SparesNewer := by
  have hsound : s.Sound :=
    h.invariant Sound (initial_sound cache lock) fun _ _ _ ha hg hs => step_sound ha hg hs
  exact ⟨hsound.replaysAnew, hsound.spares⟩

/-- A process obtains a token, a request of it is rejected, and it is replayed with the next. -/
def replayed : List Move :=
  [.begin 0, .act 0 0, .act 0 0, .acquire 0 0, .acquire 0 0, .grant 0 0 "first" 300, .acquire 0 0,
    .acquire 0 0, .acquire 0 0, .answer 0 true, .act 0 1, .act 0 1, .act 0 1, .act 0 1,
    .acquire 0 1, .acquire 0 1, .grant 0 1 "second" 300, .acquire 0 1, .acquire 0 1, .acquire 0 1]

theorem service_replays_once : ∃ s : State,
    s.requests = [⟨0, .attempting (some "first") "second"⟩] ∧ s.ReplaysAnew ∧ s.SparesNewer := by
  have hrun : (run step inOrder (initial none false) replayed).any
      (fun s => s.requests = [⟨0, .attempting (some "first") "second"⟩]) = true := by decide
  obtain ⟨s, hreach, hlast⟩ := exists_reaches_of_run (fun _ _ hm => hm) hrun
  exact ⟨s, of_decide_eq_true hlast, service_replays none false s hreach⟩

/-- A request takes a token from the cache while its process still releases the lock under which
it was fetched; rejected, it joins that acquisition. -/
def rejoined : List Move :=
  [.begin 0, .act 0 0, .act 0 0, .acquire 0 0, .acquire 0 0, .grant 0 0 "first" 300, .acquire 0 0,
    .begin 0, .act 1 0, .answer 1 true, .act 1 0, .act 1 0, .act 1 0, .act 1 0, .acquire 0 0,
    .acquire 0 0]

/-- Two requests are rejected with one token and both find it in the cache; one deletes it and
has the next one cached, which the other's `DEL` evicts. -/
def evictedNewer : List Move :=
  [.begin 0, .act 0 0, .act 0 0, .acquire 0 0, .acquire 0 0, .grant 0 0 "first" 300, .acquire 0 0,
    .acquire 0 0, .acquire 0 0, .begin 0, .act 1 0, .answer 0 true, .answer 1 true, .act 0 0,
    .act 1 0, .act 1 0, .act 1 0, .act 1 0, .acquire 0 0, .acquire 0 0, .grant 0 0 "second" 300,
    .acquire 0 0, .act 0 0]

theorem service_replays_old_and_evicts_new :
    (∃ s, Reachable step (initial none false) s ∧ ¬ s.ReplaysAnew) ∧
      ∃ s, Reachable step (initial none false) s ∧ ¬ s.SparesNewer := by
  have hold : (follow step (initial none false) rejoined).any
      (fun s => ⟨0, .attempting (some "first") "first"⟩ ∈ s.requests) = true := by decide
  have hnew : (follow step (initial none false) evictedNewer).any
      (fun s => ⟨"first", ["first"], "second"⟩ ∈ s.evictions) = true := by decide
  obtain ⟨s, hs, hjoined⟩ := exists_reaches_of_run (fun _ _ _ => trivial) hold
  obtain ⟨u, hu, hevicted⟩ := exists_reaches_of_run (fun _ _ _ => trivial) hnew
  refine ⟨⟨s, hs, fun hall => ?_⟩, u, hu, fun hall => ?_⟩
  · exact hall _ (of_decide_eq_true hjoined) "first" "first" rfl rfl
  · exact absurd (hall _ (of_decide_eq_true hevicted)) (by decide)

end State

end Wallow.Bff.ServiceTokens
