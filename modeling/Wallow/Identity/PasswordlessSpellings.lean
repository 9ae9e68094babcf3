import Wallow.Identity.Passwordless
import Mathlib.Algebra.BigOperators.Group.Finset.Piecewise
import Mathlib.Algebra.Order.BigOperators.Group.Finset

/-!
# The spellings of an address

The limiter and the code store take an address as it is written, `FindByEmailAsync` by its
normalized form.  What a user is sent within one window is therefore the sum over the spellings,
each up to the limit, and a code is found under the spelling it was asked for.
-/

namespace Wallow.Identity

/-- A send with its draw and its instant. -/
structure TimedSend where
  send : PasswordlessSend
  draw : CredentialDraw
  at_ : Int
  deriving DecidableEq

def TimedSend.email (c : TimedSend) : String := c.send.email

def TimedSend.code (c : TimedSend) : String := padLeft 6 c.draw.code

def emails (calls : List TimedSend) : List String := calls.map TimedSend.email

section Source

variable (options : PasswordlessOptions) (findByEmail : String → Option Guid)

def TimedSend.perform (s : PasswordlessState) (c : TimedSend) : Option Int × PasswordlessState :=
  performSend options findByEmail c.send c.draw s c.at_

/-- The sends one after another. -/
def performSends (s : PasswordlessState) (calls : List TimedSend) : PasswordlessState :=
  calls.foldl (fun s c => (c.perform options findByEmail s).2) s

end Source

def PasswordlessState.mailsTo (s : PasswordlessState) (userId : Guid) : Nat :=
  s.mails.countP fun mail => mail.userId = userId

/-- Between windows: no counter is alive, and every stored text has a number that was given. -/
structure WindowStart (s : PasswordlessState) (start : Int) : Prop where
  idle : ∀ key t, start ≤ t → s.redis.counters.alive t key = none
  stored_lt : ∀ key entry, s.redis.strings key = some entry → entry.value.serial < s.serial

theorem windowStart_initial (start : Int) : WindowStart .initial start where
  idle _ _ _ := rfl
  stored_lt _ _ h := by cases h

/-! ## One send -/

section Window

variable {options : PasswordlessOptions} {findByEmail : String → Option Guid} {start : Int}

/-- The counters of a window in which the addresses were counted so often. -/
def Counted (options : PasswordlessOptions) (start : Int) (redis : PasswordlessRedis)
    (count : String → Nat) : Prop :=
  ∀ email, (count email = 0 ∧ ∀ t, start ≤ t → redis.counters.alive t (.rate email) = none) ∨
    (0 < count email ∧ ∃ expiresAt, start + options.rateLimitWindow ≤ expiresAt ∧
      redis.counters (.rate email) = some ⟨count email, some expiresAt⟩)

/-- One send is counted for its own address. -/
def bump (count : String → Nat) (email : String) : String → Nat :=
  Function.update count email (count email + 1)

theorem Counted.of_put {redis : PasswordlessRedis} {count : String → Nat}
    (h : Counted options start redis count) {email : String} {expiresAt : Int}
    (hexpires : start + options.rateLimitWindow ≤ expiresAt) {redis' : PasswordlessRedis}
    (hown : redis'.counters (.rate email) =
      some ⟨((count email + 1 : Nat) : Int), some expiresAt⟩)
    (hother : ∀ key, key ≠ .rate email → redis'.counters key = redis.counters key) :
    Counted options start redis' (bump count email) := by
  intro other
  by_cases heq : other = email
  · subst heq
    rw [bump, Function.update_self]
    exact .inr ⟨Nat.succ_pos _, expiresAt, hexpires, hown⟩
  · rw [bump, Function.update_of_ne heq]
    have hkey : (PasswordlessKey.rate other) ≠ .rate email := fun hsame =>
      heq (PasswordlessKey.rate.inj hsame)
    rcases h other with ⟨hzero, hidle⟩ | ⟨hpos, expires, hle, hentry⟩
    · refine .inl ⟨hzero, fun t ht => ?_⟩
      rw [ExpiringMap.alive, hother _ hkey]
      exact hidle t ht
    · exact .inr ⟨hpos, expires, hle, (hother _ hkey).trans hentry⟩

/-- Within its window a counter counts on, whichever send began it. -/
theorem Counted.increment {redis : PasswordlessRedis} {count : String → Nat}
    (h : Counted options start redis count) {now : Int} (hstart : start ≤ now)
    (hend : now < start + options.rateLimitWindow) (email : String) :
    (incrementWindow redis now (.rate email) options.rateLimitWindow).1 =
        ((count email + 1 : Nat) : Int) ∧
      (incrementWindow redis now (.rate email) options.rateLimitWindow).2.strings =
        redis.strings ∧
      Counted options start
        (incrementWindow redis now (.rate email) options.rateLimitWindow).2
        (bump count email) := by
  rcases h email with ⟨hzero, hidle⟩ | ⟨hpos, expiresAt, hexpires, hentry⟩
  · -- the first of the window, which gives the counter its expiry
    have hput : (redis.counters.put (.rate email) 1 none).alive now (.rate email) =
        some ⟨1, none⟩ :=
      ExpiringMap.alive_eq_some_iff.mpr ⟨ExpiringMap.put_self _ _ _ _, rfl⟩
    have hresult : incrementWindow redis now (.rate email) options.rateLimitWindow =
        (1, { redis with
          counters := (redis.counters.put (.rate email) 1 none).put (.rate email) 1
            (some (now + options.rateLimitWindow)) }) := by
      simp only [incrementWindow, PasswordlessRedis.stringIncrement, hidle now hstart, if_true,
        PasswordlessRedis.keyExpire, hput]
    rw [hresult, hzero]
    refine ⟨rfl, rfl, h.of_put (Int.add_le_add_right hstart options.rateLimitWindow) ?_ ?_⟩
    · rw [hzero]
      exact ExpiringMap.put_self _ _ _ _
    · intro key hkey
      exact (ExpiringMap.put_of_ne _ _ _ hkey).trans (ExpiringMap.put_of_ne _ _ _ hkey)
  · have halive : redis.counters.alive now (.rate email) =
        some ⟨count email, some expiresAt⟩ := by
      refine ExpiringMap.alive_eq_some_iff.mpr ⟨hentry, decide_eq_true ?_⟩
      omega
    have hlater : ((count email : Int) + 1) ≠ 1 := by omega
    have hresult : incrementWindow redis now (.rate email) options.rateLimitWindow =
        ((count email : Int) + 1, { redis with
          counters := redis.counters.put (.rate email) ((count email : Int) + 1)
            (some expiresAt) }) := by
      simp only [incrementWindow, PasswordlessRedis.stringIncrement, halive, if_neg hlater]
    rw [hresult]
    refine ⟨rfl, rfl, h.of_put hexpires ?_ ?_⟩
    · exact ExpiringMap.put_self _ _ _ _
    · exact fun key hkey => ExpiringMap.put_of_ne _ _ _ hkey

/-- A send under its limit goes to the user the address resolves to; one over it does not. -/
def TimedSend.Accepted (options : PasswordlessOptions) (count : String → Nat) (c : TimedSend) :
    Prop :=
  ((count c.email + 1 : Nat) : Int) ≤ options.rateLimitMaxRequests

instance (count : String → Nat) (c : TimedSend) : Decidable (c.Accepted options count) :=
  inferInstanceAs (Decidable (_ ≤ _))

/-- What one send does within a window. -/
theorem Counted.perform {s : PasswordlessState} {count : String → Nat}
    (h : Counted options start s.redis count) {c : TimedSend} (hstart : start ≤ c.at_)
    (hend : c.at_ < start + options.rateLimitWindow) :
    ∃ redis wait, redis.strings = s.redis.strings ∧
      Counted options start redis (bump count c.email) ∧
      c.perform options findByEmail s =
        if c.Accepted options count then
          (none, match findByEmail c.email with
            | none => { s with redis := redis }
            | some userId =>
              ⟨c.send.store options c.draw redis c.at_ s.serial,
                c.send.mail c.draw userId :: s.mails, s.serial + 1⟩)
        else (some wait, { s with redis := redis }) := by
  obtain ⟨hcount, hstrings, hcounted⟩ := h.increment hstart hend c.email
  refine ⟨_, retryAfter (incrementWindow s.redis c.at_ (.rate c.email) options.rateLimitWindow).2
    c.at_ (.rate c.email) options.rateLimitWindow, hstrings, hcounted, ?_⟩
  have hlimit : c.Accepted options count ↔
      (incrementWindow s.redis c.at_ (.rate c.send.email) options.rateLimitWindow).1 ≤
        options.rateLimitMaxRequests := by
    rw [TimedSend.Accepted, ← hcount]
    rfl
  unfold TimedSend.perform performSend checkRateLimit
  dsimp only
  by_cases haccepted : c.Accepted options count
  · rw [if_pos haccepted, if_pos (hlimit.mp haccepted)]
    show (match findByEmail c.email with
      | none => _
      | some userId => _ : Option Int × PasswordlessState) = _
    cases findByEmail c.email <;> rfl
  · rw [if_neg haccepted, if_neg (mt hlimit.mpr haccepted)]
    rfl

theorem counted_store {redis : PasswordlessRedis} {count : String → Nat}
    (h : Counted options start redis count) (send : PasswordlessSend) (draw : CredentialDraw)
    (now : Int) (serial : Nat) :
    Counted options start (send.store options draw redis now serial) count := h

/-! ## The sends of a window -/

/-- The sends of a window, their counters and the numbers of what they store. -/
structure Sent (options : PasswordlessOptions) (start : Int) (calls : List TimedSend)
    (s : PasswordlessState) : Prop where
  counted : Counted options start s.redis fun email => (emails calls).count email
  stored_lt : ∀ key entry, s.redis.strings key = some entry → entry.value.serial < s.serial

theorem sent_nil {s : PasswordlessState} (h : WindowStart s start) : Sent options start [] s where
  counted _ := .inl ⟨rfl, fun t ht => h.idle _ t ht⟩
  stored_lt := h.stored_lt

theorem bump_count (calls : List TimedSend) (c : TimedSend) :
    bump (fun email => (emails calls).count email) c.email =
      fun email => (emails (calls ++ [c])).count email := by
  funext other
  rw [emails, emails, List.map_append, List.count_append]
  by_cases heq : other = c.email
  · subst heq
    rw [bump, Function.update_self, List.map_singleton, List.count_singleton_self]
  · rw [bump, Function.update_of_ne heq, List.map_singleton, List.count_singleton,
      if_neg (fun h => heq (beq_iff_eq.mp h).symm), Nat.add_zero]

theorem performSends_concat (s : PasswordlessState) (calls : List TimedSend) (c : TimedSend) :
    performSends options findByEmail s (calls ++ [c]) =
      (c.perform options findByEmail (performSends options findByEmail s calls)).2 := by
  rw [performSends, List.foldl_append]
  rfl

theorem accepted_iff {count : String → Nat} {c : TimedSend} :
    c.Accepted options count ↔ count c.email < options.rateLimitMaxRequests.toNat := by
  unfold TimedSend.Accepted
  omega

theorem userId_mail (send : PasswordlessSend) (draw : CredentialDraw) (userId : Guid) :
    (send.mail draw userId).userId = userId := by
  unfold PasswordlessSend.mail
  split <;> rfl

theorem Sent.concat {calls : List TimedSend} {s : PasswordlessState}
    (h : Sent options start calls s) {c : TimedSend} (hstart : start ≤ c.at_)
    (hend : c.at_ < start + options.rateLimitWindow) :
    Sent options start (calls ++ [c]) (c.perform options findByEmail s).2 ∧
      ∀ userId, (c.perform options findByEmail s).2.mailsTo userId = s.mailsTo userId +
        if (emails calls).count c.email < options.rateLimitMaxRequests.toNat ∧
          findByEmail c.email = some userId then 1 else 0 := by
  obtain ⟨redis, wait, hstrings, hcounted, hperform⟩ := h.counted.perform hstart hend
  rw [bump_count] at hcounted
  -- the texts stay where the send stores none
  have hsame : Sent options start (calls ++ [c]) { s with redis := redis } :=
    ⟨hcounted, fun key entry hentry => h.stored_lt key entry (hstrings ▸ hentry)⟩
  rw [hperform]
  by_cases haccepted : c.Accepted options fun email => (emails calls).count email
  · rw [if_pos haccepted]
    have hunder := accepted_iff.mp haccepted
    cases hfind : findByEmail c.email with
    | none =>
      refine ⟨hsame, fun userId => ?_⟩
      rw [if_neg fun hboth => absurd hboth.2 (Option.some_ne_none userId).symm]
      rfl
    | some found =>
      refine ⟨⟨counted_store hcounted _ _ _ _, fun key entry hentry => ?_⟩, fun userId => ?_⟩
      · rcases strings_store hentry with ⟨-, hnew⟩ | hold
        · exact hnew ▸ Nat.lt_succ_self _
        · rw [hstrings] at hold
          exact Nat.lt_succ_of_lt (h.stored_lt key entry hold)
      · show List.countP _ (c.send.mail c.draw found :: s.mails) = _
        rw [List.countP_cons, userId_mail]
        by_cases heq : found = userId
        · rw [if_pos (decide_eq_true heq), if_pos ⟨hunder, congrArg some heq⟩]
          rfl
        · rw [if_neg (by rw [decide_eq_true_iff]; exact heq),
            if_neg fun hboth => heq (Option.some.inj hboth.2)]
          rfl
  · rw [if_neg haccepted]
    refine ⟨hsame, fun userId => ?_⟩
    rw [if_neg fun hboth => haccepted (accepted_iff.mpr hboth.1)]
    rfl

/-- The calls fall into the window that begins at `start`. -/
def WithinWindow (options : PasswordlessOptions) (start : Int) (calls : List TimedSend) : Prop :=
  ∀ c ∈ calls, start ≤ c.at_ ∧ c.at_ < start + options.rateLimitWindow

theorem WithinWindow.front {front calls : List TimedSend} (h : WithinWindow options start calls)
    (hfront : front <+: calls) : WithinWindow options start front :=
  fun c hc => h c (hfront.subset hc)

theorem sent_performSends {s : PasswordlessState} (hs : WindowStart s start)
    {calls : List TimedSend} (hcalls : WithinWindow options start calls) :
    Sent options start calls (performSends options findByEmail s calls) := by
  induction calls using List.reverseRecOn with
  | nil => exact sent_nil hs
  | append_singleton calls c ih =>
    obtain ⟨hstart, hend⟩ := hcalls c (List.mem_append_right _ (List.mem_singleton.mpr rfl))
    rw [performSends_concat]
    exact ((ih (hcalls.front (List.prefix_append _ _))).concat hstart hend).1

/-! ## What a user is sent -/

/-- The addresses in the calls that are a user's. -/
def spellings (findByEmail : String → Option Guid) (userId : Guid) (calls : List TimedSend) :
    Finset String :=
  (emails calls).toFinset.filter fun email => findByEmail email = some userId

theorem mem_spellings {userId : Guid} {calls : List TimedSend} {email : String} :
    email ∈ spellings findByEmail userId calls ↔
      (∃ c ∈ calls, c.email = email) ∧ findByEmail email = some userId := by
  rw [spellings, Finset.mem_filter, List.mem_toFinset, emails, List.mem_map]

/-- The messages of a user's addresses, each up to the limit. -/
theorem mailsTo_performSends {s : PasswordlessState} (hs : WindowStart s start)
    {calls : List TimedSend} (hcalls : WithinWindow options start calls) (userId : Guid) :
    (performSends options findByEmail s calls).mailsTo userId = s.mailsTo userId +
      ∑ email ∈ spellings findByEmail userId calls,
        min ((emails calls).count email) options.rateLimitMaxRequests.toNat := by
  -- along the calls, over all the addresses they will name
  have hfront : ∀ front, front <+: calls →
      (performSends options findByEmail s front).mailsTo userId = s.mailsTo userId +
        ∑ email ∈ spellings findByEmail userId calls,
          min ((emails front).count email) options.rateLimitMaxRequests.toNat := by
    intro front
    induction front using List.reverseRecOn with
    | nil =>
      intro _
      simp [performSends, emails]
    | append_singleton front c ih =>
      intro hpre
      have hbefore := (List.prefix_append front [c]).trans hpre
      have hmem : c ∈ calls :=
        hpre.subset (List.mem_append_right _ (List.mem_singleton.mpr rfl))
      obtain ⟨hstart, hend⟩ := hcalls c hmem
      have hsent : Sent options start front (performSends options findByEmail s front) :=
        sent_performSends hs (hcalls.front hbefore)
      rw [performSends_concat, (hsent.concat hstart hend).2 userId, ih hbefore, Nat.add_assoc]
      congr 1
      -- only the address of the call is counted once more
      have hterm : ∀ email, min ((emails (front ++ [c])).count email)
          options.rateLimitMaxRequests.toNat =
            min ((emails front).count email) options.rateLimitMaxRequests.toNat +
              if email = c.email then
                if (emails front).count c.email < options.rateLimitMaxRequests.toNat then 1 else 0
              else 0 := by
        intro email
        have hcount := congrFun (bump_count front c) email
        rw [← hcount]
        by_cases heq : email = c.email
        · subst heq
          rw [bump, Function.update_self, if_pos rfl]
          split <;> omega
        · rw [bump, Function.update_of_ne heq, if_neg heq, Nat.add_zero]
      rw [Finset.sum_congr rfl fun email _ => hterm email, Finset.sum_add_distrib,
        Finset.sum_ite_eq']
      congr 1
      by_cases hfind : findByEmail c.email = some userId
      · rw [if_pos (mem_spellings.mpr ⟨⟨c, hmem, rfl⟩, hfind⟩)]
        simp only [hfind, and_true]
      · rw [if_neg fun h => hfind (mem_spellings.mp h).2, if_neg fun h => hfind h.2]
  exact hfront calls List.prefix_rfl

/-- A sum of positive counts, each taken up to a limit, stays within the limit only where there is
one of them, or where they do together. -/
theorem sum_min_le_iff {α : Type*} [DecidableEq α] {keys : Finset α} {count : α → Nat}
    {limit : Nat} (hpos : ∀ key ∈ keys, 0 < count key) :
    ∑ key ∈ keys, min (count key) limit ≤ limit ↔
      limit = 0 ∨ (∀ key ∈ keys, ∀ other ∈ keys, key = other) ∨
        ∑ key ∈ keys, count key ≤ limit := by
  constructor
  · intro h
    by_contra hnone
    rw [not_or, not_or] at hnone
    obtain ⟨hlimit, hmany, hsum⟩ := hnone
    by_cases hsmall : ∀ key ∈ keys, count key ≤ limit
    · rw [Finset.sum_congr rfl fun key hkey => Nat.min_eq_left (hsmall key hkey)] at h
      exact hsum h
    · -- one key alone reaches the limit, and there is another
      push Not at hsmall hmany
      obtain ⟨key, hkey, hlarge⟩ := hsmall
      obtain ⟨other, hother, hne⟩ : ∃ other ∈ keys, other ≠ key := by
        obtain ⟨a, ha, b, hb, hab⟩ := hmany
        by_cases hak : a = key
        · exact ⟨b, hb, fun hbk => hab (hak.trans hbk.symm)⟩
        · exact ⟨a, ha, hak⟩
      rw [← Finset.add_sum_erase keys _ hkey, Nat.min_eq_right hlarge.le] at h
      have hrest := Finset.single_le_sum (f := fun key => min (count key) limit)
        (fun _ _ => Nat.zero_le _) (Finset.mem_erase.mpr ⟨hne, hother⟩)
      have hone := hpos other hother
      omega
  · rintro (hzero | hone | hsum)
    · rw [hzero]
      simp
    · rcases keys.eq_empty_or_nonempty with hempty | ⟨key, hkey⟩
      · rw [hempty]
        simp
      · have hsingle : keys = {key} := Finset.eq_singleton_iff_unique_mem.mpr
          ⟨hkey, fun other hother => hone other hother key hkey⟩
        rw [hsingle, Finset.sum_singleton]
        exact Nat.min_le_right _ _
    · exact (Finset.sum_le_sum fun _ _ => Nat.min_le_left _ _).trans hsum

theorem sum_spellings (userId : Guid) (calls : List TimedSend) :
    ∑ email ∈ spellings findByEmail userId calls, (emails calls).count email =
      calls.countP fun c => findByEmail c.email = some userId := by
  rw [spellings, Finset.sum_filter_count_eq_countP, emails, List.countP_map]
  rfl

/-! ## What the sends promise -/

/-- No user is sent more messages than one window's limit. -/
def Bounded (options : PasswordlessOptions) (findByEmail : String → Option Guid)
    (s : PasswordlessState) (calls : List TimedSend) : Prop :=
  ∀ userId, (performSends options findByEmail s calls).mailsTo userId ≤
    s.mailsTo userId + options.rateLimitMaxRequests.toNat

/-- A code that is sent is found, until it lapses, under every address of its user. -/
def FoundUnderEverySpelling (options : PasswordlessOptions) (findByEmail : String → Option Guid)
    (s : PasswordlessState) (calls : List TimedSend) : Prop :=
  ∀ front c, front ++ [c] <+: calls → c.send.channel = .otp →
    (c.perform options findByEmail (performSends options findByEmail s front)).1 = none →
    ∀ userId spelling, findByEmail c.email = some userId → findByEmail spelling = some userId →
      ∀ now, c.at_ ≤ now → now < c.at_ + options.otpTtl →
        readOtp (performSends options findByEmail s (front ++ [c])).redis now spelling c.code =
          .ok ⟨.otp spelling, ⟨c.code, (performSends options findByEmail s front).serial⟩, spelling⟩

/-- Each user is sent to under one spelling, or not more often than the limit. -/
def OneSpellingOrFew (options : PasswordlessOptions) (findByEmail : String → Option Guid)
    (calls : List TimedSend) : Prop :=
  ∀ userId, options.rateLimitMaxRequests ≤ 0 ∨
    (∀ c ∈ calls, ∀ c' ∈ calls, findByEmail c.email = some userId →
      findByEmail c'.email = some userId → c.email = c'.email) ∨
    ((calls.countP fun c => findByEmail c.email = some userId : Nat) : Int) ≤
      options.rateLimitMaxRequests

/-- A code is only sent, below the limit, under an address that no other spelling resolves to. -/
def CodesUnderOnlySpelling (options : PasswordlessOptions) (findByEmail : String → Option Guid)
    (calls : List TimedSend) : Prop :=
  ∀ front c, front ++ [c] <+: calls → c.send.channel = .otp → 0 < options.otpTtl →
    (((emails front).count c.email : Nat) : Int) < options.rateLimitMaxRequests →
    ∀ userId spelling, findByEmail c.email = some userId → findByEmail spelling = some userId →
      spelling = c.email

theorem bounded_iff {s : PasswordlessState} (hs : WindowStart s start) {calls : List TimedSend}
    (hcalls : WithinWindow options start calls) :
    Bounded options findByEmail s calls ↔ OneSpellingOrFew options findByEmail calls := by
  refine forall_congr' fun userId => ?_
  have hpos : ∀ email ∈ spellings findByEmail userId calls, 0 < (emails calls).count email := by
    intro email hemail
    obtain ⟨⟨c, hc, rfl⟩, -⟩ := mem_spellings.mp hemail
    exact List.count_pos_iff.mpr (List.mem_map.mpr ⟨c, hc, rfl⟩)
  have hone : (∀ a ∈ spellings findByEmail userId calls,
      ∀ b ∈ spellings findByEmail userId calls, a = b) ↔
      ∀ c ∈ calls, ∀ c' ∈ calls, findByEmail c.email = some userId →
        findByEmail c'.email = some userId → c.email = c'.email := by
    constructor
    · intro h c hc c' hc' hfind hfind'
      exact h _ (mem_spellings.mpr ⟨⟨c, hc, rfl⟩, hfind⟩) _
        (mem_spellings.mpr ⟨⟨c', hc', rfl⟩, hfind'⟩)
    · intro h a ha b hb
      obtain ⟨⟨c, hc, rfl⟩, hfind⟩ := mem_spellings.mp ha
      obtain ⟨⟨c', hc', rfl⟩, hfind'⟩ := mem_spellings.mp hb
      exact h c hc c' hc' hfind hfind'
  rw [mailsTo_performSends hs hcalls, Nat.add_le_add_iff_left, sum_min_le_iff hpos, hone,
    sum_spellings]
  by_cases hzero : options.rateLimitMaxRequests ≤ 0
  · exact iff_of_true (.inl (Int.toNat_of_nonpos hzero)) (.inl hzero)
  · exact or_congr (by omega) (or_congr Iff.rfl (by omega))

theorem padLeft_ne_empty (value : Nat) : padLeft 6 value ≠ "" := by
  intro h
  have hlength := congrArg (fun text => text.toList.length) h
  simp only [padLeft, String.toList_ofList, List.length_append, List.length_replicate,
    String.toList_empty, List.length_nil] at hlength
  omega

theorem readOtp_of_stringGet {redis : PasswordlessRedis} {now : Int} {email : String}
    {stored : StoredText} (h : redis.stringGet now (.otp email) = some stored)
    (hne : stored.text ≠ "") :
    readOtp redis now email stored.text = .ok ⟨.otp email, stored, email⟩ := by
  rw [readOtp, h]
  dsimp only
  rw [if_neg hne, if_pos rfl]

/-- What a code that was sent leaves in Redis. -/
theorem perform_otp {front : List TimedSend} {s : PasswordlessState}
    (h : Sent options start front s) {c : TimedSend} (hstart : start ≤ c.at_)
    (hend : c.at_ < start + options.rateLimitWindow) (hotp : c.send.channel = .otp)
    {userId : Guid} (hfind : findByEmail c.email = some userId) :
    ((c.perform options findByEmail s).1 = none ↔
      (emails front).count c.email < options.rateLimitMaxRequests.toNat) ∧
    ((c.perform options findByEmail s).1 = none → ∀ key,
      (c.perform options findByEmail s).2.redis.strings key =
        if key = .otp c.email then some ⟨⟨c.code, s.serial⟩, some (c.at_ + options.otpTtl)⟩
        else s.redis.strings key) := by
  obtain ⟨redis, wait, hstrings, -, hperform⟩ := h.counted.perform hstart hend
  have hunder : (c.Accepted options fun email => (emails front).count email) ↔
      (emails front).count c.email < options.rateLimitMaxRequests.toNat := accepted_iff
  rw [hperform]
  by_cases haccepted : c.Accepted options fun email => (emails front).count email
  · rw [if_pos haccepted]
    refine ⟨iff_of_true rfl (hunder.mp haccepted), fun _ key => ?_⟩
    rw [hfind]
    show (c.send.store options c.draw redis c.at_ s.serial).strings key = _
    unfold PasswordlessSend.store PasswordlessSend.entry
    rw [hotp]
    show redis.strings.put (.otp c.email) ⟨c.code, s.serial⟩ (some (c.at_ + options.otpTtl)) key = _
    by_cases hkey : key = .otp c.email
    · rw [if_pos hkey, hkey]
      exact ExpiringMap.put_self _ _ _ _
    · rw [if_neg hkey, ← hstrings]
      exact ExpiringMap.put_of_ne _ _ _ hkey
  · rw [if_neg haccepted]
    exact ⟨iff_of_false (Option.some_ne_none _) (mt hunder.mpr haccepted),
      fun h => absurd h (Option.some_ne_none _)⟩

theorem foundUnderEverySpelling_iff {s : PasswordlessState} (hs : WindowStart s start)
    {calls : List TimedSend} (hcalls : WithinWindow options start calls) :
    FoundUnderEverySpelling options findByEmail s calls ↔
      CodesUnderOnlySpelling options findByEmail calls := by
  constructor
  · intro h front c hpre hotp httl hcount userId spelling hfind hspelling
    have hmem : c ∈ calls := hpre.subset (List.mem_append_right _ (List.mem_singleton.mpr rfl))
    obtain ⟨hstart, hend⟩ := hcalls c hmem
    have hsent : Sent options start front (performSends options findByEmail s front) :=
      sent_performSends hs (hcalls.front ((List.prefix_append _ _).trans hpre))
    obtain ⟨haccepted, hstored⟩ := perform_otp hsent hstart hend hotp hfind
    have hnone := haccepted.mpr (by omega)
    have hread := h front c hpre hotp hnone userId spelling hfind hspelling c.at_ le_rfl
      (by omega)
    -- the entry read has the number of this send, which only its own key holds
    obtain ⟨entry, hentry, -, hvalue⟩ := ExpiringMap.lookup_eq_some_iff.mp
      (stringGet_of_readOtp hread)
    rw [performSends_concat, hstored hnone] at hentry
    by_contra hne
    rw [if_neg fun hkey => hne (PasswordlessKey.otp.inj hkey)] at hentry
    have hlt := hsent.stored_lt _ entry hentry
    rw [hvalue] at hlt
    exact absurd hlt (Nat.lt_irrefl _)
  · intro h front c hpre hotp hnone userId spelling hfind hspelling now hfrom huntil
    have hmem : c ∈ calls := hpre.subset (List.mem_append_right _ (List.mem_singleton.mpr rfl))
    obtain ⟨hstart, hend⟩ := hcalls c hmem
    have hsent : Sent options start front (performSends options findByEmail s front) :=
      sent_performSends hs (hcalls.front ((List.prefix_append _ _).trans hpre))
    obtain ⟨haccepted, hstored⟩ := perform_otp hsent hstart hend hotp hfind
    have hcount := haccepted.mp hnone
    have hsame := h front c hpre hotp (by omega) (by omega) userId spelling hfind hspelling
    subst hsame
    have hget : (performSends options findByEmail s (front ++ [c])).redis.stringGet now
        (.otp c.email) = some ⟨c.code, (performSends options findByEmail s front).serial⟩ := by
      refine ExpiringMap.lookup_eq_some_iff.mpr
        ⟨⟨⟨c.code, (performSends options findByEmail s front).serial⟩,
          some (c.at_ + options.otpTtl)⟩, ?_, decide_eq_true huntil, rfl⟩
      rw [performSends_concat, hstored hnone, if_pos rfl]
    have hcode : c.code ≠ "" := padLeft_ne_empty c.draw.code
    have hread := readOtp_of_stringGet hget hcode
    exact hread

/-- Within a window the limit holds for every user, and every code is found under all addresses of
its user, exactly when spellings do not come into it. -/
theorem sends_keep_promises_iff {s : PasswordlessState} (hs : WindowStart s start)
    {calls : List TimedSend} (hcalls : WithinWindow options start calls) :
    (Bounded options findByEmail s calls ∧
        FoundUnderEverySpelling options findByEmail s calls) ↔
      OneSpellingOrFew options findByEmail calls ∧
        CodesUnderOnlySpelling options findByEmail calls := by
  rw [bounded_iff hs hcalls, foundUnderEverySpelling_iff hs hcalls]

/-- `FindByEmailAsync` where Ann is the only user. -/
def findAnn (email : String) : Option Guid :=
  let store : IdentityStore := { users := [ann], logins := [], memberships := [], settings := [] }
  (store.findByEmail samplePlatform email).map (·.id)

/-- Three codes under one spelling of Ann's address and a fourth under another. -/
def fourCodes : List TimedSend :=
  let draw : CredentialDraw := ⟨"raw", "CfDJ8raw", 4711⟩
  [⟨⟨.otp, "ann@example.com"⟩, draw, 0⟩, ⟨⟨.otp, "ann@example.com"⟩, draw, 0⟩,
    ⟨⟨.otp, "ann@example.com"⟩, draw, 0⟩, ⟨⟨.otp, "Ann@example.com"⟩, draw, 0⟩]

theorem sends_keep_promises_iff_fourCodes :
    (Bounded {} findAnn .initial fourCodes ∧
        FoundUnderEverySpelling {} findAnn .initial fourCodes) ↔
      OneSpellingOrFew {} findAnn fourCodes ∧ CodesUnderOnlySpelling {} findAnn fourCodes := by
  have hcalls : WithinWindow {} 0 fourCodes := by
    unfold WithinWindow
    decide +kernel
  exact sends_keep_promises_iff (windowStart_initial 0) hcalls

/-- A second spelling has a window of its own, and does not find the code. -/
theorem spelling_escapes_limit : ¬Bounded {} findAnn .initial fourCodes ∧
    ¬FoundUnderEverySpelling {} findAnn .initial fourCodes := by
  constructor
  · intro h
    have hfour : ¬(performSends {} findAnn .initial fourCodes).mailsTo 1 ≤
        PasswordlessState.initial.mailsTo 1 +
          ({} : PasswordlessOptions).rateLimitMaxRequests.toNat := by decide +kernel
    exact hfour (h 1)
  · intro h
    have hread := h [] ⟨⟨.otp, "ann@example.com"⟩, ⟨"raw", "CfDJ8raw", 4711⟩, 0⟩
      ⟨_, rfl⟩ rfl (by decide +kernel) 1 "Ann@example.com" (by decide +kernel)
      (by decide +kernel) 0 (by decide +kernel) (by decide +kernel)
    have hmissing : (readOtp (performSends {} findAnn .initial
        ([] ++ [⟨⟨.otp, "ann@example.com"⟩, ⟨"raw", "CfDJ8raw", 4711⟩, 0⟩])).redis 0
        "Ann@example.com" "004711").toOption = none := by decide +kernel
    have hcode : (⟨⟨.otp, "ann@example.com"⟩, ⟨"raw", "CfDJ8raw", 4711⟩, 0⟩ : TimedSend).code =
        "004711" := by decide +kernel
    rw [hcode] at hread
    rw [hread] at hmissing
    cases hmissing

end Window

end Wallow.Identity
