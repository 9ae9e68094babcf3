import Mathlib.Algebra.Order.Monoid.Defs
import Mathlib.Algebra.Order.Group.Int
import Mathlib.Data.List.Nodup

/-!
# The rate limiter of the ingest route

`createRateLimiter` of `rate-limit.ts`: fixed windows in a map that keeps the order in which its
keys were inserted, and a bound on how many it holds.
-/

namespace Wallow.Logger

variable {κ τ : Type}

structure RateLimitOptions (τ : Type) where
  limit : Nat
  windowMs : τ
  maxTrackedKeys : Nat

structure Window (τ : Type) where
  count : Nat
  resetAt : τ
  deriving DecidableEq

namespace RateLimit

/-- The windows in the order of the map. -/
abbrev Windows (κ τ : Type) := List (κ × Window τ)

/-- A call of `allow`. -/
structure Call (κ τ : Type) where
  key : κ
  now : τ
  deriving DecidableEq

section

variable [DecidableEq κ]

def get (windows : Windows κ τ) (key : κ) : Option (Window τ) :=
  (windows.find? (·.1 = key)).map (·.2)

/-- A key that is there keeps its place. -/
def set (key : κ) (window : Window τ) : Windows κ τ → Windows κ τ
  | [] => [(key, window)]
  | e :: rest => if e.1 = key then (key, window) :: rest else e :: set key window rest

end

/-- The earliest inserted keys go until another one fits. -/
def evict (maxTrackedKeys : Nat) : Windows κ τ → Windows κ τ
  | [] => []
  | e :: rest =>
    if maxTrackedKeys ≤ (e :: rest).length then evict maxTrackedKeys rest else e :: rest

section

variable [DecidableEq κ] [LinearOrder τ] [AddCommMonoid τ]

def makeRoom (windows : Windows κ τ) (now : τ) (maxTrackedKeys : Nat) : Windows κ τ :=
  evict maxTrackedKeys (windows.filter fun e => !decide (e.2.resetAt ≤ now))

/-- The windows to which a new one is added. -/
def room (options : RateLimitOptions τ) (windows : Windows κ τ) (now : τ) : Windows κ τ :=
  if options.maxTrackedKeys ≤ windows.length then
    makeRoom windows now options.maxTrackedKeys
  else windows

/-- The window of the key, unless there is none or it has expired. -/
def current (windows : Windows κ τ) (call : Call κ τ) : Option (Window τ) :=
  (get windows call.key).filter fun window => !decide (window.resetAt ≤ call.now)

def allow (options : RateLimitOptions τ) (windows : Windows κ τ) (call : Call κ τ) :
    Bool × Windows κ τ :=
  match current windows call with
  | none =>
    (true, set call.key ⟨1, call.now + options.windowMs⟩ (room options windows call.now))
  | some window =>
    if options.limit ≤ window.count then (false, windows)
    else (true, set call.key { window with count := window.count + 1 } windows)

/-- The windows after calls that were made one after the other. -/
def after (options : RateLimitOptions τ) (windows : Windows κ τ) (calls : List (Call κ τ)) :
    Windows κ τ :=
  calls.foldl (fun windows call => (allow options windows call).2) windows

/-- How many calls of a key are allowed. -/
def allowed (options : RateLimitOptions τ) (key : κ) : Windows κ τ → List (Call κ τ) → Nat
  | _, [] => 0
  | windows, call :: calls =>
    let (answer, windows) := allow options windows call
    (if call.key = key ∧ answer = true then 1 else 0) + allowed options key windows calls

/-- The keys with a window that has not expired, that of the caller among them, are no more than
may be tracked. -/
def Fits (options : RateLimitOptions τ) (windows : Windows κ τ) (call : Call κ τ) : Prop :=
  (windows.filter fun e => !decide (e.2.resetAt ≤ call.now) && !decide (e.1 = call.key)).length <
    options.maxTrackedKeys

instance (options : RateLimitOptions τ) (windows : Windows κ τ) (call : Call κ τ) :
    Decidable (Fits options windows call) :=
  Nat.decLt _ _

/-- That is so at each of the calls. -/
def FitsAll (options : RateLimitOptions τ) : Windows κ τ → List (Call κ τ) → Prop
  | _, [] => True
  | windows, call :: calls =>
    Fits options windows call ∧ FitsAll options (allow options windows call).2 calls

/-- The keys with the times at which they came into the map, in its order.  A key that is given a
new window in its place came in earlier. -/
def place (options : RateLimitOptions τ) (windows : Windows κ τ) (placed : List (κ × τ))
    (call : Call κ τ) : List (κ × τ) :=
  match current windows call with
  | none =>
    let keys := (room options windows call.now).map (·.1)
    placed.filter (fun p => p.1 ∈ keys) ++ if call.key ∈ keys then [] else [(call.key, call.now)]
  | some _ => placed

def placedAfter (options : RateLimitOptions τ) :
    Windows κ τ → List (κ × τ) → List (Call κ τ) → List (κ × τ)
  | _, placed, [] => placed
  | windows, placed, call :: calls =>
    placedAfter options (allow options windows call).2 (place options windows placed call) calls

end

/-- Options that are positive. -/
structure Positive [LinearOrder τ] [AddCommMonoid τ] (options : RateLimitOptions τ) : Prop where
  limit : 0 < options.limit
  windowMs : 0 < options.windowMs
  maxTrackedKeys : 0 < options.maxTrackedKeys

/-! ## The map -/

variable {windows : Windows κ τ} {key : κ} {window : Window τ} {e : κ × Window τ}

/-- Keys are not there twice. -/
def Distinct (windows : Windows κ τ) : Prop := (windows.map (·.1)).Nodup

theorem Distinct.eq (h : Distinct windows) {d : κ × Window τ} (he : e ∈ windows)
    (hd : d ∈ windows) (hkey : e.1 = d.1) : e = d :=
  List.inj_on_of_nodup_map h he hd hkey

theorem evict_suffix (maxTrackedKeys : Nat) (windows : Windows κ τ) :
    evict maxTrackedKeys windows <:+ windows := by
  induction windows with
  | nil => exact List.suffix_refl []
  | cons e rest ih =>
    rw [evict]
    split
    · exact ih.trans (List.suffix_cons e rest)
    · exact List.suffix_refl _

theorem evict_length_lt {maxTrackedKeys : Nat} (hpos : 0 < maxTrackedKeys)
    (windows : Windows κ τ) : (evict maxTrackedKeys windows).length < maxTrackedKeys := by
  induction windows with
  | nil => exact hpos
  | cons e rest ih =>
    rw [evict]
    split
    · exact ih
    · rename_i hfits
      exact Nat.lt_of_not_le hfits

theorem evict_of_lt {maxTrackedKeys : Nat} (h : windows.length < maxTrackedKeys) :
    evict maxTrackedKeys windows = windows := by
  cases windows with
  | nil => rfl
  | cons e rest => rw [evict, if_neg (by omega)]

variable [DecidableEq κ]

theorem get_eq_some (h : Distinct windows) : get windows key = some window ↔
    (key, window) ∈ windows := by
  rw [get, Option.map_eq_some_iff]
  constructor
  · intro hfound
    have ⟨e, he, hwindow⟩ := hfound
    have hkey : e.1 = key := by simpa using List.find?_some he
    rw [← hkey, ← hwindow]
    exact List.mem_of_find?_eq_some he
  · intro hin
    cases hfound : windows.find? (·.1 = key) with
    | none =>
      have hnot := List.find?_eq_none.mp hfound (key, window) hin
      exact absurd (decide_eq_true rfl) hnot
    | some e =>
      have hkey : e.1 = key := by simpa using List.find?_some hfound
      have heq := h.eq (List.mem_of_find?_eq_some hfound) hin hkey
      exact ⟨e, rfl, by rw [heq]⟩

theorem mem_set (he : e ∈ set key window windows) : e = (key, window) ∨ e ∈ windows := by
  induction windows with
  | nil => exact Or.inl (List.mem_singleton.mp he)
  | cons d rest ih =>
    rw [set] at he
    split at he
    · cases List.mem_cons.mp he with
      | inl heq => exact Or.inl heq
      | inr hin => exact Or.inr (List.mem_cons_of_mem d hin)
    · cases List.mem_cons.mp he with
      | inl heq => exact Or.inr (heq ▸ List.mem_cons_self)
      | inr hin => exact (ih hin).imp_right (List.mem_cons_of_mem d)

theorem mem_set_self (key : κ) (window : Window τ) (windows : Windows κ τ) :
    (key, window) ∈ set key window windows := by
  induction windows with
  | nil => exact List.mem_cons_self
  | cons d rest ih =>
    rw [set]
    split
    · exact List.mem_cons_self
    · exact List.mem_cons_of_mem d ih

theorem mem_set_of_ne (he : e ∈ windows) (hne : e.1 ≠ key) : e ∈ set key window windows := by
  induction windows with
  | nil => exact absurd he List.not_mem_nil
  | cons d rest ih =>
    rw [set]
    split
    · rename_i hkey
      cases List.mem_cons.mp he with
      | inl heq => exact absurd (heq ▸ hkey) hne
      | inr hin => exact List.mem_cons_of_mem _ hin
    · cases List.mem_cons.mp he with
      | inl heq => exact heq ▸ List.mem_cons_self
      | inr hin => exact List.mem_cons_of_mem d (ih hin)

/-- The keys, in their order. -/
theorem set_keys (key : κ) (window : Window τ) (windows : Windows κ τ) :
    (set key window windows).map (·.1) =
      windows.map (·.1) ++ (if key ∈ windows.map (·.1) then [] else [key]) := by
  induction windows with
  | nil => rfl
  | cons d rest ih =>
    rw [set]
    split
    · rename_i hkey
      rw [List.map_cons, List.map_cons, hkey, if_pos List.mem_cons_self, List.append_nil]
    · rename_i hkey
      rw [List.map_cons, List.map_cons, ih, List.cons_append]
      have hmem : key ∈ d.1 :: rest.map (·.1) ↔ key ∈ rest.map (·.1) := by
        rw [List.mem_cons]
        exact or_iff_right fun heq => hkey heq.symm
      rw [if_congr hmem rfl rfl]

theorem Distinct.set (h : Distinct windows) : Distinct (set key window windows) := by
  rw [Distinct, set_keys]
  split
  · rw [List.append_nil]
    exact h
  · rename_i hnew
    exact List.nodup_append.mpr ⟨h, List.nodup_singleton key, fun a ha b hb heq =>
      hnew (List.mem_singleton.mp hb ▸ heq ▸ ha)⟩

theorem set_of_not_mem (h : key ∉ windows.map (·.1)) :
    set key window windows = windows ++ [(key, window)] := by
  induction windows with
  | nil => rfl
  | cons d rest ih =>
    rw [List.map_cons, List.mem_cons, not_or] at h
    rw [set, if_neg fun heq => h.1 heq.symm, ih h.2]
    rfl

theorem length_set_le (key : κ) (window : Window τ) (windows : Windows κ τ) :
    (set key window windows).length ≤ windows.length + 1 := by
  have hkeys := congrArg List.length (set_keys key window windows)
  rw [List.length_map, List.length_append, List.length_map] at hkeys
  split at hkeys
  · rw [List.length_nil] at hkeys
    omega
  · rw [List.length_singleton] at hkeys
    omega

theorem length_set_of_mem (h : (key, window) ∈ windows) {window' : Window τ} :
    (set key window' windows).length = windows.length := by
  have hkeys := congrArg List.length (set_keys key window' windows)
  rw [List.length_map, List.length_append, List.length_map,
    if_pos (List.mem_map_of_mem (f := (·.1)) h), List.length_nil] at hkeys
  exact hkeys

/-! ## What a call does -/

/-- The keys are distinct and no more than may be tracked. -/
structure Kept (options : RateLimitOptions τ) (windows : Windows κ τ) : Prop where
  distinct : Distinct windows
  bounded : windows.length ≤ options.maxTrackedKeys

variable [LinearOrder τ] {options : RateLimitOptions τ} {call : Call κ τ}

omit [DecidableEq κ] in
theorem makeRoom_sublist (windows : Windows κ τ) (now : τ) (maxTrackedKeys : Nat) :
    (makeRoom windows now maxTrackedKeys).Sublist windows :=
  (evict_suffix _ _).sublist.trans List.filter_sublist

omit [DecidableEq κ] in
theorem room_sublist (options : RateLimitOptions τ) (windows : Windows κ τ) (now : τ) :
    (room options windows now).Sublist windows := by
  rw [room]
  split
  · exact makeRoom_sublist windows now options.maxTrackedKeys
  · exact List.Sublist.refl windows

theorem current_eq_some (h : Distinct windows) : current windows call = some window ↔
    (call.key, window) ∈ windows ∧ call.now < window.resetAt := by
  rw [current, Option.filter_eq_some_iff, get_eq_some h, Bool.not_eq_true', decide_eq_false_iff_not,
    not_le]

theorem current_eq_none (h : Distinct windows) (hnone : current windows call = none)
    (he : e ∈ windows) (hlive : call.now < e.2.resetAt) : e.1 ≠ call.key := by
  intro hkey
  have hsome : current windows call = some e.2 := (current_eq_some h).mpr ⟨hkey ▸ he, hlive⟩
  rw [hsome] at hnone
  cases hnone

omit [DecidableEq κ] in
theorem room_length_lt [AddCommMonoid τ] (h : Positive options) (windows : Windows κ τ) (now : τ) :
    (room options windows now).length < options.maxTrackedKeys := by
  rw [room]
  split
  · exact evict_length_lt h.maxTrackedKeys _
  · rename_i hfits
    exact Nat.lt_of_not_le hfits

variable [AddCommMonoid τ]

theorem allow_of_none (hnone : current windows call = none) : allow options windows call =
    (true, set call.key ⟨1, call.now + options.windowMs⟩ (room options windows call.now)) := by
  rw [allow, hnone]

theorem allow_of_some (hsome : current windows call = some window) :
    allow options windows call = if options.limit ≤ window.count then (false, windows)
      else (true, set call.key { window with count := window.count + 1 } windows) := by
  rw [allow, hsome]

theorem Kept.allow (h : Positive options) (hkept : Kept options windows) (call : Call κ τ) :
    Kept options (allow options windows call).2 := by
  cases hcurrent : current windows call with
  | none =>
    rw [allow_of_none hcurrent]
    have hsub := room_sublist options windows call.now
    have hdistinct : Distinct (room options windows call.now) :=
      hkept.distinct.sublist (hsub.map (·.1))
    have hlt := room_length_lt h windows call.now
    have hle := length_set_le call.key ⟨1, call.now + options.windowMs⟩
      (room options windows call.now)
    exact ⟨hdistinct.set, hle.trans hlt⟩
  | some window =>
    rw [allow_of_some hcurrent]
    split
    · exact hkept
    · have hin := ((current_eq_some hkept.distinct).mp hcurrent).1
      exact ⟨hkept.distinct.set, (length_set_of_mem hin).symm ▸ hkept.bounded⟩

theorem kept_after (h : Positive options) {calls : List (Call κ τ)}
    (hkept : Kept options windows) : Kept options (after options windows calls) := by
  induction calls generalizing windows with
  | nil => exact hkept
  | cons call calls ih => exact ih (hkept.allow h call)

/-! ## While the keys fit -/

omit [AddCommMonoid τ] in
/-- Where a window is started and the keys fit, all windows that have not expired find room. -/
theorem mem_room (hdistinct : Distinct windows) (hfits : Fits options windows call)
    (hnone : current windows call = none) (he : e ∈ windows) (hlive : call.now < e.2.resetAt) :
    e ∈ room options windows call.now := by
  rw [room]
  split
  · have hothers : (windows.filter fun e => !decide (e.2.resetAt ≤ call.now)) =
        windows.filter fun e =>
          !decide (e.2.resetAt ≤ call.now) && !decide (e.1 = call.key) := by
      apply List.filter_congr
      intro d hd
      by_cases hexpired : d.2.resetAt ≤ call.now
      · rw [decide_eq_true hexpired]
        rfl
      · rw [decide_eq_false (current_eq_none hdistinct hnone hd (not_le.mp hexpired)),
          Bool.not_false, Bool.and_true]
    rw [makeRoom, hothers, evict_of_lt hfits, ← hothers, List.mem_filter]
    exact ⟨he, by rw [decide_eq_false (not_le.mpr hlive)]; rfl⟩
  · exact he

/-- The window of another key stays as it is. -/
theorem mem_allow_of_ne (hdistinct : Distinct windows) (hfits : Fits options windows call)
    (he : e ∈ windows) (hlive : call.now < e.2.resetAt) (hne : e.1 ≠ call.key) :
    e ∈ (allow options windows call).2 := by
  cases hcurrent : current windows call with
  | none =>
    rw [allow_of_none hcurrent]
    exact mem_set_of_ne (mem_room hdistinct hfits hcurrent he hlive) hne
  | some window =>
    rw [allow_of_some hcurrent]
    split
    · exact he
    · exact mem_set_of_ne he hne

/-- The window of the caller takes its call up to the limit. -/
theorem mem_allow_of_eq (hdistinct : Distinct windows) (hin : (call.key, window) ∈ windows)
    (hlive : call.now < window.resetAt) (hcount : window.count ≤ options.limit) :
    (call.key, ⟨min options.limit (window.count + 1), window.resetAt⟩) ∈
        (allow options windows call).2 ∧
      ((allow options windows call).1 = true ↔ window.count < options.limit) := by
  have hcurrent : current windows call = some window :=
    (current_eq_some hdistinct).mpr ⟨hin, hlive⟩
  rw [allow_of_some hcurrent]
  split
  · rename_i hfull
    have hmin : min options.limit (window.count + 1) = window.count := by omega
    rw [hmin]
    exact ⟨hin, iff_of_false Bool.false_ne_true (by omega)⟩
  · rename_i hroom
    have hmin : min options.limit (window.count + 1) = window.count + 1 := by omega
    rw [hmin]
    exact ⟨mem_set_self _ _ _, iff_of_true rfl (by omega)⟩

/-- In the window of a key, what is left of its limit is allowed. -/
theorem allowed_of_mem (h : Positive options) {calls : List (Call κ τ)}
    (hkept : Kept options windows) (hin : (key, window) ∈ windows)
    (hcount : window.count ≤ options.limit) (hfits : FitsAll options windows calls)
    (hlive : ∀ call ∈ calls, call.now < window.resetAt) :
    allowed options key windows calls =
      min (options.limit - window.count) (calls.countP fun call => call.key = key) := by
  induction calls generalizing windows window with
  | nil => exact (Nat.min_zero _).symm
  | cons call calls ih =>
    have hnow := hlive call List.mem_cons_self
    have hlater : ∀ call ∈ calls, call.now < window.resetAt := fun later hmem =>
      hlive later (List.mem_cons_of_mem call hmem)
    rw [allowed, List.countP_cons]
    by_cases hkey : call.key = key
    · subst hkey
      have ⟨hstep, hanswer⟩ := mem_allow_of_eq hkept.distinct hin hnow hcount
      have hrest := ih (hkept.allow h call) hstep (Nat.min_le_left _ _) hfits.2 hlater
      show (if call.key = call.key ∧ (allow options windows call).1 = true then 1 else 0) +
        allowed options call.key (allow options windows call).2 calls = _
      rw [hrest, decide_eq_true rfl, if_pos rfl]
      show _ + min (options.limit - min options.limit (window.count + 1)) _ = _
      by_cases hleft : window.count < options.limit
      · rw [if_pos ⟨rfl, hanswer.mpr hleft⟩]
        omega
      · rw [if_neg fun hboth => hleft (hanswer.mp hboth.2)]
        omega
    · have hstep := mem_allow_of_ne hkept.distinct hfits.1 hin hnow fun heq => hkey heq.symm
      have hrest := ih (hkept.allow h call) hstep hcount hfits.2 hlater
      show (if call.key = key ∧ (allow options windows call).1 = true then 1 else 0) +
        allowed options key (allow options windows call).2 calls = _
      rw [hrest, if_neg fun hboth => hkey hboth.1, decide_eq_false hkey]
      show 0 + min _ _ = min _ (_ + 0)
      omega

/-- Where the keys fit, no window goes before it has expired. -/
theorem live_stays (hdistinct : Distinct windows) (hfits : Fits options windows call)
    (he : e ∈ windows) (hlive : call.now < e.2.resetAt) :
    ∃ count, (e.1, ⟨count, e.2.resetAt⟩) ∈ (allow options windows call).2 := by
  by_cases hkey : e.1 = call.key
  · have hin : (call.key, e.2) ∈ windows := hkey ▸ he
    rw [allow_of_some ((current_eq_some hdistinct).mpr ⟨hin, hlive⟩), hkey]
    split
    · exact ⟨e.2.count, hin⟩
    · exact ⟨e.2.count + 1, mem_set_self _ _ _⟩
  · exact ⟨e.2.count, mem_allow_of_ne hdistinct hfits he hlive hkey⟩

/-- From the call that starts a window, the limit is allowed and no more. -/
theorem allowed_of_start (h : Positive options) (hkept : Kept options windows)
    (hnone : current windows call = none) {later : List (Call κ τ)}
    (hfits : FitsAll options windows (call :: later))
    (hlater : ∀ next ∈ later, next.now < call.now + options.windowMs) :
    allowed options call.key windows (call :: later) =
      min options.limit ((call :: later).countP fun next => next.key = call.key) := by
  have hlimit := h.limit
  have hin : (call.key, ⟨1, call.now + options.windowMs⟩) ∈ (allow options windows call).2 := by
    rw [allow_of_none hnone]
    exact mem_set_self _ _ _
  have hrest := allowed_of_mem h (hkept.allow h call) hin hlimit hfits.2 hlater
  show (if call.key = call.key ∧ (allow options windows call).1 = true then 1 else 0) +
    allowed options call.key (allow options windows call).2 later = _
  rw [hrest, allow_of_none hnone, if_pos ⟨rfl, rfl⟩, List.countP_cons, if_pos (decide_eq_true rfl)]
  show 1 + min (options.limit - 1) _ = _
  omega

/-! ## When a window has to go -/

/-- Where the keys do not fit, the first window goes and no other one. -/
theorem allow_of_full (h : Positive options) (hkept : Kept options windows)
    (hfull : ¬Fits options windows call) :
    (∀ e ∈ windows, call.now < e.2.resetAt ∧ e.1 ≠ call.key) ∧
      ∃ e rest, windows = e :: rest ∧ allow options windows call =
        (true, rest ++ [(call.key, ⟨1, call.now + options.windowMs⟩)]) := by
  have hle := List.length_filter_le
    (fun e => !decide (e.2.resetAt ≤ call.now) && !decide (e.1 = call.key)) windows
  have hmany : options.maxTrackedKeys ≤ (windows.filter fun e =>
    !decide (e.2.resetAt ≤ call.now) && !decide (e.1 = call.key)).length := Nat.le_of_not_lt hfull
  have hbounded := hkept.bounded
  have hlength : windows.length = options.maxTrackedKeys := by omega
  have hall := List.length_filter_eq_length_iff.mp (Nat.le_antisymm hle (by omega))
  have hothers : ∀ e ∈ windows, call.now < e.2.resetAt ∧ e.1 ≠ call.key := by
    intro e he
    have hboth := hall e he
    rw [Bool.and_eq_true, Bool.not_eq_true', Bool.not_eq_true', decide_eq_false_iff_not,
      decide_eq_false_iff_not, not_le] at hboth
    exact hboth
  have hnone : current windows call = none := by
    cases hcurrent : current windows call with
    | none => rfl
    | some window =>
      have hin := ((current_eq_some hkept.distinct).mp hcurrent).1
      exact absurd rfl (hothers _ hin).2
  have hlive : (windows.filter fun e => !decide (e.2.resetAt ≤ call.now)) = windows := by
    apply List.filter_eq_self.mpr
    intro e he
    rw [decide_eq_false (not_le.mpr (hothers e he).1)]
    rfl
  have hroom : room options windows call.now = evict options.maxTrackedKeys windows := by
    rw [room, if_pos hlength.ge, makeRoom, hlive]
  apply And.intro hothers
  cases windows with
  | nil =>
    have hpos := h.maxTrackedKeys
    rw [List.length_nil] at hlength
    omega
  | cons e rest =>
    rw [List.length_cons] at hlength
    have hnew : call.key ∉ rest.map (·.1) := by
      intro hmem
      have ⟨d, hd, hkey⟩ := List.mem_map.mp hmem
      exact (hothers d (List.mem_cons_of_mem e hd)).2 hkey
    have hrest : evict options.maxTrackedKeys (e :: rest) = rest := by
      rw [evict, if_pos (by rw [List.length_cons]; omega), evict_of_lt (by omega)]
    exact ⟨e, rest, rfl, by rw [allow_of_none hnone, hroom, hrest, set_of_not_mem hnew]⟩

/-! ## When the keys came in -/

/-- The keys came in one after the other, and no window was started before its key came in. -/
structure Placed (options : RateLimitOptions τ) (windows : Windows κ τ) (placed : List (κ × τ))
    (now : τ) : Prop where
  keys : placed.map (·.1) = windows.map (·.1)
  inOrder : placed.Pairwise fun p q => p.2 ≤ q.2
  past : ∀ p ∈ placed, p.2 ≤ now
  started : ∀ e ∈ windows, ∀ p ∈ placed, p.1 = e.1 → p.2 + options.windowMs ≤ e.2.resetAt

omit [LinearOrder τ] [AddCommMonoid τ] in
theorem filter_mem_of_sublist {keys kept : List κ} (h : kept.Sublist keys) (hnodup : keys.Nodup) :
    keys.filter (· ∈ kept) = kept := by
  induction h with
  | slnil => rfl
  | @cons kept keys key hsub ih =>
    have hnew : key ∉ kept := fun hmem => (List.nodup_cons.mp hnodup).1 (hsub.subset hmem)
    rw [List.filter_cons_of_neg (by simpa using hnew), ih (List.nodup_cons.mp hnodup).2]
  | @cons_cons kept keys key hsub ih =>
    have hnew := (List.nodup_cons.mp hnodup).1
    have hrest : keys.filter (· ∈ key :: kept) = keys.filter (· ∈ kept) := by
      apply List.filter_congr
      intro other hother
      have hne : other ≠ key := fun heq => hnew (heq ▸ hother)
      rw [decide_eq_decide, List.mem_cons]
      exact or_iff_right hne
    have hfirst : decide (key ∈ key :: kept) = true := decide_eq_true List.mem_cons_self
    rw [List.filter_cons, if_pos hfirst, hrest, ih (List.nodup_cons.mp hnodup).2]

omit [DecidableEq κ] in
/-- Before the first call. -/
theorem placed_empty (options : RateLimitOptions τ) (now : τ) :
    Placed options ([] : Windows κ τ) [] now :=
  ⟨rfl, List.Pairwise.nil, fun _ hp => absurd hp List.not_mem_nil,
    fun _ he => absurd he List.not_mem_nil⟩

omit [DecidableEq κ] in
theorem Placed.later {placed : List (κ × τ)} {now now' : τ}
    (h : Placed options windows placed now) (hle : now ≤ now') :
    Placed options windows placed now' :=
  ⟨h.keys, h.inOrder, fun p hp => (h.past p hp).trans hle, h.started⟩

omit [AddCommMonoid τ] in
theorem place_of_none {placed : List (κ × τ)} (hnone : current windows call = none) :
    place options windows placed call =
      placed.filter (fun p => p.1 ∈ (room options windows call.now).map (·.1)) ++
        if call.key ∈ (room options windows call.now).map (·.1) then []
        else [(call.key, call.now)] := by
  rw [place, hnone]

omit [AddCommMonoid τ] in
theorem place_of_some {placed : List (κ × τ)} (hsome : current windows call = some window) :
    place options windows placed call = placed := by
  rw [place, hsome]

theorem place_keys {placed : List (κ × τ)} (hdistinct : Distinct windows)
    (hkeys : placed.map (·.1) = windows.map (·.1)) :
    (place options windows placed call).map (·.1) =
      (allow options windows call).2.map (·.1) := by
  cases hcurrent : current windows call with
  | none =>
    have hsub := (room_sublist options windows call.now).map (·.1)
    have hkept : (placed.filter fun p => p.1 ∈ (room options windows call.now).map (·.1)).map
        (·.1) = (room options windows call.now).map (·.1) := by
      have hcomm := List.filter_map (f := fun p : κ × τ => p.1)
        (p := fun key => decide (key ∈ (room options windows call.now).map (·.1))) (l := placed)
      rw [hkeys, filter_mem_of_sublist hsub hdistinct] at hcomm
      exact hcomm.symm
    rw [place_of_none hcurrent, allow_of_none hcurrent, set_keys, List.map_append, hkept]
    split <;> rfl
  | some window =>
    have hin := ((current_eq_some hdistinct).mp hcurrent).1
    rw [place_of_some hcurrent, allow_of_some hcurrent, hkeys]
    split
    · rfl
    · rw [set_keys, if_pos (List.mem_map_of_mem (f := (·.1)) hin), List.append_nil]

variable [IsOrderedAddMonoid τ]

theorem Placed.allow {placed : List (κ × τ)} {now : τ} (hdistinct : Distinct windows)
    (h : Placed options windows placed now) (hnow : now ≤ call.now) :
    Placed options (allow options windows call).2 (place options windows placed call)
      call.now := by
  have hkeys : (place options windows placed call).map (·.1) =
      (RateLimit.allow options windows call).2.map (·.1) := place_keys hdistinct h.keys
  cases hcurrent : current windows call with
  | none =>
    rw [place_of_none hcurrent] at hkeys ⊢
    have hsub : (placed.filter fun p =>
        p.1 ∈ (room options windows call.now).map (·.1)).Sublist placed := List.filter_sublist
    have hlast : ∀ q ∈ (if call.key ∈ (room options windows call.now).map (·.1) then []
        else [(call.key, call.now)]), q = (call.key, call.now) ∧
          call.key ∉ (room options windows call.now).map (·.1) := by
      intro q hq
      split at hq
      · exact absurd hq List.not_mem_nil
      · rename_i hnew
        exact ⟨List.mem_singleton.mp hq, hnew⟩
    constructor
    · exact hkeys
    · apply List.pairwise_append.mpr
      constructor
      · exact h.inOrder.sublist hsub
      · constructor
        · split
          · exact List.Pairwise.nil
          · exact List.pairwise_singleton _ _
        · intro p hp q hq
          rw [(hlast q hq).1]
          exact (h.past p (hsub.subset hp)).trans hnow
    · intro p hp
      cases List.mem_append.mp hp with
      | inl hold => exact (h.past p (hsub.subset hold)).trans hnow
      | inr hnew => rw [(hlast p hnew).1]
    · rw [allow_of_none hcurrent]
      intro e he p hp hkey
      cases List.mem_append.mp hp with
      | inl hold =>
        have hin := hsub.subset hold
        cases mem_set he with
        | inl heq =>
          rw [heq]
          exact add_le_add_left ((h.past p hin).trans hnow) options.windowMs
        | inr hroom => exact h.started e ((room_sublist _ _ _).subset hroom) p hin hkey
      | inr hnew =>
        have ⟨heq, habsent⟩ := hlast p hnew
        cases mem_set he with
        | inl hset => rw [hset, heq]
        | inr hroom =>
          rw [heq] at hkey
          have hmem : e.1 ∈ (room options windows call.now).map (·.1) := List.mem_map_of_mem hroom
          exact absurd (hkey.symm.subst hmem) habsent
  | some window =>
    rw [place_of_some hcurrent] at hkeys ⊢
    have hin := ((current_eq_some hdistinct).mp hcurrent).1
    constructor
    · exact hkeys
    · exact h.inOrder
    · exact fun p hp => (h.past p hp).trans hnow
    · intro e he p hp hkey
      rw [allow_of_some hcurrent] at he
      split at he
      · exact h.started e he p hp hkey
      · cases mem_set he with
        | inl heq =>
          rw [heq] at hkey ⊢
          exact h.started _ hin p hp hkey
        | inr hold => exact h.started e hold p hp hkey

/-! ## Calls one after the other -/

theorem placed_after (h : Positive options) {calls : List (Call κ τ)} {placed : List (κ × τ)}
    {now : τ} (hkept : Kept options windows) (hplaced : Placed options windows placed now)
    (hclock : (calls.map (·.now)).Pairwise (· ≤ ·)) (hpast : ∀ call ∈ calls, now ≤ call.now)
    {last : τ} (hnow : now ≤ last) (hlast : ∀ call ∈ calls, call.now ≤ last) :
    Placed options (after options windows calls) (placedAfter options windows placed calls)
      last := by
  induction calls generalizing windows placed now with
  | nil => exact hplaced.later hnow
  | cons call calls ih =>
    have hfirst := hpast call List.mem_cons_self
    have hsorted := List.pairwise_cons.mp hclock
    apply ih (hkept.allow h call) (hplaced.allow hkept.distinct hfirst) hsorted.2
    · intro later hlater
      exact hsorted.1 later.now (List.mem_map_of_mem hlater)
    · exact hlast call List.mem_cons_self
    · intro later hlater
      exact hlast later (List.mem_cons_of_mem call hlater)

theorem placed_after_empty (h : Positive options) {calls : List (Call κ τ)} {last : τ}
    (hclock : (calls.map (·.now)).Pairwise (· ≤ ·)) (hlast : ∀ call ∈ calls, call.now ≤ last) :
    Placed options (after options [] calls) (placedAfter options [] [] calls) last := by
  have hkept : Kept options ([] : Windows κ τ) := ⟨List.nodup_nil, Nat.zero_le _⟩
  cases calls with
  | nil => exact placed_empty options last
  | cons call calls =>
    have hsorted := List.pairwise_cons.mp hclock
    apply placed_after h hkept (placed_empty options call.now) hclock
    · intro later hlater
      cases List.mem_cons.mp hlater with
      | inl heq => rw [heq]
      | inr hin => exact hsorted.1 later.now (List.mem_map_of_mem hin)
    · exact hlast call List.mem_cons_self
    · exact hlast

omit [DecidableEq κ] in
/-- The key of the first window came in first, and its window ends first unless it was given a
new one since. -/
theorem Placed.first {rest : Windows κ τ} {placed : List (κ × τ)} {now : τ}
    (h : Placed options (e :: rest) placed now) :
    ∃ t others, placed = (e.1, t) :: others ∧ (∀ p ∈ others, t ≤ p.2) ∧
      (e.2.resetAt = t + options.windowMs → ∀ d ∈ rest, e.2.resetAt ≤ d.2.resetAt) := by
  have hkeys := h.keys
  cases placed with
  | nil => cases hkeys
  | cons p others =>
    rw [List.map_cons, List.map_cons, List.cons.injEq] at hkeys
    have hfirst := (List.pairwise_cons.mp h.inOrder).1
    have hp : p = (e.1, p.2) := by rw [← hkeys.1]
    apply Exists.intro p.2
    apply Exists.intro others
    constructor
    · rw [← hp]
    · constructor
      · exact hfirst
      · intro hreset d hd
        have hmem : d.1 ∈ others.map (·.1) := hkeys.2 ▸ List.mem_map_of_mem hd
        have ⟨q, hq, hkey⟩ := List.mem_map.mp hmem
        rw [hreset]
        exact (add_le_add_left (hfirst q hq) options.windowMs).trans
          (h.started d (List.mem_cons_of_mem e hd) q (List.mem_cons_of_mem p hq) hkey)

/-! ## The limiter -/

/-- Never more windows than may be tracked; while the keys fit no window goes before it has
expired, and in each window of a key its limit is allowed and no more.  Where they do not fit, the
window of the key that came in first goes, the one that ends first unless it was started again in
its place. -/
theorem allow_spec (options : RateLimitOptions τ) (h : Positive options)
    (calls : List (Call κ τ)) (call : Call κ τ)
    (hclock : ((calls ++ [call]).map (·.now)).Pairwise (· ≤ ·)) :
    (after options [] calls).length ≤ options.maxTrackedKeys ∧
      (Fits options (after options [] calls) call →
        ∀ e ∈ after options [] calls, call.now < e.2.resetAt →
          ∃ count, (e.1, ⟨count, e.2.resetAt⟩) ∈
            (allow options (after options [] calls) call).2) ∧
      (∀ later, current (after options [] calls) call = none →
        FitsAll options (after options [] calls) (call :: later) →
        (∀ next ∈ later, next.now < call.now + options.windowMs) →
        allowed options call.key (after options [] calls) (call :: later) =
          min options.limit ((call :: later).countP fun next => next.key = call.key)) ∧
      (¬Fits options (after options [] calls) call →
        (∀ e ∈ after options [] calls, call.now < e.2.resetAt ∧ e.1 ≠ call.key) ∧
          ∃ e rest, after options [] calls = e :: rest ∧
            allow options (after options [] calls) call =
              (true, rest ++ [(call.key, ⟨1, call.now + options.windowMs⟩)]) ∧
            ∃ t others, placedAfter options [] [] calls = (e.1, t) :: others ∧
              (∀ p ∈ others, t ≤ p.2) ∧
              (e.2.resetAt = t + options.windowMs → ∀ d ∈ rest, e.2.resetAt ≤ d.2.resetAt)) := by
  have hkept : Kept options (after options [] calls) :=
    kept_after h ⟨List.nodup_nil, Nat.zero_le _⟩
  rw [List.map_append, List.pairwise_append] at hclock
  have hplaced := placed_after_empty h hclock.1 fun earlier hin =>
    hclock.2.2 earlier.now (List.mem_map_of_mem hin) call.now List.mem_cons_self
  constructor
  · exact hkept.bounded
  · constructor
    · exact fun hfits e he hlive => live_stays hkept.distinct hfits he hlive
    · constructor
      · exact fun later hnone hfits hlater => allowed_of_start h hkept hnone hfits hlater
      · intro hfull
        have ⟨hlive, e, rest, hwindows, hallow⟩ := allow_of_full h hkept hfull
        rw [hwindows] at hplaced
        exact ⟨hlive, e, rest, hwindows, hallow, hplaced.first⟩

/-- Three keys, of which the first is given a new window in its place. -/
def renewedInPlace : List (Call String Int) :=
  [⟨"a", 0⟩, ⟨"b", 50⟩, ⟨"a", 60⟩, ⟨"c", 61⟩]

theorem allow_spec_of_three_keys : Positive (⟨2, 60, 3⟩ : RateLimitOptions Int) ∧
    (after ⟨2, 60, 3⟩ [] renewedInPlace).length ≤ 3 :=
  have h : Positive (⟨2, 60, 3⟩ : RateLimitOptions Int) := ⟨by decide, by decide, by decide⟩
  ⟨h, (allow_spec ⟨2, 60, 3⟩ h renewedInPlace ⟨"d", 62⟩ (by decide)).1⟩

/-- The window that goes ends at 120 and the one after it at 110. -/
theorem later_reset_goes_first : ¬∀ (options : RateLimitOptions Int)
    (calls : List (Call String Int)) (call : Call String Int), Positive options →
    ((calls ++ [call]).map (·.now)).Pairwise (· ≤ ·) →
    ∀ e ∈ after options [] calls, call.now < e.2.resetAt →
      e.1 ∉ (allow options (after options [] calls) call).2.map (·.1) →
      ∀ d ∈ after options [] calls, e.2.resetAt ≤ d.2.resetAt := by
  intro h
  have hreset := h ⟨2, 60, 3⟩ renewedInPlace ⟨"d", 62⟩ ⟨by decide, by decide, by decide⟩
    (by decide) ("a", ⟨1, 120⟩) (by decide) (by decide) (by decide) ("b", ⟨1, 110⟩) (by decide)
  exact absurd hreset (by decide)

end RateLimit

end Wallow.Logger
