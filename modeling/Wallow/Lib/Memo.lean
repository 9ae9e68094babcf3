import Mathlib.Logic.Function.Basic
import Mathlib.Data.List.Pairwise

/-!
# Answers kept under a key

A function is computed once and its value kept under a key of the argument; a later call with an
argument of the same key is answered by what is kept.  Where the key does not determine the value,
a call can be answered by the value of another argument.
-/

namespace Memo

variable {α κ β : Type*} {key : α → κ} {f : α → β} {asked : List α} {cache : κ → Option β}

/-- What is kept under a key was computed for a call that was asked. -/
def Kept (key : α → κ) (f : α → β) (asked : List α) (cache : κ → Option β) : Prop :=
  ∀ k v, cache k = some v → ∃ a ∈ asked, key a = k ∧ v = f a

theorem Kept.empty : Kept key f asked fun _ => none := by
  intro k v h
  cases h

theorem Kept.mono {others : List α} (h : Kept key f asked cache)
    (hsub : ∀ a ∈ asked, a ∈ others) : Kept key f others cache := by
  intro k v hv
  have ⟨a, ha, hkey, hf⟩ := h k v hv
  exact ⟨a, hsub a ha, hkey, hf⟩

variable [DecidableEq κ]

theorem Kept.put (h : Kept key f asked cache) {a : α} (ha : a ∈ asked) :
    Kept key f asked (Function.update cache (key a) (some (f a))) := by
  intro k v hv
  by_cases hk : k = key a
  · subst hk
    rw [Function.update_self, Option.some.injEq] at hv
    exact ⟨a, ha, rfl, hv.symm⟩
  · rw [Function.update_of_ne hk] at hv
    exact h k v hv

theorem Kept.drop (h : Kept key f asked cache) (dropped : κ) :
    Kept key f asked (Function.update cache dropped none) := by
  intro k v hv
  by_cases hk : k = dropped
  · subst hk
    rw [Function.update_self] at hv
    cases hv
  · rw [Function.update_of_ne hk] at hv
    exact h k v hv

/-! ## A cache of each process and a shared one -/

/-- What the processes keep for themselves, and what they share. -/
structure Levels (κ β : Type*) where
  locals : Nat → κ → Option β
  shared : κ → Option β

inductive Event (α κ : Type*)
  | ask (process : Nat) (a : α)
  /-- A process writes what it keeps to the shared cache. -/
  | share (process : Nat) (k : κ)
  /-- An entry expires or is evicted. -/
  | dropLocal (process : Nat) (k : κ)
  | dropShared (k : κ)

namespace Levels

def initial : Levels κ β := ⟨fun _ _ => none, fun _ => none⟩

variable (key f) in
/-- A call looks in its own cache, then in the shared one, and computes the value last. -/
def ask (s : Levels κ β) (process : Nat) (a : α) : β × Levels κ β :=
  match s.locals process (key a) with
  | some v => (v, s)
  | none =>
    let v := (s.shared (key a)).getD (f a)
    (v, { s with
      locals := Function.update s.locals process
        (Function.update (s.locals process) (key a) (some v)) })

def share (s : Levels κ β) (process : Nat) (k : κ) : Levels κ β :=
  match s.locals process k with
  | some v => { s with shared := Function.update s.shared k (some v) }
  | none => s

def dropLocal (s : Levels κ β) (process : Nat) (k : κ) : Levels κ β :=
  { s with
    locals := Function.update s.locals process (Function.update (s.locals process) k none) }

def dropShared (s : Levels κ β) (k : κ) : Levels κ β :=
  { s with shared := Function.update s.shared k none }

variable (key f) in
/-- The calls of a run and what each is answered. -/
def answers : Levels κ β → List (Event α κ) → List (α × β)
  | _, [] => []
  | s, .ask process a :: later =>
    let (v, s) := s.ask key f process a
    (a, v) :: answers s later
  | s, .share process k :: later => answers (s.share process k) later
  | s, .dropLocal process k :: later => answers (s.dropLocal process k) later
  | s, .dropShared k :: later => answers (s.dropShared k) later

/-- What every cache keeps was computed for a call that was asked. -/
structure Kept (key : α → κ) (f : α → β) (asked : List α) (s : Levels κ β) : Prop where
  locals : ∀ process, Memo.Kept key f asked (s.locals process)
  shared : Memo.Kept key f asked s.shared

omit [DecidableEq κ] in
theorem Kept.initial : Kept key f asked (initial : Levels κ β) :=
  ⟨fun _ => .empty, .empty⟩

variable (key f) in
theorem ask_initial (process : Nat) (a : α) : initial.ask key f process a =
    (f a, ⟨Function.update (fun _ _ => none) process
      (Function.update (fun _ => none) (key a) (some (f a))), fun _ => none⟩) := rfl

variable (key f) in
theorem dropLocal_ask_initial (process : Nat) (a : α) :
    (initial.ask key f process a).2.dropLocal process (key a) = initial := by
  rw [ask_initial, dropLocal, initial]
  congr 1
  funext other k
  dsimp only
  rw [Function.update_idem, Function.update_self, Function.update_idem]
  by_cases hother : other = process
  · subst hother
    rw [Function.update_self]
    exact Function.update_apply _ _ _ k ▸ ite_self _
  · rw [Function.update_of_ne hother]

variable {s : Levels κ β}

theorem Kept.share (h : Kept key f asked s) (process : Nat) (k : κ) :
    Kept key f asked (s.share process k) := by
  unfold Levels.share
  cases hlocal : s.locals process k with
  | none => exact h
  | some v =>
    have ⟨a, ha, hkey, hf⟩ := h.locals process k v hlocal
    subst hkey hf
    exact ⟨h.locals, h.shared.put ha⟩

theorem Kept.dropLocal (h : Kept key f asked s) (process : Nat) (k : κ) :
    Kept key f asked (s.dropLocal process k) where
  locals other := by
    show Memo.Kept key f asked (Function.update s.locals process _ other)
    by_cases hother : other = process
    · subst hother
      rw [Function.update_self]
      exact (h.locals other).drop k
    · rw [Function.update_of_ne hother]
      exact h.locals other
  shared := h.shared

theorem Kept.dropShared (h : Kept key f asked s) (k : κ) :
    Kept key f asked (s.dropShared k) :=
  ⟨h.locals, h.shared.drop k⟩

/-- A call is answered by what was computed for a call of its key. -/
theorem Kept.ask (h : Kept key f asked s) (process : Nat) {a : α} (ha : a ∈ asked) :
    Kept key f asked (s.ask key f process a).2 ∧
      ∃ b ∈ asked, key b = key a ∧ (s.ask key f process a).1 = f b := by
  unfold Levels.ask
  cases hlocal : s.locals process (key a) with
  | some v => exact ⟨h, h.locals process (key a) v hlocal⟩
  | none =>
    have hvalue : ∃ b ∈ asked, key b = key a ∧ (s.shared (key a)).getD (f a) = f b := by
      cases hshared : s.shared (key a) with
      | some v => exact h.shared (key a) v hshared
      | none => exact ⟨a, ha, rfl, rfl⟩
    have ⟨b, hb, hkey, hf⟩ := hvalue
    refine ⟨⟨fun other => ?_, h.shared⟩, hvalue⟩
    show Memo.Kept key f asked (Function.update s.locals process _ other)
    by_cases hother : other = process
    · subst hother
      rw [Function.update_self, hf, ← hkey]
      exact (h.locals other).put hb
    · rw [Function.update_of_ne hother]
      exact h.locals other

end Levels

def Event.call? : Event α κ → Option α
  | .ask _ a => some a
  | _ => none

/-- The calls of a run. -/
def calls (events : List (Event α κ)) : List α := events.filterMap Event.call?

omit [DecidableEq κ] in
theorem calls_map_ask (process : Nat) (history : List α) :
    calls (history.map (Event.ask (κ := κ) process)) = history := by
  unfold calls
  rw [List.filterMap_map]
  exact List.filterMap_some

variable {Right : α → β → Prop}

/-- Whatever was computed for a key is right for every later call of the key. -/
theorem right_of_pairwise (hself : ∀ a, Right a (f a)) {s : Levels κ β}
    {events : List (Event α κ)} (hs : s.Kept key f asked)
    (hasked : ∀ b ∈ asked, ∀ a ∈ calls events, key b = key a → Right a (f b))
    (hcalls : (calls events).Pairwise fun b a => key b = key a → Right a (f b)) :
    ∀ answer ∈ s.answers key f events, Right answer.1 answer.2 := by
  induction events generalizing s asked with
  | nil => exact fun _ hmem => absurd hmem List.not_mem_nil
  | cons event later ih =>
    cases event with
    | share process k => exact ih (hs.share process k) hasked hcalls
    | dropLocal process k => exact ih (hs.dropLocal process k) hasked hcalls
    | dropShared k => exact ih (hs.dropShared k) hasked hcalls
    | ask process a =>
      have hcons : calls (.ask process a :: later) = a :: calls later := rfl
      rw [hcons] at hasked hcalls
      have ⟨hfirst, hrest⟩ := List.pairwise_cons.mp hcalls
      have hkept : s.Kept key f (a :: asked) :=
        ⟨fun process => (hs.locals process).mono fun _ => List.mem_cons_of_mem _,
          hs.shared.mono fun _ => List.mem_cons_of_mem _⟩
      have ⟨hafter, b, hb, hkey, hanswer⟩ := hkept.ask process List.mem_cons_self
      have hlater : ∀ b ∈ a :: asked, ∀ c ∈ calls later, key b = key c → Right c (f b) := by
        intro b hb c hc hbc
        cases List.mem_cons.mp hb with
        | inl heq => exact heq ▸ hfirst c hc (heq ▸ hbc)
        | inr hold => exact hasked b hold c (List.mem_cons_of_mem _ hc) hbc
      intro answer hmem
      cases List.mem_cons.mp hmem with
      | inr hold => exact ih hafter hlater hrest answer hold
      | inl hnew =>
        rw [hnew]
        show Right a (s.ask key f process a).1
        rw [hanswer]
        cases List.mem_cons.mp hb with
        | inl heq => exact heq ▸ hself a
        | inr hold => exact hasked b hold a List.mem_cons_self hkey

/-- What a process keeps under a key answers each of its calls of the key. -/
theorem answers_of_local {s : Levels κ β} {process : Nat} {k : κ} {v : β}
    (h : s.locals process k = some v) {history : List α} {a : α} (ha : a ∈ history)
    (hkey : key a = k) : (a, v) ∈ s.answers key f (history.map (.ask process)) := by
  induction history generalizing s with
  | nil => cases ha
  | cons b later ih =>
    have hanswer : key b = k → s.ask key f process b = (v, s) := by
      intro hb
      rw [Levels.ask, hb, h]
    have hstays : (s.ask key f process b).2.locals process k = some v := by
      by_cases hb : key b = k
      · rw [hanswer hb]
        exact h
      · unfold Levels.ask
        cases s.locals process (key b) with
        | some w => exact h
        | none =>
          show Function.update s.locals process _ process k = some v
          rw [Function.update_self, Function.update_of_ne (Ne.symm hb), h]
    cases List.mem_cons.mp ha with
    | inl heq =>
      subst heq
      have hhead : (a, v) = (a, (s.ask key f process a).1) := by rw [hanswer hkey]
      exact List.mem_cons.mpr (.inl hhead)
    | inr hlater => exact List.mem_cons_of_mem _ (ih hstays hlater)

/-- Every run of a history answers rightly exactly if what is computed for a call is right for every
later call of its key. -/
theorem right_iff_pairwise (hself : ∀ a, Right a (f a)) (history : List α) :
    (∀ events : List (Event α κ), calls events = history →
      ∀ answer ∈ Levels.initial.answers key f events, Right answer.1 answer.2) ↔
    history.Pairwise fun b a => key b = key a → Right a (f b) := by
  constructor
  · intro h
    induction history with
    | nil => exact .nil
    | cons b later ih =>
      refine .cons (fun a ha hkey => ?_) (ih fun events hevents answer hmem => ?_)
      · -- without an eviction, the later call is answered by what the first one left
        have hkept : ((Levels.initial (β := β)).ask key f 0 b).2.locals 0 (key b) = some (f b) := by
          rw [Levels.ask_initial]
          dsimp only
          rw [Function.update_self, Function.update_self]
        exact h _ (calls_map_ask 0 (b :: later)) (a, f b)
          (List.mem_cons_of_mem _ (answers_of_local hkept ha hkey.symm))
      · -- evicting what the first call left brings the later ones to the empty caches
        refine h (.ask 0 b :: .dropLocal 0 (key b) :: events) (congrArg (b :: ·) hevents) answer ?_
        show answer ∈ (b, _) :: (((Levels.initial.ask key f 0 b).2.dropLocal 0 (key b)).answers
          key f events)
        rw [Levels.dropLocal_ask_initial]
        exact List.mem_cons_of_mem _ hmem
  · intro h events hevents
    have hkept : (Levels.initial : Levels κ β).Kept key f [] := .initial
    exact right_of_pairwise hself hkept (fun _ hb => absurd hb List.not_mem_nil) (hevents ▸ h)

/-! ## Calls that do not come to the cache -/

/-- The events, without the calls that are answered otherwise. -/
def reaching (p : α → Bool) (events : List (Event α κ)) : List (Event α κ) :=
  events.filter fun event => event.call?.all p

omit [DecidableEq κ] in
theorem calls_reaching (p : α → Bool) (events : List (Event α κ)) :
    calls (reaching p events) = (calls events).filter p := by
  induction events with
  | nil => rfl
  | cons event later ih =>
    cases event with
    | share process k => exact ih
    | dropLocal process k => exact ih
    | dropShared k => exact ih
    | ask process a =>
      have hcons : calls (.ask process a :: later) = a :: calls later := rfl
      rw [hcons, List.filter_cons, ← ih, reaching, List.filter_cons]
      show calls (if p a = true then _ else _) = _
      split <;> rfl

omit [DecidableEq κ] in
/-- The calls answered otherwise can be put back into a run. -/
theorem exists_reaching_eq {p : α → Bool} {history : List α} {events : List (Event α κ)}
    (h : calls events = history.filter p) :
    ∃ whole : List (Event α κ), calls whole = history ∧ reaching p whole = events := by
  have hrejected : ∀ rejected : List α, (∀ a ∈ rejected, ¬p a = true) →
      reaching p (rejected.map (Event.ask (κ := κ) 0)) = [] := by
    intro rejected hall
    unfold reaching
    rw [List.filter_eq_nil_iff]
    intro event hevent
    have ⟨a, ha, heq⟩ := List.mem_map.mp hevent
    rw [← heq]
    exact hall a ha
  induction events generalizing history with
  | nil =>
    refine ⟨history.map (.ask 0), calls_map_ask 0 history, hrejected history ?_⟩
    exact List.filter_eq_nil_iff.mp h.symm
  | cons event later ih =>
    have hkeep : ∀ {whole : List (Event α κ)}, event.call? = none → reaching p whole = later →
        reaching p (event :: whole) = event :: later := by
      intro whole hnone hwhole
      unfold reaching at hwhole ⊢
      rw [List.filter_cons, hnone, hwhole]
      rfl
    cases event with
    | share process k =>
      have ⟨whole, hcalls, hwhole⟩ := ih h
      exact ⟨.share process k :: whole, hcalls, hkeep rfl hwhole⟩
    | dropLocal process k =>
      have ⟨whole, hcalls, hwhole⟩ := ih h
      exact ⟨.dropLocal process k :: whole, hcalls, hkeep rfl hwhole⟩
    | dropShared k =>
      have ⟨whole, hcalls, hwhole⟩ := ih h
      exact ⟨.dropShared k :: whole, hcalls, hkeep rfl hwhole⟩
    | ask process a =>
      have hcons : history.filter p = a :: calls later := h.symm
      have ⟨before, after, hhistory, hbefore, ha, hafter⟩ := List.filter_eq_cons_iff.mp hcons
      have ⟨whole, hcalls, hwhole⟩ := ih hafter.symm
      refine ⟨before.map (.ask 0) ++ .ask process a :: whole, ?_, ?_⟩
      · rw [hhistory, calls, List.filterMap_append]
        show calls _ ++ a :: calls whole = _
        rw [calls_map_ask, hcalls]
      · unfold reaching at hwhole hrejected ⊢
        rw [List.filter_append, hrejected before hbefore, List.nil_append, List.filter_cons, hwhole]
        exact if_pos ha

/-- As `right_iff_pairwise`, for the calls that come to the cache. -/
theorem right_iff_pairwise_filter (hself : ∀ a, Right a (f a)) (p : α → Bool) (history : List α) :
    (∀ events : List (Event α κ), calls events = history →
      ∀ answer ∈ Levels.initial.answers key f (reaching p events), Right answer.1 answer.2) ↔
    (history.filter p).Pairwise fun b a => key b = key a → Right a (f b) := by
  rw [← right_iff_pairwise hself]
  constructor
  · intro h events hevents
    have ⟨whole, hcalls, hwhole⟩ := exists_reaching_eq hevents
    exact hwhole ▸ h whole hcalls
  · intro h events hevents
    exact h (reaching p events) (by rw [calls_reaching, hevents])

end Memo
