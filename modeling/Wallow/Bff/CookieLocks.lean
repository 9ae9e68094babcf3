import Wallow.Lib.Transition
import Mathlib.Logic.Function.Basic

/-!
# Refreshes in flight

`CookieSessionStore.withRefreshLock` of `cookie.ts`: the map of the refreshes in flight, the
promises in it and the reactions that take them out.  A callback is called before its promise is in
the map, and until it returns it may call the store itself.
-/

namespace Wallow.Bff.CookieLocks

open Transition

/-- A call whose callback has returned a promise; `released` when the reaction of that promise has
run. -/
structure Run (κ : Type) where
  ref : κ
  promise : Nat
  released : Bool
  deriving DecidableEq

/-- What a call has returned. -/
structure Caller (κ : Type) where
  ref : κ
  promise : Nat
  deriving DecidableEq

/-- A promise is a value or a rejection, of type `ω`, once it is settled. -/
structure Store (κ ω : Type) where
  refreshLocks : κ → Option Nat
  promises : List (Option ω)
  runs : List (Run κ)
  /-- Callbacks that have been called and have not returned, the innermost first. -/
  calling : List κ
  callers : List (Caller κ)

variable {κ ω : Type}

def Store.start : Store κ ω := ⟨fun _ => none, [], [], [], []⟩

/-- The promise has not been settled. -/
def Store.isPending (s : Store κ ω) (promise : Nat) : Bool :=
  match s.promises[promise]? with
  | some none => true
  | _ => false

inductive Move (κ ω : Type)
  | call (ref : κ)
  /-- The innermost callback returns a promise of its own, or one that there is already. -/
  | returns (promise : Option Nat)
  /-- The innermost callback throws before it has returned. -/
  | throws
  | settle (promise : Nat) (outcome : ω)
  /-- The reaction of a call's promise. -/
  | release (run : Nat)

section

variable [DecidableEq κ]

/-- The innermost callback has returned: its promise is put into the map. -/
def Store.install (s : Store κ ω) (ref : κ) (calling : List κ) (promise : Nat)
    (promises : List (Option ω)) : Store κ ω where
  refreshLocks := Function.update s.refreshLocks ref (some promise)
  promises := promises
  runs := s.runs ++ [⟨ref, promise, false⟩]
  calling := calling
  callers := ⟨ref, promise⟩ :: s.callers

/-- `release` of one call. -/
def Store.settled (s : Store κ ω) (i : Nat) (run : Run κ) : Store κ ω :=
  { s with
    runs := s.runs.set i { run with released := true }
    refreshLocks :=
      if s.refreshLocks run.ref = some run.promise then
        Function.update s.refreshLocks run.ref none
      else s.refreshLocks }

def step (s : Store κ ω) : Move κ ω → Option (Store κ ω)
  | .call ref =>
    match s.refreshLocks ref with
    | some promise => some { s with callers := ⟨ref, promise⟩ :: s.callers }
    | none => some { s with calling := ref :: s.calling }
  | .returns promise =>
    match s.calling, promise with
    | [], _ => none
    | ref :: calling, none => some (s.install ref calling s.promises.length (s.promises ++ [none]))
    | ref :: calling, some promise =>
      if promise < s.promises.length then some (s.install ref calling promise s.promises) else none
  | .throws =>
    match s.calling with
    | [] => none
    | _ :: calling => some { s with calling }
  | .settle promise outcome =>
    if s.isPending promise then
      some { s with promises := s.promises.set promise (some outcome) }
    else none
  | .release i =>
    match s.runs[i]? with
    | some run =>
      -- a reaction runs when no code does
      if run.released = false ∧ s.isPending run.promise = false ∧ s.calling = [] then
        some (s.settled i run)
      else none
    | none => none

/-- The callbacks of a reference that run: they have not returned, or their promise is not
settled. -/
def Store.running (s : Store κ ω) (ref : κ) : Nat :=
  s.calling.count ref + s.runs.countP fun run => run.ref = ref && s.isPending run.promise

/-- At most one callback runs for each reference. -/
def OneEach (s : Store κ ω) : Prop := ∀ ref, s.running ref ≤ 1

/-- A call that is made while a callback of its reference runs returns the promise of that run, and
starts none. -/
def Joins (ls : List (Move κ ω)) : Prop :=
  ∀ ms ref, ms ++ [Move.call ref] <+: ls → ∀ s, follow step Store.start ms = some s →
    0 < s.running ref → ∃ run ∈ s.runs, run.ref = ref ∧ s.isPending run.promise = true ∧
      step s (.call ref) = some { s with callers := ⟨ref, run.promise⟩ :: s.callers }

/-- No callback that has not returned is the one of this reference. -/
def isApart (s : Store κ ω) : Move κ ω → Bool
  | .call ref => !s.calling.contains ref
  | _ => true

end

/-- All callbacks have settled, and the reactions of their promises have run. -/
structure Quiet (s : Store κ ω) : Prop where
  calling : s.calling = []
  runs : ∀ run ∈ s.runs, s.isPending run.promise = false ∧ run.released = true

/-! ## Promises -/

variable {s t : Store κ ω} {p : Nat} {o : ω}

theorem isPending_eq_true : s.isPending p = true ↔ s.promises[p]? = some none := by
  unfold Store.isPending
  split
  · rename_i h
    exact iff_of_true rfl h
  · rename_i h
    exact iff_of_false (by simp) h

/-- What is settled stays so. -/
def Kept (s t : Store κ ω) : Prop :=
  ∀ (p : Nat) (o : ω), s.promises[p]? = some (some o) → t.promises[p]? = some (some o)

theorem isPending_append (promises : List (Option ω)) (h : t.promises = s.promises ++ promises)
    (hp : p < s.promises.length) : t.isPending p = s.isPending p := by
  unfold Store.isPending
  rw [h, List.getElem?_append_left hp]

theorem isPending_set (h : t.promises = s.promises.set p (some o)) (q : Nat) :
    t.isPending q = true → s.isPending q = true := by
  rw [isPending_eq_true, isPending_eq_true, h]
  intro hq
  by_cases heq : p = q
  · rw [heq, List.getElem?_set_self'] at hq
    cases hold : s.promises[q]? with
    | none => rw [hold] at hq; cases hq
    | some old => rw [hold] at hq; cases hq
  · rw [List.getElem?_set_ne heq] at hq
    exact hq

variable [DecidableEq κ] {m : Move κ ω}

/-! ## What a step does -/

/-- What a callback may return: a new promise, or one that there is. -/
def Returned (s : Store κ ω) (p : Nat) (promises : List (Option ω)) : Prop :=
  (p = s.promises.length ∧ promises = s.promises ++ [none]) ∨
    (p < s.promises.length ∧ promises = s.promises)

inductive Steps (s : Store κ ω) : Move κ ω → Store κ ω → Prop
  | join {ref : κ} {p : Nat} (hlock : s.refreshLocks ref = some p) :
      Steps s (.call ref) { s with callers := ⟨ref, p⟩ :: s.callers }
  | start {ref : κ} (hlock : s.refreshLocks ref = none) :
      Steps s (.call ref) { s with calling := ref :: s.calling }
  | returned {given : Option Nat} {ref : κ} {calling : List κ} {p : Nat}
      {promises : List (Option ω)} (hcalling : s.calling = ref :: calling)
      (hreturned : Returned s p promises) :
      Steps s (.returns given) (s.install ref calling p promises)
  | threw {ref : κ} {calling : List κ} (hcalling : s.calling = ref :: calling) :
      Steps s .throws { s with calling }
  | settled {p : Nat} {o : ω} (hpending : s.isPending p = true) :
      Steps s (.settle p o) { s with promises := s.promises.set p (some o) }
  | released {i : Nat} {run : Run κ} (hrun : s.runs[i]? = some run) (hopen : run.released = false)
      (hsettled : s.isPending run.promise = false) (hcalling : s.calling = []) :
      Steps s (.release i) (s.settled i run)

theorem steps_of_step (h : step s m = some t) : Steps s m t := by
  cases m with
  | call ref =>
    cases hlock : s.refreshLocks ref with
    | some p =>
      rw [step, hlock] at h
      cases h
      exact .join hlock
    | none =>
      rw [step, hlock] at h
      cases h
      exact .start hlock
  | returns given =>
    cases hcalling : s.calling with
    | nil =>
      unfold step at h
      rw [hcalling] at h
      cases given <;> cases h
    | cons ref calling =>
      cases given with
      | none =>
        unfold step at h
        rw [hcalling] at h
        cases h
        exact .returned hcalling (Or.inl ⟨rfl, rfl⟩)
      | some p =>
        unfold step at h
        rw [hcalling] at h
        dsimp only at h
        rw [Option.ite_none_right_eq_some] at h
        cases h.2
        exact .returned hcalling (Or.inr ⟨h.1, rfl⟩)
  | throws =>
    cases hcalling : s.calling with
    | nil =>
      unfold step at h
      rw [hcalling] at h
      cases h
    | cons ref calling =>
      unfold step at h
      rw [hcalling] at h
      cases h
      exact .threw hcalling
  | settle p o =>
    rw [step, Option.ite_none_right_eq_some] at h
    cases h.2
    exact .settled h.1
  | release i =>
    cases hrun : s.runs[i]? with
    | none =>
      rw [step, hrun] at h
      cases h
    | some run =>
      rw [step, hrun] at h
      dsimp only at h
      rw [Option.ite_none_right_eq_some] at h
      have ⟨⟨hopen, hsettled, hcalling⟩, ht⟩ := h
      cases ht
      exact .released hrun hopen hsettled hcalling

theorem kept_step (h : step s m = some t) : Kept s t := by
  intro q o hq
  cases steps_of_step h with
  | join | start | threw | released => exact hq
  | returned _ hreturned =>
    show (_ : List (Option ω))[q]? = _
    cases hreturned with
    | inl hnew =>
      rw [Store.install, hnew.2, List.getElem?_append_left (List.getElem?_eq_some_iff.mp hq).1, hq]
    | inr hold => rw [Store.install, hold.2, hq]
  | @settled p outcome hpending =>
    have hne : p ≠ q := by
      intro heq
      rw [heq, isPending_eq_true, hq] at hpending
      cases hpending
    show (s.promises.set p (some outcome))[q]? = _
    rw [List.getElem?_set_ne hne, hq]

/-! ## The entries of the map -/

/-- Each entry is that of a call whose reaction has not run, and each promise is there. -/
structure Entries (s : Store κ ω) : Prop where
  entry : ∀ ref p, s.refreshLocks ref = some p →
    ∃ (i : Nat) (run : Run κ), s.runs[i]? = some run ∧ run.ref = ref ∧ run.promise = p ∧ run.released = false
  promises : ∀ run ∈ s.runs, run.promise < s.promises.length

omit [DecidableEq κ] in
theorem entries_start : Entries (Store.start : Store κ ω) where
  entry _ _ h := by cases h
  promises _ h := absurd h List.not_mem_nil

theorem entries_step (hs : Entries s) (h : step s m = some t) : Entries t := by
  cases steps_of_step h with
  | join | start | threw => exact ⟨hs.entry, hs.promises⟩
  | settled =>
    refine ⟨hs.entry, fun run hrun => ?_⟩
    show run.promise < (s.promises.set _ _).length
    rw [List.length_set]
    exact hs.promises run hrun
  | @returned _ ref calling p promises hcalling hreturned =>
    have hlength : s.promises.length ≤ promises.length ∧ p < promises.length := by
      cases hreturned with
      | inl hnew =>
        rw [hnew.1, hnew.2, List.length_append, List.length_singleton]
        omega
      | inr hold =>
        rw [hold.2]
        exact ⟨Nat.le_refl _, hold.1⟩
    refine ⟨fun ref' p' hlock => ?_, fun run hrun => ?_⟩
    · by_cases href : ref' = ref
      · have hp : p = p' := by
          have hnew : Function.update s.refreshLocks ref (some p) ref' = some p' := hlock
          rw [href, Function.update_self] at hnew
          exact Option.some.inj hnew
        refine ⟨s.runs.length, ⟨ref, p, false⟩, ?_, href.symm, hp, rfl⟩
        exact List.getElem?_concat_length
      · have hold : s.refreshLocks ref' = some p' := by
          have hsame : Function.update s.refreshLocks ref (some p) ref' = some p' := hlock
          rw [Function.update_of_ne href] at hsame
          exact hsame
        have ⟨i, run, hrun, hrest⟩ := hs.entry ref' p' hold
        refine ⟨i, run, ?_, hrest⟩
        exact (List.getElem?_append_left (List.getElem?_eq_some_iff.mp hrun).1).trans hrun
    · cases List.mem_append.mp hrun with
      | inl hin => exact Nat.lt_of_lt_of_le (hs.promises run hin) hlength.1
      | inr hnew =>
        rw [List.mem_singleton.mp hnew]
        exact hlength.2
  | @released i run hrun hopen hsettled hcalling =>
    refine ⟨fun ref p hlock => ?_, fun run' hrun' => ?_⟩
    · -- an entry that is left is not the one of this call
      have hother : s.refreshLocks ref = some p ∧ ¬(run.ref = ref ∧ run.promise = p) := by
        have hafter : (if s.refreshLocks run.ref = some run.promise then
            Function.update s.refreshLocks run.ref none else s.refreshLocks) ref = some p := hlock
        split at hafter
        · by_cases href : ref = run.ref
          · rw [href, Function.update_self] at hafter
            cases hafter
          · rw [Function.update_of_ne href] at hafter
            exact ⟨hafter, fun hboth => href hboth.1.symm⟩
        · rename_i hnot
          refine ⟨hafter, fun hboth => hnot ?_⟩
          rw [hboth.1, hboth.2]
          exact hafter
      have ⟨j, run', hrun', href, hpromise, hopen'⟩ := hs.entry ref p hother.1
      have hne : i ≠ j := by
        intro heq
        rw [heq, hrun'] at hrun
        cases hrun
        exact hother.2 ⟨href, hpromise⟩
      exact ⟨j, run', (List.getElem?_set_ne hne).trans hrun', href, hpromise, hopen'⟩
    · cases List.mem_or_eq_of_mem_set hrun' with
      | inl hin => exact hs.promises run' hin
      | inr heq =>
        rw [heq]
        exact hs.promises run (List.mem_of_getElem? hrun)

omit [DecidableEq κ] in
theorem Entries.empty_of_quiet (hs : Entries s) (hquiet : Quiet s) (ref : κ) :
    s.refreshLocks ref = none := by
  cases hlock : s.refreshLocks ref with
  | none => rfl
  | some p =>
    have ⟨i, run, hrun, _, _, hopen⟩ := hs.entry ref p hlock
    rw [(hquiet.runs run (List.mem_of_getElem? hrun)).2] at hopen
    cases hopen

/-! ## One callback for each reference -/

/-- A call of the reference whose reaction has not run. -/
def isOpen (ref : κ) (run : Run κ) : Bool := run.ref = ref && !run.released

/-- What holds while no callback asks for its own reference: a reference is called, or in the map,
or neither. -/
structure Locked (s : Store κ ω) : Prop where
  one : ∀ ref, s.calling.count ref + s.runs.countP (isOpen ref) ≤ 1
  held : ∀ run ∈ s.runs, run.released = false → s.refreshLocks run.ref = some run.promise
  free : ∀ ref ∈ s.calling, s.refreshLocks ref = none
  pending : ∀ run ∈ s.runs, s.isPending run.promise = true → run.released = false

theorem locked_start : Locked (Store.start : Store κ ω) where
  one _ := Nat.zero_le 1
  held _ h := absurd h List.not_mem_nil
  free _ h := absurd h List.not_mem_nil
  pending _ h := absurd h List.not_mem_nil

theorem Locked.running_le (hs : Locked s) (ref : κ) :
    s.running ref ≤ s.calling.count ref + s.runs.countP (isOpen ref) := by
  apply Nat.add_le_add_left
  apply List.countP_mono_left
  intro run hrun hboth
  rw [Bool.and_eq_true, decide_eq_true_iff] at hboth
  rw [isOpen, Bool.and_eq_true, decide_eq_true_iff, Bool.not_eq_true']
  exact ⟨hboth.1, hs.pending run hrun hboth.2⟩

theorem Locked.oneEach (hs : Locked s) : OneEach s :=
  fun ref => Nat.le_trans (hs.running_le ref) (hs.one ref)

/-- Nothing of a reference is under way where the map has nothing and no callback is called. -/
theorem Locked.none_open (hs : Locked s) {ref : κ} (hlock : s.refreshLocks ref = none) :
    s.runs.countP (isOpen ref) = 0 := by
  apply List.countP_eq_zero.mpr
  intro run hrun hopen
  rw [isOpen, Bool.and_eq_true, decide_eq_true_iff, Bool.not_eq_true'] at hopen
  have hheld := hs.held run hrun hopen.2
  rw [hopen.1, hlock] at hheld
  cases hheld

theorem locked_step (hs : Locked s) (hentries : Entries s) (hapart : isApart s m = true)
    (h : step s m = some t) : Locked t := by
  cases steps_of_step h with
  | join => exact ⟨hs.one, hs.held, hs.free, hs.pending⟩
  | @start ref hlock =>
    have hnot : ref ∉ s.calling := by
      intro hin
      rw [isApart, Bool.not_eq_true', List.contains_eq_mem, decide_eq_false_iff_not] at hapart
      exact hapart hin
    refine ⟨fun ref' => ?_, hs.held, fun ref' hin => ?_, hs.pending⟩
    · show (ref :: s.calling).count ref' + _ ≤ 1
      by_cases href : ref = ref'
      · rw [← href, List.count_cons_self, List.count_eq_zero.mpr hnot]
        show 0 + 1 + s.runs.countP (isOpen ref) ≤ 1
        rw [hs.none_open hlock]
      · rw [List.count_cons_of_ne href]
        exact hs.one ref'
    · cases List.mem_cons.mp hin with
      | inl heq => exact heq ▸ hlock
      | inr hold => exact hs.free ref' hold
  | @threw ref calling hcalling =>
    have hone := hs.one
    have hfree := hs.free
    rw [hcalling] at hone hfree
    refine ⟨fun ref' => ?_, hs.held, fun ref' hin => hfree ref' (List.mem_cons_of_mem ref hin),
      hs.pending⟩
    have hle := hone ref'
    have hcount := List.count_le_count_cons (a := ref') (b := ref) (l := calling)
    exact Nat.le_trans (Nat.add_le_add_right hcount _) hle
  | @settled p o hpending =>
    refine ⟨hs.one, hs.held, hs.free, fun run hrun hstill => ?_⟩
    exact hs.pending run hrun (isPending_set (t := { s with promises := _ }) rfl _ hstill)
  | @returned _ ref calling p promises hcalling hreturned =>
    have hone := hs.one
    rw [hcalling] at hone
    have hself := hone ref
    rw [List.count_cons_self] at hself
    have hnone : s.runs.countP (isOpen ref) = 0 := by omega
    have hcount : calling.count ref = 0 := by omega
    refine ⟨fun ref' => ?_, fun run hrun hopen => ?_, fun ref' hin => ?_,
      fun run hrun hstill => ?_⟩
    · show calling.count ref' + (s.runs ++ [(⟨ref, p, false⟩ : Run κ)]).countP (isOpen ref') ≤ 1
      rw [List.countP_append, List.countP_singleton]
      by_cases href : ref = ref'
      · rw [← href, hnone, hcount]
        simp [isOpen]
      · have hle := hone ref'
        rw [List.count_cons_of_ne href] at hle
        simpa [isOpen, href] using hle
    · show Function.update s.refreshLocks ref (some p) run.ref = some run.promise
      cases List.mem_append.mp hrun with
      | inl hin =>
        have href : run.ref ≠ ref := by
          intro heq
          have hzero := List.countP_eq_zero.mp hnone run hin
          exact hzero (by simp [isOpen, heq, hopen])
        rw [Function.update_of_ne href]
        exact hs.held run hin hopen
      | inr hnew => rw [List.mem_singleton.mp hnew, Function.update_self]
    · show Function.update s.refreshLocks ref (some p) ref' = none
      have href : ref' ≠ ref := by
        intro heq
        rw [heq] at hin
        exact absurd hcount (Nat.ne_of_gt (List.count_pos_iff.mpr hin))
      rw [Function.update_of_ne href]
      exact hs.free ref' (hcalling ▸ List.mem_cons_of_mem ref hin)
    · cases List.mem_append.mp hrun with
      | inr hnew => rw [List.mem_singleton.mp hnew]
      | inl hin =>
        apply hs.pending run hin
        have hp := hentries.promises run hin
        cases hreturned with
        | inl hnew =>
          rw [isPending_append (s := s) [none] hnew.2 hp] at hstill
          exact hstill
        | inr hold =>
          rw [isPending_eq_true] at hstill ⊢
          rw [← hold.2]
          exact hstill
  | @released i run hrun hopen hsettled hcalling =>
    have hi := (List.getElem?_eq_some_iff.mp hrun).1
    have hget := (List.getElem?_eq_some_iff.mp hrun).2
    -- the call was the open one of its reference, and is open no more
    have hcountP : ∀ ref, (s.runs.set i { run with released := true }).countP (isOpen ref) =
        s.runs.countP (isOpen ref) - (if isOpen ref run then 1 else 0) := by
      intro ref
      rw [List.countP_set hi, hget]
      simp [isOpen]
    have hself : (s.runs.set i { run with released := true }).countP (isOpen run.ref) = 0 := by
      have hle := hs.one run.ref
      rw [hcountP, isOpen, hopen, if_pos (by simp)]
      omega
    refine ⟨fun ref => ?_, fun run' hrun' hopen' => ?_, fun ref hin => ?_,
      fun run' hrun' hstill => ?_⟩
    · show s.calling.count ref + (s.runs.set i _).countP (isOpen ref) ≤ 1
      have hle := hs.one ref
      rw [hcountP]
      omega
    · show (if s.refreshLocks run.ref = some run.promise then
        Function.update s.refreshLocks run.ref none else s.refreshLocks) run'.ref = _
      have href : run'.ref ≠ run.ref := by
        intro heq
        have hzero := List.countP_eq_zero.mp hself run' hrun'
        exact hzero (by simp [isOpen, heq, hopen'])
      have hin : run' ∈ s.runs := by
        cases List.mem_or_eq_of_mem_set hrun' with
        | inl hin => exact hin
        | inr heq => rw [heq] at hopen'; cases hopen'
      split
      · rw [Function.update_of_ne href]
        exact hs.held run' hin hopen'
      · exact hs.held run' hin hopen'
    · have hnil : ref ∈ s.calling := hin
      rw [hcalling] at hnil
      exact absurd hnil List.not_mem_nil
    · cases List.mem_or_eq_of_mem_set hrun' with
      | inl hin => exact hs.pending run' hin hstill
      | inr heq =>
        have hnot : s.isPending run'.promise = true := hstill
        rw [heq] at hnot
        rw [show s.isPending run.promise = true from hnot] at hsettled
        cases hsettled

/-- What is known along runs in which no callback asks for its own reference. -/
structure Sound (s : Store κ ω) : Prop where
  entries : Entries s
  locked : Locked s

theorem sound_start : Sound (Store.start : Store κ ω) := ⟨entries_start, locked_start⟩

theorem Sound.step (hs : Sound s) (hapart : isApart s m = true) (h : step s m = some t) :
    Sound t :=
  ⟨entries_step hs.entries h, locked_step hs.locked hs.entries hapart h⟩

/-- A callback that asks for its own reference starts a second one. -/
theorem not_oneEach_of_not_apart (hs : Locked s) (hapart : isApart s m = false)
    (h : step s m = some t) : ¬OneEach t := by
  intro hone
  cases m with
  | call ref =>
    rw [isApart, Bool.not_eq_false', List.contains_eq_mem, decide_eq_true_iff] at hapart
    have hlock := hs.free ref hapart
    rw [step, hlock] at h
    cases h
    have hle : (ref :: s.calling).count ref + _ ≤ 1 := hone ref
    have hpos := List.count_pos_iff.mpr hapart
    rw [List.count_cons_self] at hle
    omega
  | _ => cases hapart

/-- A call that comes while a callback of its reference runs joins that run. -/
theorem Locked.join (hs : Locked s) {ref : κ} (hapart : isApart s (.call ref : Move κ ω) = true)
    (hruns : 0 < s.running ref) : ∃ run ∈ s.runs, run.ref = ref ∧ s.isPending run.promise = true ∧
      step s (.call ref) = some { s with callers := ⟨ref, run.promise⟩ :: s.callers } := by
  rw [isApart, Bool.not_eq_true', List.contains_eq_mem, decide_eq_false_iff_not] at hapart
  rw [Store.running, List.count_eq_zero.mpr hapart, Nat.zero_add, List.countP_pos_iff] at hruns
  have ⟨run, hrun, hboth⟩ := hruns
  rw [Bool.and_eq_true, decide_eq_true_iff] at hboth
  have hheld := hs.held run hrun (hs.pending run hrun hboth.2)
  refine ⟨run, hrun, hboth.1, hboth.2, ?_⟩
  rw [step, ← hboth.1, hheld]

/-! ## Runs -/

theorem entries_run {ls : List (Move κ ω)} (h : follow step Store.start ls = some t) :
    Entries t :=
  invariant_of_run h Entries entries_start fun _ _ _ _ ha _ hs => entries_step ha hs

/-- What is settled before a run goes on stays so. -/
theorem kept_run {ls : List (Move κ ω)} (h : follow step s ls = some t) : Kept s t :=
  invariant_of_run h (Kept s) (fun _ _ h => h) fun _ _ _ _ ha _ hs p o hp =>
    kept_step hs p o (ha p o hp)

/-- At most one callback runs for each reference, and those who come while one runs join it,
exactly in the runs in which no callback asks for its own reference before it has returned.  In
every run what a promise is settled to stays, and no entry is left when all is quiet. -/
theorem refreshLocks_spec (ls : List (Move κ ω)) (t : Store κ ω)
    (h : follow step Store.start ls = some t) :
    ((Throughout step OneEach Store.start ls ∧ Joins ls) ↔
      run step isApart Store.start ls = some t) ∧
    (∀ ms, ms <+: ls → ∀ s, follow step Store.start ms = some s → Kept s t) ∧
    (Quiet t → ∀ ref, t.refreshLocks ref = none) := by
  have hone : Throughout step OneEach Store.start ls ↔ run step isApart Store.start ls = some t := by
    refine run_iff_throughout sound_start locked_start.oneEach
      (fun a m b ha hm hb => ha.step hm hb) (fun a m b ha hb => ?_) h
    cases hm : isApart a m with
    | true => exact iff_of_true (ha.step hm hb).locked.oneEach rfl
    | false => exact iff_of_false (not_oneEach_of_not_apart ha.locked hm hb) Bool.false_ne_true
  refine ⟨⟨fun hboth => hone.mp hboth.1, fun hrun => ⟨hone.mpr hrun, ?_⟩⟩, ?_, ?_⟩
  · intro ms ref hprefix s hs hruns
    obtain ⟨rest, hls⟩ := hprefix
    -- the call is a step of the run, so it passes the check
    rw [← hls, List.append_assoc, run_append] at hrun
    obtain ⟨a, ha, hrest⟩ := Option.bind_eq_some_iff.mp hrun
    have hsame : follow step Store.start ms = some a := follow_of_run ha
    rw [hs, Option.some.injEq] at hsame
    rw [List.singleton_append, Transition.run, Option.ite_none_right_eq_some, ← hsame] at hrest
    have hsound : Sound s :=
      invariant_of_run (hsame ▸ ha) Sound sound_start fun _ _ _ _ hb hm hc => hb.step hm hc
    exact hsound.locked.join hrest.1 hruns
  · intro ms hprefix s hs
    obtain ⟨rest, hls⟩ := hprefix
    rw [← hls, follow, run_append] at h
    obtain ⟨a, ha, hrest⟩ := Option.bind_eq_some_iff.mp h
    rw [follow, ha, Option.some.injEq] at hs
    exact kept_run (hs ▸ hrest)
  · exact fun hquiet ref => (entries_run h).empty_of_quiet hquiet ref

/-- A refresh of two callers, which ends in a rejection. -/
def joinedRun : List (Move String String) :=
  [.call "a", .returns none, .call "a", .settle 0 "rejected", .release 0]

theorem refreshLocks_spec_of_two_callers :
    ∃ t, follow step Store.start joinedRun = some t ∧ t.callers = [⟨"a", 0⟩, ⟨"a", 0⟩] ∧
      Throughout step OneEach Store.start joinedRun ∧ ∀ ref, t.refreshLocks ref = none := by
  obtain ⟨t, ht⟩ : ∃ t, follow step Store.start joinedRun = some t := ⟨_, rfl⟩
  have hspec := refreshLocks_spec joinedRun t ht
  have hrun : run step isApart Store.start joinedRun = some t := ht ▸ rfl
  cases ht
  refine ⟨_, rfl, rfl, (hspec.1.mpr hrun).1, hspec.2.2 ⟨rfl, ?_⟩⟩
  decide

/-- A callback asks for its own reference, and starts the callback of that call. -/
theorem own_reference_starts_second :
    ¬∀ (ls : List (Move String String)) (t : Store String String),
      follow step Store.start ls = some t → OneEach t := by
  intro h
  have hone := h [.call "a", .call "a"] _ rfl "a"
  exact absurd hone (by decide)

end Wallow.Bff.CookieLocks
