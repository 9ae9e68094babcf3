import Mathlib.Logic.Relation
import Mathlib.Data.List.Induction
import Mathlib.Data.List.Infix

/-!
# Runs of a labelled transition function

A system is a partial step function `σ → ι → Option σ`: a label resolves every choice a step
makes, and `none` says the label is not enabled.  A run is a list of labels, so a concrete run
is evaluated by the kernel, and an invariant is proved once per step and carried to every run.
-/

namespace Transition

variable {σ ι : Type*}

/-- Follow the labels one by one; `none` as soon as one of them fails the check or is not
enabled. -/
def run (step : σ → ι → Option σ) (check : σ → ι → Bool) : σ → List ι → Option σ
  | s, [] => some s
  | s, l :: ls => if check s l then (step s l).bind fun s' => run step check s' ls else none

/-- `Reaches step guard s t`: some run leads from `s` to `t`, and each of its steps meets `guard`
in the state it is taken in. -/
inductive Reaches (step : σ → ι → Option σ) (guard : σ → ι → Prop) (s : σ) : σ → Prop
  | refl : Reaches step guard s s
  | tail {t u : σ} {l : ι} :
      Reaches step guard s t → guard t l → step t l = some u → Reaches step guard s u

/-- Reachability with no condition on the steps. -/
abbrev Reachable (step : σ → ι → Option σ) (s t : σ) : Prop :=
  Reaches step (fun _ _ => True) s t

variable {step : σ → ι → Option σ} {guard : σ → ι → Prop} {s t u : σ}

theorem Reaches.head {l : ι} (hg : guard s l) (hs : step s l = some t)
    (h : Reaches step guard t u) : Reaches step guard s u := by
  induction h with
  | refl => exact .tail .refl hg hs
  | tail _ hg' hs' ih => exact .tail ih hg' hs'

/-- The invariant rule: what every guarded step preserves holds in every state reached. -/
theorem Reaches.invariant (h : Reaches step guard s t) (Inv : σ → Prop) (h0 : Inv s)
    (hstep : ∀ a l b, Inv a → guard a l → step a l = some b → Inv b) : Inv t := by
  induction h with
  | refl => exact h0
  | tail _ hg hs ih => exact hstep _ _ _ ih hg hs

theorem Reaches.trans (h : Reaches step guard s t) (h' : Reaches step guard t u) :
    Reaches step guard s u := by
  induction h' with
  | refl => exact h
  | tail _ hg hs ih => exact .tail ih hg hs

/-- What every step relates, in a reflexive and transitive way, a run relates. -/
theorem Reaches.relates (h : Reaches step guard s t) (r : σ → σ → Prop) (hrefl : ∀ a, r a a)
    (htrans : ∀ a b c, r a b → r b c → r a c) (hstep : ∀ a l b, step a l = some b → r a b) :
    r s t := by
  induction h with
  | refl => exact hrefl _
  | tail _ _ hs ih => exact htrans _ _ _ ih (hstep _ _ _ hs)

/-- The simulation rule: when every guarded step is matched by abstract steps, so is a run. -/
theorem Reaches.simulate {τ κ : Type*} {step' : τ → κ → Option τ} {guard' : τ → κ → Prop}
    {R : σ → τ → Prop} {a : τ} (h : Reaches step guard s t) (h0 : R s a)
    (hstep : ∀ s l s' a, R s a → guard s l → step s l = some s' →
      ∃ a', Reaches step' guard' a a' ∧ R s' a') :
    ∃ a', Reaches step' guard' a a' ∧ R t a' := by
  induction h with
  | refl => exact ⟨a, .refl, h0⟩
  | tail _ hg hs ih =>
    obtain ⟨b, hb, hR⟩ := ih
    obtain ⟨b', hb', hR'⟩ := hstep _ _ _ _ hR hg hs
    exact ⟨b', hb.trans hb', hR'⟩

/-- A run that can be evaluated witnesses reachability. -/
theorem reaches_of_run {check : σ → ι → Bool} {ls : List ι}
    (hg : ∀ a l, check a l = true → guard a l) (h : run step check s ls = some t) :
    Reaches step guard s t := by
  induction ls generalizing s with
  | nil =>
    cases h
    exact .refl
  | cons l ls ih =>
    simp only [run, Option.ite_none_right_eq_some] at h
    obtain ⟨hcheck, h⟩ := h
    obtain ⟨s', hs, hrun⟩ := Option.bind_eq_some_iff.mp h
    exact .head (hg s l hcheck) hs (ih hrun)

/-- A run whose last state passes a test reaches a state that passes it. -/
theorem exists_reaches_of_run {check : σ → ι → Bool} {ls : List ι} {p : σ → Bool}
    (hg : ∀ a l, check a l = true → guard a l) (h : (run step check s ls).any p = true) :
    ∃ t, Reaches step guard s t ∧ p t = true := by
  cases hrun : run step check s ls with
  | none =>
    rw [hrun] at h
    cases h
  | some t =>
    rw [hrun] at h
    exact ⟨t, reaches_of_run hg hrun, h⟩

/-! ## Runs and the steps they are made of -/

/-- The invariant rule for one run: what its checked steps preserve holds at its end. -/
theorem invariant_of_run {check : σ → ι → Bool} {ls : List ι} (h : run step check s ls = some t)
    (Inv : σ → Prop) (h0 : Inv s)
    (hstep : ∀ a l b, l ∈ ls → Inv a → check a l = true → step a l = some b → Inv b) : Inv t := by
  induction ls generalizing s with
  | nil =>
    cases h
    exact h0
  | cons l ls ih =>
    rw [run, Option.ite_none_right_eq_some] at h
    have ⟨hcheck, hrest⟩ := h
    have ⟨u, hs, hrun⟩ := Option.bind_eq_some_iff.mp hrest
    refine ih hrun (hstep s l u List.mem_cons_self h0 hcheck hs) fun a l' b hl' => ?_
    exact hstep a l' b (List.mem_cons_of_mem l hl')

theorem run_append {check : σ → ι → Bool} {ls ms : List ι} :
    run step check s (ls ++ ms) = (run step check s ls).bind fun t => run step check t ms := by
  induction ls generalizing s with
  | nil => rfl
  | cons l ls ih =>
    simp only [List.cons_append, run]
    split
    · cases step s l with
      | none => rfl
      | some s' => exact ih
    · rfl

theorem run_concat {check : σ → ι → Bool} {ls : List ι} {l : ι} :
    run step check s (ls ++ [l]) =
      (run step check s ls).bind fun t => if check t l then step t l else none := by
  rw [run_append]
  congr 1
  funext t
  simp only [run]
  cases step t l <;> rfl

/-- A run whose steps are not asked to meet anything. -/
abbrev follow (step : σ → ι → Option σ) : σ → List ι → Option σ :=
  run step fun _ _ => true

theorem follow_of_run {check : σ → ι → Bool} {ls : List ι} (h : run step check s ls = some t) :
    follow step s ls = some t := by
  induction ls generalizing s with
  | nil => exact h
  | cons l ls ih =>
    simp only [run, Option.ite_none_right_eq_some] at h
    obtain ⟨-, h⟩ := h
    obtain ⟨s', hs, hrun⟩ := Option.bind_eq_some_iff.mp h
    rw [follow, run, if_pos rfl, hs]
    exact ih hrun

/-- A run that passes a check ends where the same run ends without it. -/
theorem follow_run_eq {check : σ → ι → Bool} {ls : List ι} (h : run step check s ls = some u)
    (hf : follow step s ls = some t) : run step check s ls = some t := by
  rw [follow_of_run h, Option.some.injEq] at hf
  exact hf ▸ h

/-- A property that each step keeps exactly when the step passes a check holds after a run
exactly when all its steps pass. -/
theorem run_of_follow {P Inv : σ → Prop} {check : σ → ι → Bool} (hinv0 : Inv s) (hP0 : P s)
    (hinv : ∀ a l b, Inv a → step a l = some b → Inv b)
    (hstep : ∀ a l b, Inv a → step a l = some b → (P b ↔ P a ∧ check a l = true))
    {ls : List ι} (h : follow step s ls = some t) :
    Inv t ∧ (P t ↔ run step check s ls = some t) := by
  -- on the last label: the property before it is the property of the shorter run
  induction ls using List.reverseRecOn generalizing t with
  | nil =>
    cases h
    exact ⟨hinv0, iff_of_true hP0 rfl⟩
  | append_singleton ls l ih =>
    rw [follow, run_concat] at h
    obtain ⟨a, hrun, hlast⟩ := Option.bind_eq_some_iff.mp h
    rw [if_pos rfl] at hlast
    obtain ⟨ha, hPa⟩ := ih hrun
    refine ⟨hinv a l t ha hlast, ?_⟩
    rw [hstep a l t ha hlast, hPa, run_concat]
    constructor
    · rintro ⟨hchecked, hl⟩
      rw [hchecked, Option.bind_some, if_pos hl, hlast]
    · intro hchecked
      obtain ⟨b, hb, hl⟩ := Option.bind_eq_some_iff.mp hchecked
      have hsame : run step (fun _ _ => true) s ls = some b := follow_of_run hb
      rw [hrun, Option.some.injEq] at hsame
      subst hsame
      rw [Option.ite_none_right_eq_some] at hl
      exact ⟨hb, hl.1⟩

/-- The property holds in every state a run passes through. -/
def Throughout (step : σ → ι → Option σ) (P : σ → Prop) (s : σ) (ls : List ι) : Prop :=
  ∀ ms, ms <+: ls → ∀ a, follow step s ms = some a → P a

theorem throughout_concat {P : σ → Prop} {ls : List ι} {l : ι} :
    Throughout step P s (ls ++ [l]) ↔
      Throughout step P s ls ∧ ∀ a, follow step s (ls ++ [l]) = some a → P a := by
  constructor
  · intro h
    exact ⟨fun ms hms => h ms (hms.trans (List.prefix_append _ _)), h _ List.prefix_rfl⟩
  · rintro ⟨h, hlast⟩ ms hms
    -- a prefix is the whole run, or one of the shorter run
    cases List.prefix_concat_iff.mp hms with
    | inl heq => exact heq ▸ hlast
    | inr hpre => exact h ms hpre

/-- What each step keeps while a property holds, a run throughout which it holds keeps. -/
theorem Throughout.invariant {P Inv : σ → Prop} {ls : List ι} (h : Throughout step P s ls)
    (hrun : follow step s ls = some t) (h0 : Inv s)
    (hstep : ∀ a l b, Inv a → P a → step a l = some b → Inv b) : Inv t := by
  induction ls using List.reverseRecOn generalizing t with
  | nil =>
    cases hrun
    exact h0
  | append_singleton ls l ih =>
    rw [throughout_concat] at h
    rw [follow, run_concat] at hrun
    obtain ⟨a, hbefore, hlast⟩ := Option.bind_eq_some_iff.mp hrun
    rw [if_pos rfl] at hlast
    exact hstep a l t (ih h.1 hbefore) (h.1 ls List.prefix_rfl a hbefore) hlast

theorem throughout_iff_inits {P : σ → Prop} {ls : List ι} :
    Throughout step P s ls ↔ ∀ ms ∈ ls.inits, ∀ a ∈ follow step s ms, P a := by
  unfold Throughout
  simp only [List.mem_inits, Option.mem_def]

/-- A property that a step brings about exactly when it passes a check, from the states that
checked runs reach, holds throughout a run exactly when all its steps pass. -/
theorem run_iff_throughout {P Inv : σ → Prop} {check : σ → ι → Bool} (hinv0 : Inv s) (hP0 : P s)
    (hinv : ∀ a l b, Inv a → check a l = true → step a l = some b → Inv b)
    (hstep : ∀ a l b, Inv a → step a l = some b → (P b ↔ check a l = true))
    {ls : List ι} (h : follow step s ls = some t) :
    Throughout step P s ls ↔ run step check s ls = some t := by
  -- the invariant is only known along checked runs
  have hreached : ∀ ms a, run step check s ms = some a → Inv a := fun ms a hrun =>
    (reaches_of_run (fun _ _ hl => hl) hrun).invariant Inv hinv0 hinv
  -- the last label is judged in the state the shorter run reaches, so the induction is on the end
  -- of the run
  induction ls using List.reverseRecOn generalizing t with
  | nil =>
    cases h
    refine iff_of_true (fun ms hms a ha => ?_) rfl
    rw [List.prefix_nil.mp hms] at ha
    cases ha
    exact hP0
  | append_singleton ls l ih =>
    rw [throughout_concat, h]
    rw [follow, run_concat] at h
    obtain ⟨a, hrun, hlast⟩ := Option.bind_eq_some_iff.mp h
    rw [if_pos rfl] at hlast
    have hbefore : Throughout step P s ls ↔ run step check s ls = some a := ih hrun
    rw [hbefore, run_concat]
    constructor
    · rintro ⟨hchecked, hPt⟩
      have hl := (hstep a l t (hreached ls a hchecked) hlast).mp (hPt t rfl)
      rw [hchecked, Option.bind_some, if_pos hl, hlast]
    · intro hchecked
      obtain ⟨b, hb, hl⟩ := Option.bind_eq_some_iff.mp hchecked
      rw [Option.ite_none_right_eq_some] at hl
      have hsame : run step (fun _ _ => true) s ls = some b := follow_of_run hb
      rw [hrun, Option.some.injEq] at hsame
      subst hsame
      refine ⟨hb, fun c hc => ?_⟩
      cases hc
      exact (hstep a l t (hreached ls a hb) hlast).mpr hl.1

end Transition
