import Mathlib.Logic.Relation
import Mathlib.Order.Lattice
import Mathlib.Data.Set.Insert

/-!
# Names that move forward

Versions come out one after the other and each of them covers some names.  A run takes one version
and points the names of it at it, those that no higher version covered when the run began.  Runs
do not overlap, but they come in any order, stop anywhere and are taken up again.
-/

namespace ForwardNames

variable {ρ α ν : Type*} [LinearOrder ν]

/-- What is published: which names it covers, and its place in the order. -/
structure Versions (ρ α ν : Type*) where
  covers : ρ → α → Prop
  version : ρ → ν

structure State (ρ α ν : Type*) where
  listing : Set ρ
  names : α → Option ν
  running : Option (ρ × List α)
  done : Set ρ

/-- A higher version of the listing covers the name too. -/
def Outranked (versions : Versions ρ α ν) (listing : Set ρ) (release : ρ) (name : α) : Prop :=
  ∃ other ∈ listing, versions.covers other name ∧ versions.version release < versions.version other

/-- The names are those of the release that are its own. -/
def Owned (versions : Versions ρ α ν) (listing : Set ρ) (release : ρ) (todo : List α) : Prop :=
  ∀ name, name ∈ todo ↔
    versions.covers release name ∧ ¬Outranked versions listing release name

inductive Step (versions : Versions ρ α ν) : State ρ α ν → State ρ α ν → Prop
  | grow (s : State ρ α ν) (listing : Set ρ) (hgrow : s.listing ⊆ listing) :
    Step versions s { s with listing }
  | start (s : State ρ α ν) (release : ρ) (todo : List α) (hidle : s.running = none)
    (hlisted : release ∈ s.listing) (howned : Owned versions s.listing release todo) :
    Step versions s { s with running := some (release, todo) }
  | point (s : State ρ α ν) (release : ρ) (name : α) (todo : List α) (names : α → Option ν)
    (hrunning : s.running = some (release, name :: todo))
    (hname : names name = some (versions.version release))
    (hothers : ∀ other, other ≠ name → names other = s.names other) :
    Step versions s { s with names, running := some (release, todo) }
  | pass (s : State ρ α ν) (release : ρ) (name : α) (todo : List α) (version : ν)
    (hrunning : s.running = some (release, name :: todo)) (hname : s.names name = some version)
    (hhigher : versions.version release < version) :
    Step versions s { s with running := some (release, todo) }
  | stop (s : State ρ α ν) : Step versions s { s with running := none }
  | finish (s : State ρ α ν) (release : ρ) (hrunning : s.running = some (release, [])) :
    Step versions s { s with running := none, done := insert release s.done }

/-- The name is at the release or beyond it, or is left to a higher version. -/
def Settled (versions : Versions ρ α ν) (s : State ρ α ν) (release : ρ) (name : α) : Prop :=
  Outranked versions s.listing release name ∨
    ∃ version, s.names name = some version ∧ versions.version release ≤ version

structure Invariant (versions : Versions ρ α ν) (s : State ρ α ν) : Prop where
  /-- A name points at a version that covers it. -/
  sound : ∀ name version, s.names name = some version →
    ∃ release ∈ s.listing, versions.covers release name ∧ versions.version release = version
  /-- The names that a run has still to point are no further than its release. -/
  ahead : ∀ release todo, s.running = some (release, todo) → release ∈ s.listing ∧
    ∀ name ∈ todo, versions.covers release name ∧
      ∀ version, s.names name = some version → version ≤ versions.version release
  taken : ∀ release todo, s.running = some (release, todo) →
    ∀ name, versions.covers release name → name ∈ todo ∨ Settled versions s release name
  done : ∀ release ∈ s.done, ∀ name, versions.covers release name →
    Settled versions s release name

variable {versions : Versions ρ α ν} {s s' : State ρ α ν} {release : ρ} {name : α}

/-- Names that no run has touched. -/
theorem invariant_of_fresh (hnames : ∀ name, s.names name = none) (hidle : s.running = none)
    (hdone : s.done = ∅) : Invariant versions s := by
  constructor
  · intro name version hname
    rw [hnames] at hname
    cases hname
  · intro release todo hrunning
    rw [hidle] at hrunning
    cases hrunning
  · intro release todo hrunning
    rw [hidle] at hrunning
    cases hrunning
  · intro release hmem
    rw [hdone] at hmem
    exact absurd hmem (Set.notMem_empty release)

/-- A step takes no name back. -/
theorem Step.forward (hinv : Invariant versions s) (hstep : Step versions s s') {version : ν}
    (hname : s.names name = some version) :
    ∃ version', s'.names name = some version' ∧ version ≤ version' := by
  cases hstep with
  | grow listing hgrow => exact ⟨version, hname, le_rfl⟩
  | start release todo hidle hlisted howned => exact ⟨version, hname, le_rfl⟩
  | point release pointed todo names hrunning hpointed hothers =>
    by_cases heq : name = pointed
    · have hahead := (hinv.ahead release _ hrunning).2 pointed List.mem_cons_self
      exact ⟨_, heq ▸ hpointed, hahead.2 version (heq ▸ hname)⟩
    · exact ⟨version, (hothers name heq).trans hname, le_rfl⟩
  | pass release pointed todo higher hrunning hpointed hhigher => exact ⟨version, hname, le_rfl⟩
  | stop => exact ⟨version, hname, le_rfl⟩
  | finish release hrunning => exact ⟨version, hname, le_rfl⟩

theorem Step.listing_subset (hstep : Step versions s s') : s.listing ⊆ s'.listing := by
  cases hstep with
  | grow listing hgrow => exact hgrow
  | start release todo hidle hlisted howned => exact Set.Subset.rfl
  | point release pointed todo names hrunning hpointed hothers => exact Set.Subset.rfl
  | pass release pointed todo higher hrunning hpointed hhigher => exact Set.Subset.rfl
  | stop => exact Set.Subset.rfl
  | finish release hrunning => exact Set.Subset.rfl

theorem Settled.step (hinv : Invariant versions s) (hstep : Step versions s s')
    (h : Settled versions s release name) : Settled versions s' release name := by
  cases h with
  | inl houtranked =>
    have ⟨other, hother, hcovers, hlt⟩ := houtranked
    exact Or.inl ⟨other, hstep.listing_subset hother, hcovers, hlt⟩
  | inr hnamed =>
    have ⟨version, hname, hle⟩ := hnamed
    have ⟨version', hname', hle'⟩ := hstep.forward hinv hname
    exact Or.inr ⟨version', hname', hle.trans hle'⟩

/-- The names of a run that has just begun are no further than its release. -/
theorem Invariant.owned_le (hinv : Invariant versions s) {todo : List α}
    (howned : Owned versions s.listing release todo) (hmem : name ∈ todo) {version : ν}
    (hname : s.names name = some version) : version ≤ versions.version release := by
  have ⟨other, hother, hcovers, hversion⟩ := hinv.sound name version hname
  have hnot := ((howned name).mp hmem).2
  apply le_of_not_gt
  intro hgt
  exact hnot ⟨other, hother, hcovers, hversion.symm ▸ hgt⟩

theorem Invariant.step (hinv : Invariant versions s) (hstep : Step versions s s') :
    Invariant versions s' := by
  have hsettled : ∀ {release name}, Settled versions s release name →
      Settled versions s' release name := fun h => h.step hinv hstep
  cases hstep with
  | grow listing hgrow =>
    constructor
    · intro name version hname
      have ⟨release, hlisted, hcovers⟩ := hinv.sound name version hname
      exact ⟨release, hgrow hlisted, hcovers⟩
    · intro release todo hrunning
      have ⟨hlisted, htodo⟩ := hinv.ahead release todo hrunning
      exact ⟨hgrow hlisted, htodo⟩
    · exact fun release todo hrunning name hcovers =>
        (hinv.taken release todo hrunning name hcovers).imp_right hsettled
    · exact fun release hdone name hcovers => hsettled (hinv.done release hdone name hcovers)
  | start release todo hidle hlisted howned =>
    constructor
    · exact hinv.sound
    · intro own todo' hrunning
      cases hrunning
      exact ⟨hlisted, fun name hmem => ⟨((howned name).mp hmem).1, fun version hname =>
        hinv.owned_le howned hmem hname⟩⟩
    · intro own todo' hrunning name hcovers
      cases hrunning
      by_cases houtranked : Outranked versions s.listing release name
      · exact Or.inr (Or.inl houtranked)
      · exact Or.inl ((howned name).mpr ⟨hcovers, houtranked⟩)
    · exact hinv.done
  | point release pointed todo names hrunning hpointed hothers =>
    have ⟨hlisted, htodo⟩ := hinv.ahead release _ hrunning
    constructor
    · intro name version hname
      by_cases heq : name = pointed
      · rw [heq] at hname ⊢
        exact ⟨release, hlisted, (htodo pointed List.mem_cons_self).1,
          Option.some.inj (hpointed.symm.trans hname)⟩
      · exact hinv.sound name version ((hothers name heq).symm.trans hname)
    · intro own todo' hown
      cases hown
      apply And.intro hlisted
      intro name hmem
      have ⟨hcovers, hle⟩ := htodo name (List.mem_cons_of_mem pointed hmem)
      apply And.intro hcovers
      intro version hname
      by_cases heq : name = pointed
      · rw [heq] at hname
        exact (Option.some.inj (hname.symm.trans hpointed)).le
      · exact hle version ((hothers name heq).symm.trans hname)
    · intro own todo' hown name hcovers
      cases hown
      cases hinv.taken release _ hrunning name hcovers with
      | inl hmem =>
        cases List.mem_cons.mp hmem with
        | inl heq => exact Or.inr (Or.inr ⟨_, heq ▸ hpointed, le_rfl⟩)
        | inr htail => exact Or.inl htail
      | inr hsettled' => exact Or.inr (hsettled hsettled')
    · exact fun release hdone name hcovers => hsettled (hinv.done release hdone name hcovers)
  | pass release pointed todo higher hrunning hpointed hhigher =>
    have ⟨hlisted, htodo⟩ := hinv.ahead release _ hrunning
    constructor
    · exact hinv.sound
    · intro own todo' hown
      cases hown
      exact ⟨hlisted, fun name hmem => htodo name (List.mem_cons_of_mem pointed hmem)⟩
    · intro own todo' hown name hcovers
      cases hown
      cases hinv.taken release _ hrunning name hcovers with
      | inl hmem =>
        cases List.mem_cons.mp hmem with
        | inl heq => exact Or.inr (Or.inr ⟨higher, heq ▸ hpointed, hhigher.le⟩)
        | inr htail => exact Or.inl htail
      | inr hsettled' => exact Or.inr hsettled'
    · exact hinv.done
  | stop =>
    constructor
    · exact hinv.sound
    · intro own todo hown
      cases hown
    · intro own todo hown
      cases hown
    · exact hinv.done
  | finish release hrunning =>
    constructor
    · exact hinv.sound
    · intro own todo hown
      cases hown
    · intro own todo hown
      cases hown
    · intro own hdone name hcovers
      cases Set.mem_insert_iff.mp hdone with
      | inl heq =>
        cases hinv.taken release [] hrunning name (heq ▸ hcovers) with
        | inl hmem => exact absurd hmem List.not_mem_nil
        | inr hsettled' => exact heq ▸ hsettled'
      | inr hold => exact hinv.done own hold name hcovers

/-- Once the highest version that covers a name is done, the name points at it. -/
theorem Invariant.highest (hinv : Invariant versions s) (hdone : release ∈ s.done)
    (hcovers : versions.covers release name)
    (htop : ∀ other ∈ s.listing, versions.covers other name →
      versions.version other ≤ versions.version release) :
    s.names name = some (versions.version release) := by
  cases hinv.done release hdone name hcovers with
  | inl houtranked =>
    have ⟨other, hother, hcovers', hlt⟩ := houtranked
    exact absurd (htop other hother hcovers') (not_le.mpr hlt)
  | inr hnamed =>
    have ⟨version, hname, hle⟩ := hnamed
    have ⟨other, hother, hcovers', hversion⟩ := hinv.sound name version hname
    have hle' := htop other hother hcovers'
    rw [hname, le_antisymm (hversion ▸ hle') hle]

end ForwardNames
