import Wallow.Identity.Mfa
import Wallow.Lib.RowStore
import Wallow.Lib.Transition
import Mathlib.Data.List.Perm.Basic

/-!
# Backup codes redeemed at the same time

`ValidateBackupCodeAsync`, cut at its read of the user and at `UpdateAsync`, which saves under the
concurrency stamp the call read.  A save that loses comes back as a failed result, which the
service does not look at: it answers `true` all the same.
-/

namespace Wallow.Identity

open Transition RowStore

/-- Where a call stands. -/
inductive RedeemStage
  | start
  /-- The code matched; `UpdateAsync` is next. -/
  | saving (read : Row WallowUser) (remaining : List String)
  | answered (accepted : Bool)
  deriving DecidableEq

/-- The user's row with its concurrency stamp, the calls running on it, and the hashes accepted so
far, in the order of the answers. -/
structure RedeemDb where
  row : Row WallowUser
  nextStamp : Nat
  stage : Nat → RedeemStage
  accepted : List String

inductive RedeemMove
  /-- The next database call of a redemption; `valid` is what the validators of `UpdateAsync`
  say. -/
  | act (p : Nat) (valid : Bool)
  /-- Another service saves the user and leaves the backup codes as they are. -/
  | touch (user : WallowUser)

namespace RedeemDb

def initial (row : Row WallowUser) : RedeemDb :=
  ⟨row, row.version + 1, fun _ => .start, []⟩

/-- The stored hashes; a user without any has none to redeem. -/
def stored (s : RedeemDb) : List String :=
  s.row.value.backupCodesHash.getD []

/-- `UpdateAsync` writes the user under the stamp it was read with. -/
def saves (s : RedeemDb) (read : Row WallowUser) (valid : Bool) : Bool :=
  valid && s.row.version == read.version

variable (platform : Platform) (codes : Nat → String)

def step (s : RedeemDb) : RedeemMove → Option RedeemDb
  | .act p valid =>
    match s.stage p with
    | .start =>
      match platform.redeemBackupCode s.row.value (codes p) with
      | none => some { s with stage := Function.update s.stage p (.answered false) }
      | some remaining =>
        some { s with stage := Function.update s.stage p (.saving s.row remaining) }
    | .saving read remaining =>
      let stage := Function.update s.stage p (.answered true)
      let accepted := s.accepted ++ [platform.sha256Hex (codes p)]
      if s.saves read valid then
        some { s with
          row := ⟨read.value.setBackupCodes remaining, s.nextStamp⟩
          nextStamp := s.nextStamp + 1
          stage := stage
          accepted := accepted }
      else some { s with stage := stage, accepted := accepted }
    | .answered _ => none
  | .touch user =>
    some { s with
      row := ⟨{ user with backupCodesHash := s.row.value.backupCodesHash }, s.nextStamp⟩
      nextStamp := s.nextStamp + 1 }

/-- Every save goes through. -/
def savesCommit (s : RedeemDb) : RedeemMove → Bool
  | .act p valid =>
    match s.stage p with
    | .saving read _ => s.saves read valid
    | _ => true
  | .touch _ => true

/-- What is stored is the initial list without exactly the codes accepted, each taken out once. -/
def Accounted (codes : List String) (s : RedeemDb) : Prop :=
  (s.accepted ++ s.stored).Perm codes

/-! ## Invariant -/

theorem redeemBackupCode_eq_some {platform : Platform} {user : WallowUser} {code : String}
    {remaining : List String} (h : platform.redeemBackupCode user code = some remaining) :
    platform.sha256Hex code ∈ user.backupCodesHash.getD [] ∧
      remaining = (user.backupCodesHash.getD []).erase (platform.sha256Hex code) := by
  unfold Platform.redeemBackupCode at h
  cases hhash : user.backupCodesHash with
  | none =>
    rw [hhash] at h
    cases h
  | some hashes =>
    simp only [hhash, Option.ite_none_right_eq_some, Option.some.injEq] at h
    exact ⟨h.1, h.2.symm⟩

/-- A call about to save took its code off the list it read; while its stamp is current, that is
the list stored. -/
structure Redeeming (initialCodes : List String) (s : RedeemDb) : Prop where
  stamp : s.row.version < s.nextStamp
  saving : ∀ p read remaining, s.stage p = .saving read remaining →
    read.version < s.nextStamp ∧ (read.version = s.row.version → read.value = s.row.value) ∧
      platform.redeemBackupCode read.value (codes p) = some remaining
  -- no answer takes a code away without one that was there
  length : initialCodes.length ≤ s.accepted.length + s.stored.length

variable {platform codes} {initialCodes : List String} {s s' : RedeemDb}

theorem redeeming_initial (row : Row WallowUser) :
    Redeeming platform codes (initial row).stored (initial row) where
  stamp := Nat.lt_succ_self _
  saving _ _ _ h := by cases h
  length := by simp [initial]

/-- A stage that saves is an old one, or the one the update put there. -/
theorem saving_update {stages : Nat → RedeemStage} {p q : Nat} {stage : RedeemStage}
    {read : Row WallowUser} {remaining : List String}
    (h : Function.update stages p stage q = .saving read remaining) :
    (q = p ∧ stage = .saving read remaining) ∨ stages q = .saving read remaining := by
  by_cases hq : q = p
  · subst hq
    rw [Function.update_self] at h
    exact Or.inl ⟨rfl, h⟩
  · rw [Function.update_of_ne hq] at h
    exact Or.inr h

/-- What a save that goes through leaves stored: the list it found, less the code. -/
theorem Redeeming.stored_save (h : Redeeming platform codes initialCodes s) {p : Nat}
    {read : Row WallowUser} {remaining : List String} {valid : Bool}
    (hstage : s.stage p = .saving read remaining) (hsaves : s.saves read valid = true) :
    platform.sha256Hex (codes p) ∈ s.stored ∧
      remaining = s.stored.erase (platform.sha256Hex (codes p)) := by
  obtain ⟨-, hcurrent, hredeem⟩ := h.saving p read remaining hstage
  simp only [saves, Bool.and_eq_true, beq_iff_eq] at hsaves
  rw [hcurrent hsaves.2.symm] at hredeem
  exact redeemBackupCode_eq_some hredeem

theorem Redeeming.step {m : RedeemMove} (h : Redeeming platform codes initialCodes s)
    (hs : step platform codes s m = some s') : Redeeming platform codes initialCodes s' := by
  have hstamp := h.stamp
  cases m with
  | touch user =>
    cases hs
    refine ⟨Nat.lt_succ_self _, fun p read remaining hstage => ?_, h.length⟩
    obtain ⟨hlt, -, hredeem⟩ := h.saving p read remaining hstage
    exact ⟨by simp only; omega, fun heq => by simp only at heq; omega, hredeem⟩
  | act p valid =>
    simp only [RedeemDb.step] at hs
    split at hs
    · split at hs
      · cases hs
        refine ⟨hstamp, fun q read remaining hstage => ?_, h.length⟩
        obtain ⟨-, hnew⟩ | hold := saving_update hstage
        · cases hnew
        · exact h.saving q read remaining hold
      · rename_i remaining hredeem
        cases hs
        refine ⟨hstamp, fun q read remaining' hstage => ?_, h.length⟩
        obtain ⟨rfl, hnew⟩ | hold := saving_update hstage
        · cases hnew
          exact ⟨hstamp, fun _ => rfl, hredeem⟩
        · exact h.saving q read remaining' hold
    · rename_i read remaining hstage
      have hlength := h.length
      split at hs
      · rename_i hsaves
        cases hs
        obtain ⟨hmem, hremaining⟩ := h.stored_save hstage hsaves
        refine ⟨Nat.lt_succ_self _, fun q read' remaining' hstage' => ?_, ?_⟩
        · obtain ⟨-, hnew⟩ | hold := saving_update hstage'
          · cases hnew
          · obtain ⟨hlt, -, hredeem⟩ := h.saving q read' remaining' hold
            exact ⟨by simp only; omega, fun heq => by simp only at heq; omega, hredeem⟩
        · have hpos := List.length_pos_of_mem hmem
          have herase := List.length_erase_of_mem hmem
          simp only [stored, WallowUser.setBackupCodes, Option.getD_some, List.length_append,
            List.length_singleton, hremaining] at hlength hpos herase ⊢
          omega
      · cases hs
        refine ⟨hstamp, fun q read' remaining' hstage' => ?_, ?_⟩
        · obtain ⟨-, hnew⟩ | hold := saving_update hstage'
          · cases hnew
          · exact h.saving q read' remaining' hold
        · simp only [stored, List.length_append, List.length_singleton] at hlength ⊢
          omega
    · cases hs

/-- A step keeps the account exactly when its save, if it makes one, goes through. -/
theorem Redeeming.accounted_step {m : RedeemMove} (h : Redeeming platform codes initialCodes s)
    (hs : RedeemDb.step platform codes s m = some s') :
    Accounted initialCodes s' ↔ Accounted initialCodes s ∧ s.savesCommit m = true := by
  cases m with
  | touch user =>
    cases hs
    exact (and_iff_left rfl).symm
  | act p valid =>
    simp only [RedeemDb.step] at hs
    split at hs
    · rename_i hstage
      have hquiet : s.savesCommit (.act p valid) = true := by simp [savesCommit, hstage]
      rw [hquiet]
      split at hs
      · cases hs
        exact (and_iff_left rfl).symm
      · cases hs
        exact (and_iff_left rfl).symm
    · rename_i read remaining hstage
      have hcommit : s.savesCommit (.act p valid) = s.saves read valid := by
        simp [savesCommit, hstage]
      rw [hcommit]
      split at hs
      · rename_i hsaves
        cases hs
        obtain ⟨hmem, hremaining⟩ := h.stored_save hstage hsaves
        rw [hsaves, and_iff_left rfl, Accounted, Accounted]
        simp only [stored, WallowUser.setBackupCodes, Option.getD_some, List.append_assoc,
          List.singleton_append]
        have hback : (platform.sha256Hex (codes p) :: remaining).Perm s.stored := by
          rw [hremaining]
          exact (List.perm_cons_erase hmem).symm
        have hperm := hback.append_left s.accepted
        exact ⟨fun hall => hperm.symm.trans hall, fun hall => hperm.trans hall⟩
      · rename_i hlost
        cases hs
        refine iff_of_false (fun hperm => ?_) fun hall => hlost hall.2
        -- one more answer, and nothing taken off the list
        have hlength := h.length
        have hsum := hperm.length_eq
        simp only [stored, List.length_append, List.length_singleton] at hlength hsum
        omega
    · cases hs

/-! ## Runs -/

theorem Accounted.nodup (h : Accounted initialCodes s) (hnodup : initialCodes.Nodup) :
    s.accepted.Nodup :=
  (List.nodup_append.mp (h.nodup_iff.mpr hnodup)).1

/-- In every run on a user's row, the stored list is the initial one without exactly the codes
accepted, each by one call, exactly when every save of the run goes through. -/
theorem accounted_run_iff (platform : Platform) (codes : Nat → String) (row : Row WallowUser)
    (moves : List RedeemMove) (s : RedeemDb)
    (h : follow (step platform codes) (initial row) moves = some s) :
    (Accounted (initial row).stored s ∧ ((initial row).stored.Nodup → s.accepted.Nodup)) ↔
      run (step platform codes) savesCommit (initial row) moves = some s := by
  have hrun := (run_of_follow (redeeming_initial row) (P := Accounted (initial row).stored)
    (List.Perm.refl _) (fun _ _ _ hinv hs => hinv.step hs)
    (fun _ _ _ hinv hs => hinv.accounted_step hs) h).2
  rw [← hrun]
  exact ⟨fun hall => hall.1, fun haccounted => ⟨haccounted, haccounted.nodup⟩⟩

/-! ## One code presented twice -/

def printedCode : String := "0123-4567-89ab-cdef"

/-- A user with one backup code left. -/
def oneCodeLeft : Row WallowUser :=
  ⟨ann.setBackupCodes [samplePlatform.sha256Hex printedCode], 0⟩

/-- One call after the other: the second finds no code. -/
theorem accounted_run_iff_inTurn :
    let s := (follow (step samplePlatform fun _ => printedCode) (initial oneCodeLeft)
      [.act 0 true, .act 0 true, .act 1 true]).get (by decide +kernel)
    Accounted [samplePlatform.sha256Hex printedCode] s ∧ s.stage 1 = .answered false := by
  intro s
  refine ⟨?_, by decide +kernel⟩
  have hrun : (run (step samplePlatform fun _ => printedCode) savesCommit (initial oneCodeLeft)
      [.act 0 true, .act 0 true, .act 1 true]).isSome := by decide +kernel
  exact ((accounted_run_iff samplePlatform (fun _ => printedCode) oneCodeLeft
    [.act 0 true, .act 0 true, .act 1 true] s (Option.some_get _).symm).mpr
      (follow_run_eq (Option.some_get hrun).symm (Option.some_get _).symm)).1

/-- Two calls read the user before either saves: both answer `true` for the one code. -/
theorem backup_code_accepted_twice :
    ∃ s, Reachable (step samplePlatform fun _ => printedCode) (initial oneCodeLeft) s ∧
      s.stage 0 = .answered true ∧ s.stage 1 = .answered true ∧
      (initial oneCodeLeft).stored = [samplePlatform.sha256Hex printedCode] ∧ s.stored = [] := by
  have hrun : (follow (step samplePlatform fun _ => printedCode) (initial oneCodeLeft)
      [.act 0 true, .act 1 true, .act 0 true, .act 1 true]).any (fun s =>
        decide (s.stage 0 = .answered true) && decide (s.stage 1 = .answered true) &&
          decide (s.stored = [])) = true := by decide +kernel
  obtain ⟨s, hreach, hs⟩ := exists_reaches_of_run (fun _ _ _ => trivial) hrun
  simp only [Bool.and_eq_true, decide_eq_true_eq] at hs
  exact ⟨s, hreach, hs.1.1, hs.1.2, rfl, hs.2⟩

end RedeemDb

end Wallow.Identity
