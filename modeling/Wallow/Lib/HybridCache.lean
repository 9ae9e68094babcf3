import Wallow.Lib.Expiring
import Wallow.Lib.Transition
import Mathlib.Data.List.Nodup
import Mathlib.Data.List.Perm.Basic

/-!
# A cache with a local and a shared level

Processes look an entry up in their own cache and then in a shared one, and run a factory where
neither has it.  Within a process, the callers of one key share one flight.  A factory's result
is written to both caches after it ran, so two processes may run the factory of one key.
-/

namespace HybridCache

/-- The way of a flight: before it has read the shared cache, and what came of that. -/
inductive Stage
  | looking
  | found
  | created
  deriving DecidableEq

structure Flight (κ : Type*) where
  process : Nat
  key : κ
  stage : Stage

structure State (κ : Type*) where
  now : Int
  locals : Nat → ExpiringMap κ Unit
  shared : ExpiringMap κ Unit
  flights : List (Flight κ)
  /-- The callers that wait for a flight of their process. -/
  joined : List (Nat × κ)
  /-- The writes of the shared cache that are still to come. -/
  writes : List κ
  /-- The keys whose entry the shared cache dropped. -/
  evicted : List κ
  /-- The factory runs, the latest first. -/
  created : List κ
  /-- The answered callers, and whether it was their factory that ran. -/
  answers : List (κ × Bool)

inductive Move (κ : Type*)
  | call (process : Nat) (key : κ)
  /-- A flight reads the shared cache, and runs its factory where there is no entry. -/
  | look (index : Nat)
  /-- A flight ends: its process keeps the result and answers the callers. -/
  | release (index : Nat)
  | share (index : Nat)
  | evictLocal (process : Nat) (key : κ)
  | evictShared (key : κ)
  | wait (until_ : Int)

variable {κ : Type*}

def initial : State κ := ⟨0, fun _ => .empty, .empty, [], [], [], [], [], []⟩

def Flight.created? (flight : Flight κ) : Option κ :=
  match flight.stage with
  | .created => some flight.key
  | _ => none

namespace State

/-- The keys whose factory ran in a flight that has not ended. -/
def creating (s : State κ) : List κ := s.flights.filterMap Flight.created?

/-- The keys of the callers whose factory ran. -/
def creators (s : State κ) : List κ :=
  s.answers.filterMap fun answer => if answer.2 then some answer.1 else none

variable [DecidableEq κ]

def call (s : State κ) (process : Nat) (key : κ) : State κ :=
  if ((s.locals process).lookup s.now key).isSome then
    { s with answers := (key, false) :: s.answers }
  else if s.flights.any fun flight => flight.process = process && flight.key = key then
    { s with joined := (process, key) :: s.joined }
  else { s with flights := ⟨process, key, .looking⟩ :: s.flights }

def look (s : State κ) (index : Nat) (flight : Flight κ) : State κ :=
  if (s.shared.lookup s.now flight.key).isSome then
    { s with flights := s.flights.set index { flight with stage := .found } }
  else
    { s with
      flights := s.flights.set index { flight with stage := .created }
      created := flight.key :: s.created }

def release (lifetime : Int) (s : State κ) (index : Nat) (flight : Flight κ) : State κ :=
  let own := (flight.process, flight.key)
  { s with
    locals := Function.update s.locals flight.process
      ((s.locals flight.process).put flight.key () (some (s.now + lifetime)))
    flights := s.flights.eraseIdx index
    joined := s.joined.filter (· ≠ own)
    writes := flight.created?.toList ++ s.writes
    answers := (flight.key, decide (flight.stage = .created)) ::
      ((s.joined.filter (· = own)).map fun caller => (caller.2, false)) ++ s.answers }

def share (lifetime : Int) (s : State κ) (index : Nat) (key : κ) : State κ :=
  { s with
    shared := s.shared.put key () (some (s.now + lifetime))
    writes := s.writes.eraseIdx index }

def evictShared (s : State κ) (key : κ) : State κ :=
  if (s.shared key).isSome then
    { s with shared := s.shared.erase key, evicted := key :: s.evicted }
  else s

end State

variable [DecidableEq κ]

def step (lifetime : Int) (s : State κ) : Move κ → Option (State κ)
  | .call process key => some (s.call process key)
  | .look index =>
    match s.flights[index]? with
    | some flight => if flight.stage = .looking then some (s.look index flight) else none
    | none => none
  | .release index =>
    match s.flights[index]? with
    | some flight =>
      if flight.stage = .looking then none else some (s.release lifetime index flight)
    | none => none
  | .share index => (s.writes[index]?).map fun key => s.share lifetime index key
  | .evictLocal process key =>
    some { s with locals := Function.update s.locals process ((s.locals process).erase key) }
  | .evictShared key => some (s.evictShared key)
  | .wait until_ => if s.now ≤ until_ then some { s with now := until_ } else none

/-- Where the shared cache misses an entry, no factory has run for it elsewhere with its write still
to come, and the entry was neither dropped nor has lapsed. -/
def firstLook (s : State κ) : Move κ → Bool
  | .look index =>
    match s.flights[index]? with
    | some flight =>
      (s.shared.lookup s.now flight.key).isSome ||
        (flight.key ∉ s.creating && flight.key ∉ s.writes && flight.key ∉ s.evicted &&
          (s.shared flight.key).isNone)
    | none => true
  | _ => true

/-- What became of the factory runs. -/
structure Coherent (s : State κ) : Prop where
  created_iff : ∀ key, key ∈ s.created ↔
    key ∈ s.creating ∨ key ∈ s.writes ∨ key ∈ s.evicted ∨ (s.shared key).isSome = true
  tally : (s.creators ++ s.creating).Perm s.created

omit [DecidableEq κ] in
theorem coherent_initial : Coherent (initial : State κ) where
  created_iff key := by simp [initial, State.creating, ExpiringMap.empty]
  tally := List.Perm.nil

variable {lifetime : Int} {s s' : State κ}

omit [DecidableEq κ] in
/-- A step that leaves factory runs, writes and the shared cache alone. -/
theorem Coherent.of_same (h : Coherent s) (hcreating : s'.creating.Perm s.creating)
    (hwrites : s'.writes = s.writes) (hevicted : s'.evicted = s.evicted)
    (hshared : s'.shared = s.shared) (hcreated : s'.created = s.created)
    (hcreators : s'.creators = s.creators) : Coherent s' where
  created_iff key := by
    rw [hcreated, hwrites, hevicted, hshared, hcreating.mem_iff]
    exact h.created_iff key
  tally := by
    rw [hcreators, hcreated]
    exact (hcreating.append_left s.creators).trans h.tally

omit [DecidableEq κ] in
/-- The flights before one of them is changed or ended. -/
theorem creating_perm {index : Nat} {flight : Flight κ} (h : s.flights[index]? = some flight) :
    s.creating.Perm (flight.created?.toList ++
      (s.flights.eraseIdx index).filterMap Flight.created?) := by
  obtain ⟨hlt, hflight⟩ := List.getElem?_eq_some_iff.mp h
  have hperm : s.flights.Perm (flight :: s.flights.eraseIdx index) := by
    rw [← hflight]
    exact (List.getElem_cons_eraseIdx_perm hlt).symm
  refine (hperm.filterMap Flight.created?).trans (List.Perm.of_eq ?_)
  rw [List.filterMap_cons]
  cases flight.created? <;> rfl

omit [DecidableEq κ] in
theorem set_creating_perm {index : Nat} {flight next : Flight κ}
    (h : s.flights[index]? = some flight) :
    ((s.flights.set index next).filterMap Flight.created?).Perm (next.created?.toList ++
      (s.flights.eraseIdx index).filterMap Flight.created?) := by
  obtain ⟨hlt, -⟩ := List.getElem?_eq_some_iff.mp h
  refine ((List.set_perm_cons_eraseIdx hlt next).filterMap Flight.created?).trans
    (List.Perm.of_eq ?_)
  rw [List.filterMap_cons]
  cases next.created? <;> rfl

theorem Coherent.call (h : Coherent s) (process : Nat) (key : κ) :
    Coherent (s.call process key) := by
  unfold State.call
  split
  · exact h.of_same (.refl _) rfl rfl rfl rfl rfl
  · split
    · exact h.of_same (.refl _) rfl rfl rfl rfl rfl
    · exact h.of_same (.refl _) rfl rfl rfl rfl rfl

omit [DecidableEq κ] in
theorem Coherent.look (h : Coherent s) {index : Nat} {flight : Flight κ}
    (hflight : s.flights[index]? = some flight) (hstage : flight.stage = .looking) :
    Coherent (s.look index flight) := by
  have hbefore := creating_perm hflight
  have hnone : flight.created? = none := by rw [Flight.created?, hstage]
  rw [hnone] at hbefore
  unfold State.look
  split
  · exact h.of_same ((set_creating_perm hflight).trans hbefore.symm) rfl rfl rfl rfl rfl
  · -- the factory runs
    have hafter : ((s.flights.set index { flight with stage := .created }).filterMap
        Flight.created?).Perm (flight.key :: s.creating) :=
      (set_creating_perm hflight).trans (hbefore.symm.cons flight.key)
    refine ⟨fun key => ?_, ?_⟩
    · show key ∈ flight.key :: s.created ↔ key ∈ List.filterMap _ _ ∨ _
      rw [List.mem_cons, hafter.mem_iff, List.mem_cons, h.created_iff key, or_assoc]
    · exact ((hafter.append_left s.creators).trans List.perm_middle).trans
        (h.tally.cons flight.key)

theorem Coherent.release (h : Coherent s) {index : Nat} {flight : Flight κ}
    (hflight : s.flights[index]? = some flight) : Coherent (s.release lifetime index flight) := by
  have hbefore := creating_perm hflight
  have hcreators : (s.release lifetime index flight).creators =
      flight.created?.toList ++ s.creators := by
    have hjoined : ∀ callers : List (Nat × κ),
        (callers.map fun caller => (caller.2, false)).filterMap
          (fun answer : κ × Bool => if answer.2 then some answer.1 else none) = [] := by
      intro callers
      rw [List.filterMap_map]
      exact List.filterMap_eq_nil_iff.mpr fun _ _ => rfl
    show List.filterMap _ (_ :: (_ ++ s.answers)) = _
    rw [List.filterMap_cons, List.filterMap_append, hjoined, List.nil_append]
    cases hstage : flight.stage <;> rw [Flight.created?, hstage] <;> rfl
  refine ⟨fun key => ?_, ?_⟩
  · show key ∈ s.created ↔ key ∈ List.filterMap _ (s.flights.eraseIdx index) ∨
      key ∈ flight.created?.toList ++ s.writes ∨ _
    rw [h.created_iff key, hbefore.mem_iff, List.mem_append, List.mem_append]
    tauto
  · rw [hcreators]
    refine List.Perm.trans ?_ h.tally
    refine List.Perm.trans ?_ (hbefore.symm.append_left s.creators)
    rw [← List.append_assoc]
    exact List.perm_append_comm.append_right _

theorem Coherent.share (h : Coherent s) {index : Nat} {key : κ}
    (hkey : s.writes[index]? = some key) : Coherent (s.share lifetime index key) := by
  obtain ⟨hlt, hget⟩ := List.getElem?_eq_some_iff.mp hkey
  have hperm : s.writes.Perm (key :: s.writes.eraseIdx index) := by
    rw [← hget]
    exact (List.getElem_cons_eraseIdx_perm hlt).symm
  refine ⟨fun other => ?_, h.tally⟩
  show other ∈ s.created ↔ other ∈ s.creating ∨ other ∈ s.writes.eraseIdx index ∨
    other ∈ s.evicted ∨ (s.shared.put key () (some (s.now + lifetime)) other).isSome = true
  rw [h.created_iff other, hperm.mem_iff, List.mem_cons]
  by_cases heq : other = key
  · subst heq
    rw [ExpiringMap.put_self]
    simp
  · rw [ExpiringMap.put_of_ne _ _ _ heq]
    tauto

theorem Coherent.evictShared (h : Coherent s) (key : κ) : Coherent (s.evictShared key) := by
  unfold State.evictShared
  split
  · rename_i hsome
    refine ⟨fun other => ?_, h.tally⟩
    show other ∈ s.created ↔ other ∈ s.creating ∨ other ∈ s.writes ∨ other ∈ key :: s.evicted ∨
      (s.shared.erase key other).isSome = true
    rw [h.created_iff other, List.mem_cons]
    by_cases heq : other = key
    · subst heq
      rw [ExpiringMap.erase_self]
      tauto
    · rw [ExpiringMap.erase_of_ne _ heq]
      tauto
  · exact h

theorem step_look {index : Nat} (hs : step lifetime s (.look index) = some s') :
    ∃ flight, s.flights[index]? = some flight ∧ flight.stage = .looking ∧
      s' = s.look index flight := by
  rw [step] at hs
  cases hflight : s.flights[index]? with
  | none =>
    rw [hflight] at hs
    cases hs
  | some flight =>
    rw [hflight] at hs
    dsimp only at hs
    rw [Option.ite_none_right_eq_some, Option.some.injEq] at hs
    exact ⟨flight, rfl, hs.1, hs.2.symm⟩

theorem step_release {index : Nat} (hs : step lifetime s (.release index) = some s') :
    ∃ flight, s.flights[index]? = some flight ∧ s' = s.release lifetime index flight := by
  rw [step] at hs
  cases hflight : s.flights[index]? with
  | none =>
    rw [hflight] at hs
    cases hs
  | some flight =>
    rw [hflight] at hs
    dsimp only at hs
    rw [Option.ite_none_left_eq_some, Option.some.injEq] at hs
    exact ⟨flight, rfl, hs.2.symm⟩

theorem Coherent.step {move : Move κ} (h : Coherent s) (hs : step lifetime s move = some s') :
    Coherent s' := by
  cases move with
  | call process key =>
    cases hs
    exact h.call process key
  | look index =>
    obtain ⟨flight, hflight, hstage, rfl⟩ := step_look hs
    exact h.look hflight hstage
  | release index =>
    obtain ⟨flight, hflight, rfl⟩ := step_release hs
    exact h.release hflight
  | share index =>
    obtain ⟨key, hkey, rfl⟩ := Option.map_eq_some_iff.mp hs
    exact h.share hkey
  | evictLocal process key =>
    cases hs
    exact h.of_same (.refl _) rfl rfl rfl rfl rfl
  | evictShared key =>
    cases hs
    exact h.evictShared key
  | wait until_ =>
    rw [HybridCache.step, Option.ite_none_right_eq_some] at hs
    obtain ⟨-, hs⟩ := hs
    cases hs
    exact h.of_same (.refl _) rfl rfl rfl rfl rfl

/-- Factories run once for each key exactly as long as every look that misses is the first. -/
theorem nodup_step_iff {move : Move κ} (h : Coherent s) (hs : step lifetime s move = some s') :
    s'.created.Nodup ↔ s.created.Nodup ∧ firstLook s move = true := by
  cases move with
  | look index =>
    obtain ⟨flight, hflight, -, rfl⟩ := step_look hs
    simp only [firstLook, hflight]
    unfold State.look
    by_cases hhit : (s.shared.lookup s.now flight.key).isSome = true
    · rw [if_pos hhit, hhit, Bool.true_or]
      exact (and_iff_left rfl).symm
    · rw [if_neg hhit]
      show (flight.key :: s.created).Nodup ↔ _
      rw [Bool.eq_false_iff.mpr hhit, Bool.false_or, List.nodup_cons, and_comm,
        h.created_iff flight.key]
      simp only [Bool.and_eq_true, decide_eq_true_iff, not_or, Bool.not_eq_true,
        Option.isSome_eq_false_iff, and_assoc]
  | release index =>
    obtain ⟨flight, -, rfl⟩ := step_release hs
    exact (and_iff_left rfl).symm
  | share index =>
    obtain ⟨key, -, rfl⟩ := Option.map_eq_some_iff.mp hs
    exact (and_iff_left rfl).symm
  | wait until_ =>
    rw [HybridCache.step, Option.ite_none_right_eq_some] at hs
    obtain ⟨-, hs⟩ := hs
    cases hs
    exact (and_iff_left rfl).symm
  | call process key =>
    cases hs
    have hsame : (s.call process key).created = s.created := by
      unfold State.call
      split
      · rfl
      · split <;> rfl
    rw [hsame]
    exact (and_iff_left rfl).symm
  | evictLocal process key =>
    cases hs
    exact (and_iff_left rfl).symm
  | evictShared key =>
    cases hs
    have hsame : (s.evictShared key).created = s.created := by
      unfold State.evictShared
      split <;> rfl
    rw [hsame]
    exact (and_iff_left rfl).symm

end HybridCache
