import Wallow.Lib.Growth
import Wallow.Lib.Transition
import Mathlib.Data.List.AList

/-!
# Times at which clients were last used

`ServiceAccountUsageBuffer.cs` of each replica and the flushes of
`ServiceAccountTrackingBackgroundService.cs`: a flush takes the entries out of the buffer one by
one, while others may be recorded, and then writes them in one statement.  Times are microseconds,
as the column keeps them, and are those of whatever clock the replica reads.
-/

namespace Wallow.Identity.UsageBuffer

open Transition Growth

abbrev Entries := AList fun _ : String => Nat

/-- A flush on its way: the keys it has still to take out, and what it has taken. -/
structure Drain where
  keys : List String
  snapshot : Entries
  nodup : keys.Nodup
  fresh : ∀ key ∈ keys, key ∉ snapshot

structure Replica where
  entries : Entries
  drain : Option Drain

structure Usage where
  replicas : Nat → Replica
  /-- The column `last_used_at`, for the registered clients. -/
  rows : String → Option Nat
  /-- What was recorded, the latest call first. -/
  recorded : List (String × Nat)

inductive UsageMove
  /-- `Record`, with the reading of the clock. -/
  | record (replica : Nat) (clientId : String) (time : Nat)
  /-- A tick: `DrainAll` enumerates the keys there are, in some order. -/
  | drain (replica : Nat) (keys : List String)
  /-- `TryRemove` of the next key. -/
  | take (replica : Nat)
  /-- The statement, which may fail. -/
  | flush (replica : Nat) (applied : Bool)

def Drain.start (keys : List String) (h : keys.Nodup) : Drain where
  keys := keys
  snapshot := ∅
  nodup := h
  fresh key _ := AList.notMem_empty key

/-- The key is taken out with what `TryRemove` found. -/
def Drain.take (drain : Drain) {key : String} {keys : List String} (h : drain.keys = key :: keys)
    (found : Option Nat) : Drain where
  keys := keys
  snapshot :=
    match found with
    | some value => drain.snapshot.insert key value
    | none => drain.snapshot
  nodup := (List.nodup_cons.mp (h ▸ drain.nodup)).2
  fresh other hother := by
    have hold : other ∉ drain.snapshot :=
      drain.fresh other (h ▸ List.mem_cons_of_mem key hother)
    cases found with
    | none => exact hold
    | some value =>
      intro hmem
      cases (AList.mem_insert drain.snapshot).mp hmem with
      | inl heq => exact (List.nodup_cons.mp (h ▸ drain.nodup)).1 (heq ▸ hother)
      | inr hin => exact hold hin

namespace Usage

/-- Nothing is buffered, and the rows are as they are. -/
def start (rows : String → Option Nat) : Usage := ⟨fun _ => ⟨∅, none⟩, rows, []⟩

def setReplica (s : Usage) (r : Nat) (replica : Replica) : Usage :=
  { s with replicas := Function.update s.replicas r replica }

def record (s : Usage) (r : Nat) (clientId : String) (time : Nat) : Usage :=
  { s.setReplica r
      { s.replicas r with entries := (s.replicas r).entries.insert clientId time } with
    recorded := (clientId, time) :: s.recorded }

def drain (s : Usage) (r : Nat) (keys : List String) (h : keys.Nodup) : Usage :=
  s.setReplica r { s.replicas r with drain := some (.start keys h) }

def take (s : Usage) (r : Nat) (drain : Drain) {key : String} {keys : List String}
    (h : drain.keys = key :: keys) : Usage :=
  let entries := (s.replicas r).entries
  s.setReplica r ⟨entries.erase key, some (drain.take h (entries.lookup key))⟩

/-- The flush ends, whatever became of its statement. -/
def discard (s : Usage) (r : Nat) : Usage :=
  s.setReplica r { s.replicas r with drain := none }

/-- The `UPDATE`. -/
def update (registered : String → Bool) (s : Usage) (snapshot : Entries) : Usage :=
  { s with
    rows := fun clientId =>
      match snapshot.lookup clientId with
      | some time => if registered clientId then some time else s.rows clientId
      | none => s.rows clientId }

end Usage

section Runs

variable (registered : String → Bool) (n : Nat)

/-- The moves of `n` replicas. -/
def step (s : Usage) : UsageMove → Option Usage
  | .record r clientId time => if r < n then some (s.record r clientId time) else none
  | .drain r keys =>
    if h : r < n ∧ (s.replicas r).drain.isNone ∧ keys.Perm (s.replicas r).entries.keys then
      some (s.drain r keys (h.2.2.nodup_iff.mpr (s.replicas r).entries.keys_nodup))
    else none
  | .take r =>
    match (s.replicas r).drain with
    | none => none
    | some drain =>
      match h : drain.keys with
      | [] => none
      | _ :: _ => if r < n then some (s.take r drain h) else none
  | .flush r applied =>
    match (s.replicas r).drain with
    | none => none
    | some drain =>
      match drain.keys with
      | _ :: _ => none
      | [] =>
        if r < n then
          if applied then some ((s.update registered drain.snapshot).discard r)
          else some (s.discard r)
        else none

/-! ## Times that are not lost -/

/-- What is buffered for the client at the replica, or taken out by its flush. -/
def held (s : Usage) (r : Nat) (clientId : String) : List Nat :=
  ((s.replicas r).entries.lookup clientId).toList ++
    ((s.replicas r).drain.bind fun drain => drain.snapshot.lookup clientId).toList

/-- A time as late as this one is stored, buffered or on its way. -/
def covered (s : Usage) (clientId : String) (time : Nat) : Bool :=
  (s.rows clientId).any (time ≤ ·) ||
    (List.range n).any fun r => (held s r clientId).any (time ≤ ·)

/-- The move drops no time that is not covered, and writes none older than the one stored. -/
def careful (s : Usage) : UsageMove → Bool
  | .record r clientId time =>
    match (s.replicas r).entries.lookup clientId with
    | none => true
    | some old =>
      old ≤ time ||
        covered n (s.setReplica r
          { s.replicas r with entries := (s.replicas r).entries.erase clientId }) clientId old
  | .flush r applied =>
    match (s.replicas r).drain with
    | none => true
    | some drain =>
      drain.snapshot.entries.all fun entry => !registered entry.1 ||
        if applied then (s.rows entry.1).all (· ≤ entry.2)
        else covered n (s.discard r) entry.1 entry.2
  | _ => true

end Runs

variable {registered : String → Bool} {n : Nat} {s t : Usage} {r : Nat} {clientId : String}
  {time : Nat}

theorem covered_iff : covered n s clientId time = true ↔
    (∃ value, s.rows clientId = some value ∧ time ≤ value) ∨
      ∃ r < n, ∃ value ∈ held s r clientId, time ≤ value := by
  unfold covered
  rw [Bool.or_eq_true, Option.any_eq_true, List.any_eq_true]
  simp only [List.any_eq_true, decide_eq_true_eq, List.mem_range]

theorem covered_of_row {value : Nat} (h : s.rows clientId = some value) :
    covered n s clientId value = true :=
  covered_iff.mpr (.inl ⟨value, h, Nat.le_refl value⟩)

theorem covered_of_held {value : Nat} (hr : r < n) (h : value ∈ held s r clientId) :
    covered n s clientId value = true :=
  covered_iff.mpr (.inr ⟨r, hr, value, h, Nat.le_refl value⟩)

theorem covered_of_le {later : Nat} (hle : time ≤ later) (h : covered n s clientId later = true) :
    covered n s clientId time = true := by
  apply covered_iff.mpr
  cases covered_iff.mp h with
  | inl hrow =>
    have ⟨value, hvalue, hlater⟩ := hrow
    exact .inl ⟨value, hvalue, hle.trans hlater⟩
  | inr hheld =>
    have ⟨r, hr, value, hvalue, hlater⟩ := hheld
    exact .inr ⟨r, hr, value, hvalue, hle.trans hlater⟩

/-- Where the times there were are covered, what they covered is. -/
theorem covered_trans (hrow : ∀ value, s.rows clientId = some value →
      covered n t clientId value = true)
    (hheld : ∀ r < n, ∀ value ∈ held s r clientId, covered n t clientId value = true)
    (h : covered n s clientId time = true) : covered n t clientId time = true := by
  cases covered_iff.mp h with
  | inl hstored =>
    have ⟨value, hvalue, hle⟩ := hstored
    exact covered_of_le hle (hrow value hvalue)
  | inr hkept =>
    have ⟨r, hr, value, hvalue, hle⟩ := hkept
    exact covered_of_le hle (hheld r hr value hvalue)

theorem held_setReplica_self (s : Usage) (r : Nat) (replica : Replica) (clientId : String) :
    held (s.setReplica r replica) r clientId = (replica.entries.lookup clientId).toList ++
      (replica.drain.bind fun drain => drain.snapshot.lookup clientId).toList := by
  unfold held Usage.setReplica
  dsimp only
  rw [Function.update_self]

theorem held_setReplica_of_ne (s : Usage) {r other : Nat} (h : other ≠ r) (replica : Replica)
    (clientId : String) :
    held (s.setReplica r replica) other clientId = held s other clientId := by
  unfold held Usage.setReplica
  dsimp only
  rw [Function.update_of_ne h]

/-- One replica changes: what it held has to be covered, and the others hold what they held. -/
theorem covered_setReplica {replica : Replica}
    (hself : ∀ value ∈ held s r clientId,
      covered n (s.setReplica r replica) clientId value = true)
    (h : covered n s clientId time = true) :
    covered n (s.setReplica r replica) clientId time = true := by
  refine covered_trans (s := s) (fun value hvalue => covered_of_row hvalue) ?_ h
  intro other hother value hvalue
  by_cases heq : other = r
  · exact hself value (heq ▸ hvalue)
  · apply covered_of_held hother
    rw [held_setReplica_of_ne s heq]
    exact hvalue

/-! ## Moves -/

theorem covered_drain {keys : List String} (hr : r < n) (hidle : (s.replicas r).drain.isNone = true)
    (hnodup : keys.Nodup) (h : covered n s clientId time = true) :
    covered n (s.drain r keys hnodup) clientId time = true := by
  apply covered_setReplica _ h
  intro value hvalue
  apply covered_of_held hr
  unfold held at hvalue
  rw [Option.isNone_iff_eq_none.mp hidle, Option.bind_none, Option.toList_none, List.append_nil]
    at hvalue
  rw [held_setReplica_self]
  exact List.mem_append_left _ hvalue

theorem lookup_take {drain : Drain} {key : String} {keys : List String}
    (h : drain.keys = key :: keys) (found : Option Nat) (other : String) :
    (drain.take h found).snapshot.lookup other =
      if other = key then found else drain.snapshot.lookup other := by
  have hfresh : drain.snapshot.lookup key = none :=
    AList.lookup_eq_none.mpr (drain.fresh key (h ▸ List.mem_cons_self))
  unfold Drain.take
  cases found with
  | none =>
    dsimp only
    split
    · rename_i heq
      rw [heq, hfresh]
    · rfl
  | some value =>
    dsimp only
    split
    · rename_i heq
      rw [heq, AList.lookup_insert]
    · rename_i hne
      rw [AList.lookup_insert_ne hne]

/-- What is taken out goes from the buffer to the snapshot. -/
theorem covered_take {drain : Drain} {key : String} {keys : List String} (hr : r < n)
    (hdrain : (s.replicas r).drain = some drain) (hkeys : drain.keys = key :: keys)
    (h : covered n s clientId time = true) :
    covered n (s.take r drain hkeys) clientId time = true := by
  apply covered_setReplica _ h
  intro value hvalue
  apply covered_of_held hr
  rw [held_setReplica_self]
  unfold held at hvalue
  rw [hdrain, Option.bind_some, List.mem_append] at hvalue
  dsimp only
  rw [Option.bind_some, lookup_take, List.mem_append]
  by_cases heq : clientId = key
  · rw [if_pos heq]
    have hfresh : drain.snapshot.lookup key = none :=
      AList.lookup_eq_none.mpr (drain.fresh key (hkeys ▸ List.mem_cons_self))
    rw [heq, hfresh] at hvalue
    cases hvalue with
    | inl hentry => exact .inr hentry
    | inr hnone => cases hnone
  · rw [if_neg heq, AList.lookup_erase_ne heq]
    exact hvalue

theorem covered_record (hr : r < n) {recordedId : String}
    (hcareful : careful registered n s (.record r recordedId time) = true) {earlier : Nat}
    (h : covered n s clientId earlier = true) :
    covered n (s.record r recordedId time) clientId earlier = true := by
  have hnew : ∀ value, value ∈ ((s.replicas r).entries.insert recordedId time).lookup clientId →
      covered n (s.record r recordedId time) clientId value = true := by
    intro value hvalue
    apply covered_of_held hr
    show value ∈ held (s.setReplica r _) r clientId
    rw [held_setReplica_self]
    exact List.mem_append_left _ (Option.mem_toList.mpr hvalue)
  have hdrained : ∀ value,
      value ∈ ((s.replicas r).drain.bind fun drain => drain.snapshot.lookup clientId).toList →
      covered n (s.record r recordedId time) clientId value = true := by
    intro value hvalue
    apply covered_of_held hr
    show value ∈ held (s.setReplica r _) r clientId
    rw [held_setReplica_self]
    exact List.mem_append_right _ hvalue
  refine @covered_setReplica n s r clientId earlier _ ?_ h
  intro value hvalue
  cases List.mem_append.mp hvalue with
  | inr hold => exact hdrained value hold
  | inl hentry =>
    have hlookup : (s.replicas r).entries.lookup clientId = some value :=
      Option.mem_toList.mp hentry
    by_cases heq : clientId = recordedId
    · -- the entry is replaced, so it is not later or covered elsewhere
      subst heq
      dsimp only [careful] at hcareful
      rw [hlookup] at hcareful
      dsimp only at hcareful
      rw [Bool.or_eq_true, decide_eq_true_eq] at hcareful
      cases hcareful with
      | inl hle => exact covered_of_le hle (hnew time (AList.lookup_insert _))
      | inr helsewhere =>
        let erased := s.setReplica r
          { s.replicas r with entries := (s.replicas r).entries.erase clientId }
        refine covered_trans (s := erased) (fun value hvalue => covered_of_row hvalue) ?_ helsewhere
        intro other hother value hvalue
        by_cases hsame : other = r
        · subst hsame
          rw [held_setReplica_self, AList.lookup_erase, Option.toList_none, List.nil_append]
            at hvalue
          exact hdrained value hvalue
        · rw [held_setReplica_of_ne s hsame] at hvalue
          apply covered_of_held hother
          show value ∈ held (s.setReplica r _) other clientId
          rw [held_setReplica_of_ne s hsame]
          exact hvalue
    · apply hnew
      rw [AList.lookup_insert_ne heq]
      exact hlookup

theorem rows_update (registered : String → Bool) (s : Usage) (snapshot : Entries)
    (clientId : String) : (s.update registered snapshot).rows clientId =
      if registered clientId then (snapshot.lookup clientId).or (s.rows clientId)
      else s.rows clientId := by
  unfold Usage.update
  dsimp only
  cases snapshot.lookup clientId with
  | none => exact (ite_self _).symm
  | some value => rfl

/-- What a careful flush writes is not older than what is stored, and what it loses is covered. -/
theorem entry_of_careful {drain : Drain} {applied : Bool}
    (hcareful : careful registered n s (.flush r applied) = true)
    (hdrain : (s.replicas r).drain = some drain) (hregistered : registered clientId = true)
    {value : Nat} (hvalue : drain.snapshot.lookup clientId = some value) :
    (if applied then (s.rows clientId).all (· ≤ value)
      else covered n (s.discard r) clientId value) = true := by
  dsimp only [careful] at hcareful
  rw [hdrain] at hcareful
  have hmem := List.all_eq_true.mp hcareful ⟨clientId, value⟩ (AList.mem_lookup_iff.mp hvalue)
  dsimp only at hmem
  rw [hregistered] at hmem
  exact hmem

theorem covered_lost {drain : Drain} (hr : r < n)
    (hdrain : (s.replicas r).drain = some drain)
    (hcareful : careful registered n s (.flush r false) = true)
    (hregistered : registered clientId = true) (h : covered n s clientId time = true) :
    covered n (s.discard r) clientId time = true := by
  apply covered_setReplica _ h
  intro value hvalue
  unfold held at hvalue
  rw [hdrain, Option.bind_some, List.mem_append] at hvalue
  cases hvalue with
  | inl hkept =>
    apply covered_of_held hr
    rw [held_setReplica_self]
    exact List.mem_append_left _ hkept
  | inr hlost => exact entry_of_careful hcareful hdrain hregistered (Option.mem_toList.mp hlost)

theorem covered_written {drain : Drain} (hr : r < n)
    (hdrain : (s.replicas r).drain = some drain)
    (hcareful : careful registered n s (.flush r true) = true)
    (hregistered : registered clientId = true) (h : covered n s clientId time = true) :
    covered n ((s.update registered drain.snapshot).discard r) clientId time = true := by
  have hrows : ((s.update registered drain.snapshot).discard r).rows clientId =
      (drain.snapshot.lookup clientId).or (s.rows clientId) := by
    show (s.update registered drain.snapshot).rows clientId = _
    rw [rows_update, if_pos hregistered]
  have hwritten : ∀ value, drain.snapshot.lookup clientId = some value →
      covered n ((s.update registered drain.snapshot).discard r) clientId value = true := by
    intro value hvalue
    apply covered_of_row
    rw [hrows, hvalue, Option.some_or]
  refine covered_trans (s := s) (fun value hvalue => ?_) (fun other hother value hvalue => ?_) h
  · cases hsnapshot : drain.snapshot.lookup clientId with
    | none =>
      apply covered_of_row
      rw [hrows, hsnapshot, Option.none_or, hvalue]
    | some written =>
      have hle := entry_of_careful hcareful hdrain hregistered hsnapshot
      rw [if_pos rfl, hvalue, Option.all_some, decide_eq_true_eq] at hle
      exact covered_of_le hle (hwritten written hsnapshot)
  · by_cases heq : other = r
    · subst heq
      unfold held at hvalue
      rw [hdrain, Option.bind_some, List.mem_append] at hvalue
      cases hvalue with
      | inl hkept =>
        apply covered_of_held hr
        show value ∈ held (Usage.setReplica _ other _) other clientId
        rw [held_setReplica_self]
        exact List.mem_append_left _ hkept
      | inr hsnapshot => exact hwritten value (Option.mem_toList.mp hsnapshot)
    · apply covered_of_held hother
      show value ∈ held (Usage.setReplica _ r _) other clientId
      rw [held_setReplica_of_ne _ heq]
      exact hvalue

/-! ## Steps -/

theorem step_take (h : step registered n s (.take r) = some t) :
    ∃ drain key keys, ∃ hkeys : drain.keys = key :: keys, r < n ∧
      (s.replicas r).drain = some drain ∧ t = s.take r drain hkeys := by
  dsimp only [step] at h
  split at h
  · cases h
  · rename_i drain hdrain
    split at h
    · cases h
    · rename_i key keys hkeys
      rw [Option.ite_none_right_eq_some, Option.some.injEq] at h
      exact ⟨drain, key, keys, hkeys, h.1, hdrain, h.2.symm⟩

theorem step_flush {applied : Bool} (h : step registered n s (.flush r applied) = some t) :
    ∃ drain, r < n ∧ (s.replicas r).drain = some drain ∧ drain.keys = [] ∧
      t = if applied then (s.update registered drain.snapshot).discard r else s.discard r := by
  dsimp only [step] at h
  split at h
  · cases h
  · rename_i drain hdrain
    split at h
    · cases h
    · rename_i hkeys
      rw [Option.ite_none_right_eq_some] at h
      refine ⟨drain, h.1, hdrain, hkeys, ?_⟩
      cases applied with
      | true => exact (Option.some.inj h.2).symm
      | false => exact (Option.some.inj h.2).symm

theorem step_drain {keys : List String} (h : step registered n s (.drain r keys) = some t) :
    ∃ hnodup : keys.Nodup, r < n ∧ (s.replicas r).drain.isNone = true ∧
      keys.Perm (s.replicas r).entries.keys ∧ t = s.drain r keys hnodup := by
  dsimp only [step] at h
  split at h
  · rename_i hcond
    exact ⟨hcond.2.2.nodup_iff.mpr (s.replicas r).entries.keys_nodup, hcond.1, hcond.2.1,
      hcond.2.2, (Option.some.inj h).symm⟩
  · cases h

/-- A careful move keeps the times of a registered client covered. -/
theorem covered_step {move : UsageMove} (hcareful : careful registered n s move = true)
    (hs : step registered n s move = some t) (hregistered : registered clientId = true)
    (h : covered n s clientId time = true) : covered n t clientId time = true := by
  cases move with
  | record r recordedId at_ =>
    dsimp only [step] at hs
    rw [Option.ite_none_right_eq_some, Option.some.injEq] at hs
    rw [← hs.2]
    exact covered_record hs.1 hcareful h
  | drain r keys =>
    have ⟨hnodup, hr, hidle, _, ht⟩ := step_drain hs
    rw [ht]
    exact covered_drain hr hidle hnodup h
  | take r =>
    have ⟨drain, key, keys, hkeys, hr, hdrain, ht⟩ := step_take hs
    rw [ht]
    exact covered_take hr hdrain hkeys h
  | flush r applied =>
    have ⟨drain, hr, hdrain, _, ht⟩ := step_flush hs
    rw [ht]
    cases applied with
    | true => exact covered_written hr hdrain hcareful hregistered h
    | false => exact covered_lost hr hdrain hcareful hregistered h

/-- A careful move lets the stored times grow. -/
theorem grows_step {move : UsageMove} (hcareful : careful registered n s move = true)
    (hs : step registered n s move = some t) (clientId : String) :
    Grows (· ≤ ·) (s.rows clientId) (t.rows clientId) := by
  have hsame : ∀ {u : Usage}, u.rows = s.rows →
      Grows (· ≤ ·) (s.rows clientId) (u.rows clientId) := by
    intro u hu
    rw [hu]
    exact Grows.refl Nat.le_refl _
  cases move with
  | record r recordedId at_ =>
    dsimp only [step] at hs
    rw [Option.ite_none_right_eq_some, Option.some.injEq] at hs
    rw [← hs.2]
    exact hsame rfl
  | drain r keys =>
    have ⟨hnodup, _, _, _, ht⟩ := step_drain hs
    rw [ht]
    exact hsame rfl
  | take r =>
    have ⟨drain, key, keys, hkeys, _, _, ht⟩ := step_take hs
    rw [ht]
    exact hsame rfl
  | flush r applied =>
    have ⟨drain, _, hdrain, _, ht⟩ := step_flush hs
    rw [ht]
    cases applied with
    | false => exact hsame rfl
    | true =>
      intro old hold
      show ∃ new, (s.update registered drain.snapshot).rows clientId = some new ∧ old ≤ new
      rw [rows_update]
      cases hregistered : registered clientId with
      | false => exact ⟨old, hold, Nat.le_refl old⟩
      | true =>
        rw [if_pos rfl]
        cases hsnapshot : drain.snapshot.lookup clientId with
        | none => exact ⟨old, hold, Nat.le_refl old⟩
        | some written =>
          have hle := entry_of_careful hcareful hdrain hregistered hsnapshot
          rw [if_pos rfl, hold, Option.all_some, decide_eq_true_eq] at hle
          exact ⟨written, rfl, hle⟩

/-! ## Runs -/

/-- Every time recorded for a registered client is covered. -/
def Kept (registered : String → Bool) (n : Nat) (s : Usage) : Prop :=
  ∀ entry ∈ s.recorded, registered entry.1 = true → covered n s entry.1 entry.2 = true

theorem kept_step {move : UsageMove} (h : Kept registered n s)
    (hcareful : careful registered n s move = true) (hs : step registered n s move = some t) :
    Kept registered n t := by
  have hold : ∀ entry ∈ s.recorded, registered entry.1 = true →
      covered n t entry.1 entry.2 = true := fun entry hentry hregistered =>
    covered_step hcareful hs hregistered (h entry hentry hregistered)
  cases move with
  | record r recordedId at_ =>
    dsimp only [step] at hs
    rw [Option.ite_none_right_eq_some, Option.some.injEq] at hs
    have ⟨hr, ht⟩ := hs
    subst ht
    intro entry hentry hregistered
    cases List.mem_cons.mp hentry with
    | inr hearlier => exact hold entry hearlier hregistered
    | inl hnew =>
      rw [hnew]
      apply covered_of_held hr
      show at_ ∈ held (s.setReplica r _) r recordedId
      rw [held_setReplica_self]
      exact List.mem_append_left _ (Option.mem_toList.mpr (AList.lookup_insert _))
  | drain r keys =>
    have ⟨hnodup, _, _, _, ht⟩ := step_drain hs
    subst ht
    exact hold
  | take r =>
    have ⟨drain, key, keys, hkeys, _, _, ht⟩ := step_take hs
    subst ht
    exact hold
  | flush r applied =>
    have ⟨drain, _, _, _, ht⟩ := step_flush hs
    subst ht
    cases applied with
    | true => exact hold
    | false => exact hold

def UsageMove.isRecord : UsageMove → Bool
  | .record _ _ _ => true
  | _ => false

/-- Without recordings, a replica comes to hold nothing new. -/
theorem held_step {move : UsageMove} (hmove : move.isRecord = false)
    (hs : step registered n s move = some t) (r : Nat) {value : Nat}
    (h : value ∈ held t r clientId) : value ∈ held s r clientId := by
  cases move with
  | record r recordedId at_ => cases hmove
  | drain moved keys =>
    have ⟨hnodup, _, _, _, ht⟩ := step_drain hs
    subst ht
    by_cases heq : r = moved
    · subst heq
      unfold Usage.drain at h
      rw [held_setReplica_self, List.mem_append] at h
      cases h with
      | inl hentry => exact List.mem_append_left _ hentry
      | inr hnone => cases hnone
    · exact held_setReplica_of_ne s heq _ clientId ▸ h
  | take moved =>
    have ⟨drain, key, keys, hkeys, _, hdrain, ht⟩ := step_take hs
    subst ht
    by_cases heq : r = moved
    · subst heq
      unfold Usage.take at h
      rw [held_setReplica_self] at h
      dsimp only at h
      rw [Option.bind_some, lookup_take, List.mem_append] at h
      unfold held
      rw [hdrain, Option.bind_some, List.mem_append]
      by_cases hkey : clientId = key
      · rw [hkey, AList.lookup_erase, if_pos rfl] at h
        cases h with
        | inl hnone => cases hnone
        | inr hentry => exact .inl (hkey ▸ hentry)
      · rw [AList.lookup_erase_ne hkey, if_neg hkey] at h
        exact h
    · exact held_setReplica_of_ne s heq _ clientId ▸ h
  | flush moved applied =>
    have ⟨drain, _, _, _, ht⟩ := step_flush hs
    have hheld : held t r clientId = held (s.discard moved) r clientId := by
      subst ht
      cases applied with
      | true => rfl
      | false => rfl
    rw [hheld] at h
    by_cases heq : r = moved
    · subst heq
      unfold Usage.discard at h
      rw [held_setReplica_self, List.mem_append] at h
      cases h with
      | inl hentry => exact List.mem_append_left _ hentry
      | inr hnone => cases hnone
    · exact held_setReplica_of_ne s heq _ clientId ▸ h

/-- The run has a whole flush of the replica that is successful. -/
def Flushes (r : Nat) (moves : List UsageMove) : Prop :=
  ∃ before keys between after,
    moves = before ++ .drain r keys :: (between ++ .flush r true :: after) ∧
      ∀ move ∈ between, ∀ applied, move ≠ .flush r applied

/-- Whatever is buffered at the replica is still to be taken out by its flush. -/
def Draining (r : Nat) (s : Usage) : Prop :=
  ∃ drain, (s.replicas r).drain = some drain ∧ ∀ key ∈ (s.replicas r).entries, key ∈ drain.keys

theorem draining_of_ne {replica : Replica} {moved : Nat} (hne : r ≠ moved) (h : Draining r s) :
    Draining r (s.setReplica moved replica) := by
  unfold Draining Usage.setReplica
  dsimp only
  rw [Function.update_of_ne hne]
  exact h

theorem draining_step {move : UsageMove} (hmove : move.isRecord = false)
    (hother : ∀ applied, move ≠ .flush r applied) (hs : step registered n s move = some t)
    (h : Draining r s) : Draining r t := by
  cases move with
  | record r recordedId at_ => cases hmove
  | drain moved keys =>
    have ⟨hnodup, _, hidle, _, ht⟩ := step_drain hs
    subst ht
    refine draining_of_ne (fun heq => ?_) h
    have ⟨drain, hdrain, _⟩ := h
    rw [← heq, hdrain] at hidle
    cases hidle
  | take moved =>
    have ⟨drain, key, keys, hkeys, _, hdrain, ht⟩ := step_take hs
    subst ht
    by_cases heq : r = moved
    · subst heq
      have ⟨drain', hdrain', hentries⟩ := h
      rw [hdrain, Option.some.injEq] at hdrain'
      subst hdrain'
      unfold Draining Usage.take Usage.setReplica
      dsimp only
      rw [Function.update_self]
      refine ⟨_, rfl, fun other hmem => ?_⟩
      have ⟨hne, hold⟩ := AList.mem_erase.mp hmem
      have hlisted := hentries other hold
      rw [hkeys] at hlisted
      exact (List.mem_cons.mp hlisted).resolve_left hne
    · exact draining_of_ne heq h
  | flush moved applied =>
    have ⟨drain, _, _, _, ht⟩ := step_flush hs
    have hne : r ≠ moved := fun heq => hother applied (heq ▸ rfl)
    subst ht
    cases applied with
    | true => exact draining_of_ne hne h
    | false => exact draining_of_ne hne h

theorem draining_drain {keys : List String} (hnodup : keys.Nodup)
    (hkeys : keys.Perm (s.replicas r).entries.keys) : Draining r (s.drain r keys hnodup) := by
  unfold Draining Usage.drain Usage.setReplica
  dsimp only
  rw [Function.update_self]
  exact ⟨_, rfl, fun key hkey => hkeys.mem_iff.mpr (AList.mem_keys.mp hkey)⟩

/-- Once its flush has ended, the replica holds nothing. -/
theorem held_of_flushed {applied : Bool} (h : Draining r s)
    (hs : step registered n s (.flush r applied) = some t) (clientId : String) :
    held t r clientId = [] := by
  have ⟨drain, _, hdrain, hkeys, ht⟩ := step_flush hs
  have ⟨drain', hdrain', hentries⟩ := h
  rw [hdrain, Option.some.injEq] at hdrain'
  subst hdrain'
  have hnone : (s.replicas r).entries.lookup clientId = none := by
    rw [AList.lookup_eq_none]
    intro hmem
    have hlisted := hentries clientId hmem
    rw [hkeys] at hlisted
    cases hlisted
  have hheld : held t r clientId = held (s.discard r) r clientId := by
    subst ht
    cases applied with
    | true => rfl
    | false => rfl
  unfold Usage.discard at hheld
  rw [hheld, held_setReplica_self]
  dsimp only
  rw [hnone]
  rfl

/-- A replica that has flushed holds nothing, as long as nothing is recorded. -/
theorem held_of_flushes {check : Usage → UsageMove → Bool} {later : List UsageMove}
    (hrun : run (step registered n) check s later = some t)
    (hquiet : ∀ move ∈ later, move.isRecord = false) (hflushes : Flushes r later)
    (clientId : String) : held t r clientId = [] := by
  obtain ⟨before, keys, between, after, hlater, hbetween⟩ := hflushes
  subst hlater
  rw [run_append] at hrun
  obtain ⟨s₁, _, hrest⟩ := Option.bind_eq_some_iff.mp hrun
  rw [run, Option.ite_none_right_eq_some] at hrest
  obtain ⟨s₂, hdrain, hrest⟩ := Option.bind_eq_some_iff.mp hrest.2
  rw [run_append] at hrest
  obtain ⟨s₃, hbetweenRun, hrest⟩ := Option.bind_eq_some_iff.mp hrest
  rw [run, Option.ite_none_right_eq_some] at hrest
  obtain ⟨s₄, hflush, hafter⟩ := Option.bind_eq_some_iff.mp hrest.2
  -- the flush takes out all there is, and nothing is added from then on
  have hstart : Draining r s₂ := by
    obtain ⟨hnodup, _, _, hkeys, heq⟩ := step_drain hdrain
    rw [heq]
    exact draining_drain hnodup hkeys
  have hdraining : Draining r s₃ := by
    refine invariant_of_run hbetweenRun (Draining r) hstart fun a move b hmem ha _ hs => ?_
    have hmove : move ∈ before ++ .drain r keys :: (between ++ .flush r true :: after) := by
      simp [hmem]
    exact draining_step (hquiet move hmove) (hbetween move hmem) hs ha
  refine invariant_of_run hafter (fun u => held u r clientId = []) (held_of_flushed hdraining hflush
    clientId) fun a move b hmem ha _ hs => ?_
  have hmove : move ∈ before ++ .drain r keys :: (between ++ .flush r true :: after) := by
    simp [hmem]
  refine List.eq_nil_iff_forall_not_mem.mpr fun value hvalue => ?_
  have hheld := held_step (hquiet move hmove) hs r hvalue
  rw [ha] at hheld
  cases hheld

/-- A run whose moves are careful moves no stored time backwards, and when after the last recording
each replica has made a successful flush, the latest time recorded for a client is stored. -/
theorem last_used_grows_and_is_kept (registered : String → Bool) (n : Nat)
    (rows : String → Option Nat) {moves later : List UsageMove} {s t : Usage}
    (hmoves : run (step registered n) (careful registered n) (.start rows) moves = some s)
    (hlater : run (step registered n) (careful registered n) s later = some t) :
    (∀ clientId, Grows (· ≤ ·) (s.rows clientId) (t.rows clientId)) ∧
      ((∀ move ∈ later, move.isRecord = false) → (∀ r < n, Flushes r later) →
        ∀ entry ∈ t.recorded, registered entry.1 = true →
          ∃ stored, t.rows entry.1 = some stored ∧ entry.2 ≤ stored) := by
  constructor
  · intro clientId
    refine invariant_of_run hlater (fun u => Grows (· ≤ ·) (s.rows clientId) (u.rows clientId))
      (Grows.refl Nat.le_refl _) fun a move b _ ha hcareful hs => ?_
    exact ha.trans (fun _ _ _ => Nat.le_trans) (grows_step hcareful hs clientId)
  · intro hquiet hflushes entry hentry hregistered
    have hempty : Kept registered n (.start rows) := fun _ hmem => absurd hmem List.not_mem_nil
    have hkept : Kept registered n t := by
      refine invariant_of_run hlater (Kept registered n) ?_
        fun _ _ _ _ ha hcareful hs => kept_step ha hcareful hs
      exact invariant_of_run hmoves (Kept registered n) hempty
        fun _ _ _ _ ha hcareful hs => kept_step ha hcareful hs
    cases covered_iff.mp (hkept entry hentry hregistered) with
    | inl hstored => exact hstored
    | inr hheld =>
      have ⟨r, hr, value, hvalue, _⟩ := hheld
      rw [held_of_flushes hlater hquiet (hflushes r hr)] at hvalue
      cases hvalue

theorem last_used_grows_and_is_kept_once :
    ∃ s t, run (step (fun _ => true) 1) (careful (fun _ => true) 1) (.start fun _ => none)
        [.record 0 "app-acme-web" 5] = some s ∧
      run (step (fun _ => true) 1) (careful (fun _ => true) 1) s
        [.drain 0 ["app-acme-web"], .take 0, .flush 0 true] = some t ∧
      ∃ stored, t.rows "app-acme-web" = some stored ∧ 5 ≤ stored := by
  refine ⟨_, _, rfl, rfl, ?_⟩
  have hkept := @last_used_grows_and_is_kept (fun _ => true) 1 (fun _ => none)
    [.record 0 "app-acme-web" 5] [.drain 0 ["app-acme-web"], .take 0, .flush 0 true] _ _ rfl rfl
  refine hkept.2 ?_ ?_ ("app-acme-web", 5) (List.mem_singleton_self _) rfl
  · decide
  · intro r hr
    have hzero : r = 0 := by omega
    subst hzero
    refine ⟨[], ["app-acme-web"], [.take 0], [], rfl, fun move hmove applied heq => ?_⟩
    rw [List.mem_singleton.mp hmove] at heq
    cases heq

/-- Two replicas record the client; the one that took its entry out first writes it last. -/
def lateFlush : List UsageMove :=
  [.record 0 "app-acme-web" 5, .drain 0 ["app-acme-web"], .take 0,
    .record 1 "app-acme-web" 9, .drain 1 ["app-acme-web"], .take 1, .flush 1 true]

/-- A flush that is late moves the stored time backwards. -/
theorem late_flush_goes_back :
    ¬∀ registered n rows moves later s t,
      follow (step registered n) (.start rows) moves = some s →
      follow (step registered n) s later = some t →
      ∀ clientId, Grows (· ≤ ·) (s.rows clientId) (t.rows clientId) := by
  intro h
  have hbefore : ∃ s t, follow (step (fun _ => true) 2) (.start fun _ => none) lateFlush = some s ∧
      follow (step (fun _ => true) 2) s [.flush 0 true] = some t ∧
      s.rows "app-acme-web" = some 9 ∧ t.rows "app-acme-web" = some 5 :=
    ⟨_, _, rfl, rfl, rfl, rfl⟩
  have ⟨s, t, hs, ht, hnine, hfive⟩ := hbefore
  have hgrows := h (fun _ => true) 2 (fun _ => none) lateFlush [.flush 0 true] s t hs ht
    "app-acme-web" 9 hnine
  have ⟨stored, hstored, hle⟩ := hgrows
  rw [hfive, Option.some.injEq] at hstored
  omega

end Wallow.Identity.UsageBuffer
