import Wallow.Storage.OrphanSweep

/-!
# What a sweep deletes

The objects a sweep deletes are those whose key has no row and gets none: an old object of an upload
whose row is not saved yet would have been too late for it.  What a job knows of a key when it
lists, looks up and deletes stays true whatever else happens in between.
-/

namespace Wallow.Storage

open Transition

namespace ObjectStore

variable {config : SweepConfig} {s s' : ObjectStore} {move : StoreMove} {key path : Text}

/-! ## What a sweep may delete -/

variable (config)

/-- A key of a file whose id is drawn, that names whatever it is stored as. -/
structure Known (drawn : List Guid) (key : Text) : Prop where
  isKeyOf : ∃ id ∈ drawn, id < 2 ^ 128 ∧ IsKeyOf id key
  tenant : TENANT_KEY_PREFIX <+: key
  lists : config.spelling.ListsAsItself key

/-- No upload saves a row with this key any more. -/
def Settled (s : ObjectStore) (key : Text) : Prop :=
  ∀ lastModified, s.pending.lookup key = some lastModified → lastModified + MINIMUM_AGE ≤ s.now

/-- No row has the key, and none will. -/
structure Dead (s : ObjectStore) (key : Text) : Prop where
  known : Known config s.drawn key
  no_row : key ∉ s.rows
  settled : Settled s key

/-- What holds of the rows, the uploads and the objects. -/
structure Kept (s : ObjectStore) : Prop where
  saved : ∀ key, key ∈ s.rows ∨ key ∈ s.signed ∨ key ∈ s.doomed →
    Known config s.drawn key ∧ s.pending.lookup key = none
  pending : ∀ key lastModified, s.pending.lookup key = some lastModified →
    Known config s.drawn key
  stored : ∀ key lastModified path, s.pending.lookup key = some lastModified →
    config.spelling.getFilePath key = some path →
    s.objects.lookup path = some lastModified ∨ lastModified + MINIMUM_AGE ≤ s.now
  placed : ∀ path, path ∈ s.objects → config.spelling.isTenantPath path = true →
    ∃ key, Known config s.drawn key ∧ config.spelling.getFilePath key = some path

/-- What a job knows is still true when it acts on it. -/
structure SweepKept (s : ObjectStore) (sweep : Sweep) : Prop where
  cutoff : sweep.cutoff + MINIMUM_AGE ≤ s.now
  unlisted : ∀ path ∈ sweep.unlisted,
    ∃ key, Known config s.drawn key ∧ config.spelling.getFilePath key = some path
  infos : ∀ info ∈ sweep.listed ++ sweep.batch, Known config s.drawn info.key ∧
    (info.lastModified ≤ sweep.cutoff → Settled s info.key)
  batch : ∀ info ∈ sweep.batch, info.lastModified ≤ sweep.cutoff
  unreferenced : ∀ key ∈ sweep.unreferenced, Dead config s key

structure Swept (s : ObjectStore) : Prop where
  kept : Kept config s
  sweeps : ∀ sweep ∈ s.sweeps, SweepKept config s sweep
  swept : ∀ path ∈ s.swept, ∃ key, Dead config s key ∧
    config.spelling.getFilePath key = some path

/-- What is settled stays settled. -/
structure Later (s s' : ObjectStore) : Prop where
  now : s.now ≤ s'.now
  drawn : s.drawn ⊆ s'.drawn
  rows : ∀ key, Known config s.drawn key → Settled s key → key ∈ s'.rows → key ∈ s.rows
  pending : ∀ key, Known config s.drawn key → Settled s key → ∀ lastModified,
    s'.pending.lookup key = some lastModified → s.pending.lookup key = some lastModified

variable {config} {key' : Text} {sweep : Sweep} {fileId : Guid} {drawn drawn' : List Guid}

theorem Known.mono (h : Known config drawn key) (hsub : drawn ⊆ drawn') :
    Known config drawn' key := by
  obtain ⟨id, hid, hkey⟩ := h.isKeyOf
  exact ⟨⟨id, hsub hid, hkey⟩, h.tenant, h.lists⟩

/-- Two keys under which one object is stored are one key. -/
theorem Known.unique (h : Known config drawn key) (h' : Known config drawn key')
    (hpath : config.spelling.getFilePath key = some path)
    (hpath' : config.spelling.getFilePath key' = some path) : key = key' :=
  Option.some.inj ((h.lists path hpath).symm.trans (h'.lists path hpath'))

theorem Known.isTenantPath (h : Known config drawn key)
    (hpath : config.spelling.getFilePath key = some path) :
    config.spelling.isTenantPath path = true := by
  rw [KeySpelling.isTenantPath, h.lists path hpath, Option.any_some]
  exact List.isPrefixOf_iff_prefix.mpr h.tenant

theorem fresh_iff : s.fresh fileId = true ↔ fileId < 2 ^ 128 ∧ fileId ∉ s.drawn := by
  rw [fresh, Bool.and_eq_true, decide_eq_true_iff, decide_eq_true_iff]

theorem Known.ne_of_fresh (h : Known config s.drawn key) (hfresh : s.fresh fileId = true)
    (hkey : IsKeyOf fileId key') : key ≠ key' := by
  rw [fresh_iff] at hfresh
  rintro rfl
  obtain ⟨id, hid, hlt, hisKeyOf⟩ := h.isKeyOf
  exact hfresh.2 (hisKeyOf.unique hkey hlt hfresh.1 ▸ hid)

theorem Built.known {spelled : Prop} (h : Built config spelled fileId key) (hspelled : spelled)
    (hfresh : s.fresh fileId = true) : Known config (fileId :: s.drawn) key :=
  ⟨⟨fileId, List.mem_cons_self, (fresh_iff.mp hfresh).1, h.isKeyOf⟩, h.tenant, h.lists hspelled⟩

/-- An upload that is in time is not settled. -/
theorem Settled.not_isInTime (h : Settled s key) : s.isInTime key = false := by
  rw [Bool.eq_false_iff]
  intro htime
  rw [isInTime, Option.any_eq_true] at htime
  obtain ⟨lastModified, hpending, hlt⟩ := htime
  have hold := h lastModified hpending
  rw [decide_eq_true_iff] at hlt
  exact absurd (hlt.trans_le hold) (Nat.lt_irrefl _)

theorem Settled.ne_of_isInTime (h : Settled s key) (htime : s.isInTime key' = true) :
    key ≠ key' := by
  rintro rfl
  rw [h.not_isInTime] at htime
  cases htime

theorem Settled.later (h : Settled s key) (hknown : Known config s.drawn key)
    (hlater : Later config s s') : Settled s' key := fun lastModified hpending =>
  (h lastModified (hlater.pending key hknown h lastModified hpending)).trans hlater.now

theorem Dead.later (h : Dead config s key) (hlater : Later config s s') : Dead config s' key where
  known := h.known.mono hlater.drawn
  no_row := fun hrow => h.no_row (hlater.rows key h.known h.settled hrow)
  settled := h.settled.later h.known hlater

theorem SweepKept.later (h : SweepKept config s sweep) (hlater : Later config s s') :
    SweepKept config s' sweep where
  cutoff := h.cutoff.trans (Int.ofNat_le.mpr hlater.now)
  unlisted := fun path hpath => by
    obtain ⟨key, hknown, hkey⟩ := h.unlisted path hpath
    exact ⟨key, hknown.mono hlater.drawn, hkey⟩
  infos := fun info hinfo => by
    obtain ⟨hknown, hsettled⟩ := h.infos info hinfo
    exact ⟨hknown.mono hlater.drawn, fun hold => (hsettled hold).later hknown hlater⟩
  batch := h.batch
  unreferenced := fun key hkey => (h.unreferenced key hkey).later hlater

theorem Swept.later (h : Swept config s) (hlater : Later config s s') (hkept : Kept config s')
    (hsweeps : s'.sweeps = s.sweeps) (hswept : s'.swept = s.swept) : Swept config s' where
  kept := hkept
  sweeps := fun sweep hsweep => (h.sweeps sweep (hsweeps ▸ hsweep)).later hlater
  swept := fun path hpath => by
    obtain ⟨key, hdead, hkey⟩ := h.swept path (hswept ▸ hpath)
    exact ⟨key, hdead.later hlater, hkey⟩

/-- Steps that leave the rows, the uploads and the ids alone unsettle nothing. -/
theorem later_of_eq (hnow : s.now ≤ s'.now) (hdrawn : s'.drawn = s.drawn)
    (hrows : s'.rows = s.rows) (hpending : s'.pending = s.pending) : Later config s s' where
  now := hnow
  drawn := hdrawn ▸ List.Subset.refl _
  rows := fun _ _ _ hrow => hrows ▸ hrow
  pending := fun _ _ _ _ hlookup => hpending ▸ hlookup

/-! ## Requests beside the sweeps -/

/-- An object at a path no upload in time stores at may change. -/
theorem Kept.setObject {objects : AList fun _ : Text => Instant} (h : Kept config s)
    (hsettled : ∀ key, Known config s.drawn key → config.spelling.getFilePath key = some path →
      Settled s key)
    (hplaced : config.spelling.isTenantPath path = true →
      ∃ key, Known config s.drawn key ∧ config.spelling.getFilePath key = some path)
    (hother : ∀ other, other ≠ path → objects.lookup other = s.objects.lookup other) :
    Kept config { s with objects := objects } where
  saved := h.saved
  pending := h.pending
  stored := fun key lastModified other hpending hkey => by
    by_cases hsame : other = path
    · exact .inr (hsettled key (h.pending key lastModified hpending) (hsame ▸ hkey) lastModified
        hpending)
    · rw [hother other hsame]
      exact h.stored key lastModified other hpending hkey
  placed := fun other hmem htenant => by
    by_cases hsame : other = path
    · rw [hsame] at htenant ⊢
      exact hplaced htenant
    · refine h.placed other ?_ htenant
      rw [← AList.lookup_isSome] at hmem ⊢
      rwa [← hother other hsame]

theorem Kept.setKnownObject {objects : AList fun _ : Text => Instant} (h : Kept config s)
    (hknown : Known config s.drawn key) (hpath : config.spelling.getFilePath key = some path)
    (hsettled : Settled s key)
    (hother : ∀ other, other ≠ path → objects.lookup other = s.objects.lookup other) :
    Kept config { s with objects := objects } :=
  h.setObject (fun _ hknown' hpath' => hknown'.unique hknown hpath' hpath ▸ hsettled)
    (fun _ => ⟨key, hknown, hpath⟩) hother

theorem Kept.setOtherObject {objects : AList fun _ : Text => Instant} (h : Kept config s)
    (hpath : config.spelling.isTenantPath path = false)
    (hother : ∀ other, other ≠ path → objects.lookup other = s.objects.lookup other) :
    Kept config { s with objects := objects } := by
  refine h.setObject (fun key hknown hkey => ?_) (fun htenant => ?_) hother
  · have htenant := hknown.isTenantPath hkey
    rw [hpath] at htenant
    cases htenant
  · rw [hpath] at htenant
    cases htenant

theorem Kept.draw (h : Kept config s) (fileId : Guid) :
    Kept config { s with drawn := fileId :: s.drawn } where
  saved := fun key hkey => by
    obtain ⟨hknown, hpending⟩ := h.saved key hkey
    exact ⟨hknown.mono (List.subset_cons_self _ _), hpending⟩
  pending := fun key lastModified hpending =>
    (h.pending key lastModified hpending).mono (List.subset_cons_self _ _)
  stored := h.stored
  placed := fun path hmem htenant => by
    obtain ⟨key, hknown, hpath⟩ := h.placed path hmem htenant
    exact ⟨key, hknown.mono (List.subset_cons_self _ _), hpath⟩

/-- An upload stores its object; no row has its key. -/
theorem Kept.write (h : Kept config s) (hknown : Known config s.drawn key)
    (hpath : config.spelling.getFilePath key = some path)
    (hnew : ∀ other, other ∈ s.rows ∨ other ∈ s.signed ∨ other ∈ s.doomed → other ≠ key) :
    Kept config { s with
      objects := s.objects.insert path s.now, pending := s.pending.insert key s.now } where
  saved := fun other hother => by
    obtain ⟨hknown', hpending⟩ := h.saved other hother
    refine ⟨hknown', ?_⟩
    rw [AList.lookup_insert_ne (hnew other hother)]
    exact hpending
  pending := fun other lastModified hpending => by
    by_cases hsame : other = key
    · exact hsame ▸ hknown
    · rw [AList.lookup_insert_ne hsame] at hpending
      exact h.pending other lastModified hpending
  stored := fun other lastModified path' hpending hpath' => by
    by_cases hsame : other = key
    · subst hsame
      rw [AList.lookup_insert] at hpending
      rw [hpath, Option.some.injEq] at hpath'
      rw [← hpath', AList.lookup_insert]
      exact .inl hpending
    · rw [AList.lookup_insert_ne hsame] at hpending
      have hne : path' ≠ path := by
        rintro rfl
        exact hsame ((h.pending other lastModified hpending).unique hknown hpath' hpath)
      rw [AList.lookup_insert_ne hne]
      exact h.stored other lastModified path' hpending hpath'
  placed := fun path' hmem htenant => by
    rw [AList.mem_insert] at hmem
    cases hmem with
    | inl hsame => exact ⟨key, hknown, hsame ▸ hpath⟩
    | inr hold => exact h.placed path' hold htenant

theorem Kept.setSweeps (h : Kept config s) (sweeps : List Sweep) (swept : List Text) :
    Kept config { s with sweeps := sweeps, swept := swept } :=
  ⟨h.saved, h.pending, h.stored, h.placed⟩

/-- Rows and signed keys change; an upload whose row is saved, or that failed, is over. -/
theorem Kept.setRows {rows signed doomed : List Text} (h : Kept config s)
    (hsaved : ∀ key, key ∈ rows ∨ key ∈ signed ∨ key ∈ doomed →
      Known config s.drawn key ∧ s.pending.lookup key = none) :
    Kept config { s with rows := rows, signed := signed, doomed := doomed } :=
  ⟨hsaved, h.pending, h.stored, h.placed⟩

theorem lookup_erase_le {pending : AList fun _ : Text => Instant} {lastModified : Instant}
    (h : (pending.erase key').lookup key = some lastModified) :
    key ≠ key' ∧ pending.lookup key = some lastModified := by
  have hne : key ≠ key' := by
    rintro rfl
    rw [AList.lookup_erase] at h
    cases h
  rw [AList.lookup_erase_ne hne] at h
  exact ⟨hne, h⟩

theorem Kept.erasePending (h : Kept config s) (key : Text) :
    Kept config { s with pending := s.pending.erase key } where
  saved := fun other hother => by
    obtain ⟨hknown, hpending⟩ := h.saved other hother
    refine ⟨hknown, Option.eq_none_iff_forall_ne_some.mpr fun lastModified herased => ?_⟩
    rw [(lookup_erase_le herased).2] at hpending
    cases hpending
  pending := fun other lastModified herased =>
    h.pending other lastModified (lookup_erase_le herased).2
  stored := fun other lastModified path herased =>
    h.stored other lastModified path (lookup_erase_le herased).2
  placed := h.placed

theorem Kept.settled_of_saved (h : Kept config s)
    (hkey : key ∈ s.rows ∨ key ∈ s.signed ∨ key ∈ s.doomed) : Settled s key := by
  intro lastModified hpending
  rw [(h.saved key hkey).2] at hpending
  cases hpending

/-- The key of a fresh file is no saved key. -/
theorem Kept.ne_of_fresh (h : Kept config s) (hfresh : s.fresh fileId = true)
    (hkey : IsKeyOf fileId key) :
    ∀ other, other ∈ s.rows ∨ other ∈ s.signed ∨ other ∈ s.doomed → other ≠ key :=
  fun other hother => (h.saved other hother).1.ne_of_fresh hfresh hkey

theorem exists_pending_of_isInTime (h : s.isInTime key = true) :
    ∃ lastModified, s.pending.lookup key = some lastModified := by
  rw [isInTime, Option.any_eq_true] at h
  obtain ⟨lastModified, hpending, -⟩ := h
  exact ⟨lastModified, hpending⟩

theorem lookup_insert_ne_path (s : ObjectStore) (path : Text) (now : Instant) :
    ∀ other, other ≠ path → (s.objects.insert path now).lookup other = s.objects.lookup other :=
  fun _ hne => AList.lookup_insert_ne hne

theorem lookup_erase_ne_path (s : ObjectStore) (path : Text) :
    ∀ other, other ≠ path → (s.objects.erase path).lookup other = s.objects.lookup other :=
  fun _ hne => AList.lookup_erase_ne hne

theorem sweepKept_beginSweep (h : Kept config s) : SweepKept config s (s.beginSweep config) where
  cutoff := by
    show (s.now : Int) - MINIMUM_AGE + MINIMUM_AGE ≤ s.now
    omega
  unlisted := fun path hpath => by
    obtain ⟨hmem, htenant⟩ := List.mem_filter.mp hpath
    exact h.placed path (AList.mem_keys.mpr hmem) htenant
  infos := fun _ hinfo => absurd hinfo List.not_mem_nil
  batch := fun _ hinfo => absurd hinfo List.not_mem_nil
  unreferenced := fun _ hkey => absurd hkey List.not_mem_nil

/-! ## What a sweep does -/

theorem later_setSweeps (s : ObjectStore) (sweeps : List Sweep) (swept : List Text) :
    Later config s { s with sweeps := sweeps, swept := swept } :=
  later_of_eq (Nat.le_refl _) rfl rfl rfl

/-- One job goes on; what the others know stays true. -/
theorem Swept.setSweep {i : Nat} {next : Sweep} (h : Swept config s)
    (hnext : SweepKept config s next) : Swept config (s.setSweep i next) where
  kept := h.kept.setSweeps _ _
  sweeps := fun other hother => by
    refine SweepKept.later ?_ (later_setSweeps s _ s.swept)
    cases List.mem_or_eq_of_mem_set hother with
    | inl hold => exact h.sweeps other hold
    | inr heq => exact heq ▸ hnext
  swept := fun path hpath => by
    obtain ⟨key, hdead, hkey⟩ := h.swept path hpath
    exact ⟨key, hdead.later (later_setSweeps s _ s.swept), hkey⟩

/-- The entry of a file whose key is known: an old one is settled. -/
theorem infoOf_kept {info : StorageObjectInfo} {cutoff : Int} (h : Kept config s)
    (hcutoff : cutoff + MINIMUM_AGE ≤ s.now) (hknown : Known config s.drawn key)
    (hpath : config.spelling.getFilePath key = some path)
    (hinfo : s.infoOf config path = some info) : Known config s.drawn info.key ∧
      (info.lastModified ≤ cutoff → Settled s info.key) := by
  rw [infoOf, hknown.lists path hpath, Option.map_some, Option.some.injEq] at hinfo
  subst hinfo
  refine ⟨hknown, fun hold lastModified hpending => ?_⟩
  cases h.stored key lastModified path hpending hpath with
  | inr hsettled => exact hsettled
  | inl hobject =>
    -- the entry shows the time of the upload's last write
    have hshown : (lastModified : Int) ≤ cutoff := by
      rw [hobject] at hold
      exact hold
    have hage : (lastModified : Int) + MINIMUM_AGE ≤ s.now :=
      (Int.add_le_add_right hshown _).trans hcutoff
    exact Int.ofNat_le.mp hage

theorem Swept.act {i : Nat} {move : SweepMove} (h : Swept config s)
    (hi : s.sweeps[i]? = some sweep) (hact : s.act config i sweep move = some s') :
    Swept config s' := by
  have hsweep := h.sweeps sweep (List.mem_of_getElem? hi)
  cases acted_of_act hact with
  | listed path info hplace hinfo =>
    obtain ⟨key, hknown, hpath⟩ : ∃ key, Known config s.drawn key ∧
        config.spelling.getFilePath key = some path :=
      hplace.elim (hsweep.unlisted path) fun hplaced => h.kept.placed path hplaced.1 hplaced.2
    refine h.setSweep ⟨hsweep.cutoff,
      fun other hother => hsweep.unlisted other (List.mem_of_mem_erase hother),
      fun other hother => ?_, hsweep.batch, hsweep.unreferenced⟩
    rw [List.mem_append, List.mem_append, List.mem_singleton] at hother
    rcases hother with (hold | rfl) | hbatch
    · exact hsweep.infos other (List.mem_append_left _ hold)
    · exact infoOf_kept h.kept hsweep.cutoff hknown hpath hinfo
    · exact hsweep.infos other (List.mem_append_right _ hbatch)
  | missed path hgone =>
    exact h.setSweep ⟨hsweep.cutoff,
      fun other hother => hsweep.unlisted other (List.mem_of_mem_erase hother), hsweep.infos,
      hsweep.batch, hsweep.unreferenced⟩
  | passed info rest hlisted hyoung =>
    have hinfos := hsweep.infos
    rw [hlisted] at hinfos
    exact h.setSweep ⟨hsweep.cutoff, hsweep.unlisted,
      fun other hother => hinfos other (List.mem_cons_of_mem _ hother), hsweep.batch,
      hsweep.unreferenced⟩
  | batched info rest hlisted hold =>
    have hinfos := hsweep.infos
    rw [hlisted] at hinfos
    refine h.setSweep ⟨hsweep.cutoff, hsweep.unlisted, fun other hother => ?_,
      fun other hother => ?_, hsweep.unreferenced⟩
    · -- the entry moves from the listing to the batch
      apply hinfos other
      rw [List.mem_append, List.mem_append, List.mem_singleton] at hother
      rw [List.mem_append, List.mem_cons]
      rcases hother with hrest | hbatch | rfl
      · exact .inl (.inr hrest)
      · exact .inr hbatch
      · exact .inl (.inl rfl)
    · cases List.mem_append.mp hother with
      | inl hbatch => exact hsweep.batch other hbatch
      | inr hnew =>
        rw [List.mem_singleton.mp hnew]
        exact hold
  | lookedUp hdone =>
    refine h.setSweep ⟨hsweep.cutoff, hsweep.unlisted, fun other hother => ?_,
      fun _ hinfo => absurd hinfo List.not_mem_nil, fun key hkey => ?_⟩
    · rw [List.append_nil] at hother
      exact hsweep.infos other (List.mem_append_left _ hother)
    · obtain ⟨hbatch, hrow⟩ := List.mem_filter.mp hkey
      obtain ⟨info, hinfo, rfl⟩ := List.mem_map.mp hbatch
      obtain ⟨hknown, hsettled⟩ := hsweep.infos info (List.mem_append_right _ hinfo)
      exact ⟨hknown, of_decide_eq_true hrow, hsettled (hsweep.batch info hinfo)⟩
  | deleted key path rest swept hunreferenced hpath hswept =>
    have hall := hsweep.unreferenced
    rw [hunreferenced] at hall
    have hdead : Dead config s key := hall key List.mem_cons_self
    have hlater : Later config s { s with objects := s.objects.erase path, swept := swept } :=
      later_of_eq (Nat.le_refl _) rfl rfl rfl
    -- only the objects and the record of what was swept change before the job goes on
    have hmarked : Swept config { s with objects := s.objects.erase path, swept := swept } := by
      refine ⟨?_, fun other hother => (h.sweeps other hother).later hlater, fun other hother => ?_⟩
      · exact (h.kept.setKnownObject hdead.known hpath hdead.settled
          (lookup_erase_ne_path s path)).setSweeps s.sweeps swept
      · obtain ⟨key, hdead, hkey⟩ : ∃ key, Dead config s key ∧
            config.spelling.getFilePath key = some other := by
          rcases hswept with rfl | rfl
          · exact h.swept other hother
          · cases List.mem_cons.mp hother with
            | inl heq => exact ⟨key, hdead, heq ▸ hpath⟩
            | inr hold => exact h.swept other hold
        exact ⟨key, hdead.later hlater, hkey⟩
    have hgoes : SweepKept config s
        { sweep with unreferenced := rest, deleted := sweep.deleted + 1 } :=
      ⟨hsweep.cutoff, hsweep.unlisted, hsweep.infos, hsweep.batch,
        fun other hother => hall other (List.mem_cons_of_mem _ hother)⟩
    exact hmarked.setSweep (hgoes.later hlater)
  | finished => exact h.setSweep ⟨hsweep.cutoff, hsweep.unlisted, hsweep.infos, hsweep.batch,
      hsweep.unreferenced⟩
  | failed => exact h.setSweep ⟨hsweep.cutoff, hsweep.unlisted, hsweep.infos, hsweep.batch,
      hsweep.unreferenced⟩

/-! ## Every step -/

theorem Swept.setObjects {objects : AList fun _ : Text => Instant} (h : Swept config s)
    (hkept : Kept config { s with objects := objects }) :
    Swept config { s with objects := objects } :=
  h.later (later_of_eq (Nat.le_refl _) rfl rfl rfl) hkept rfl rfl

theorem Swept.effect {spelled : Prop} (h : Swept config s) (hspelled : spelled)
    (heffect : Effect config s spelled s') : Swept config s' := by
  have hkept := h.kept
  cases heffect with
  | refused fileId hfresh =>
    refine h.later ⟨Nat.le_refl _, List.subset_cons_self _ _, fun _ _ _ hrow => hrow,
      fun _ _ _ _ hpending => hpending⟩ (hkept.draw fileId) rfl rfl
  | uploaded fileId key path hfresh hkey hpath =>
    have hknown : Known config (fileId :: s.drawn) key := hkey.known hspelled hfresh
    refine h.later ⟨Nat.le_refl _, List.subset_cons_self _ _, fun _ _ _ hrow => hrow,
      fun other hother _ lastModified hpending => ?_⟩ ?_ rfl rfl
    · rwa [AList.lookup_insert_ne (hother.ne_of_fresh hfresh hkey.isKeyOf)] at hpending
    · exact (hkept.draw fileId).write hknown hpath (hkept.ne_of_fresh hfresh hkey.isKeyOf)
  | written key path htime hpath =>
    obtain ⟨lastModified, hpending⟩ := exists_pending_of_isInTime htime
    have hknown := hkept.pending key lastModified hpending
    refine h.later ⟨Nat.le_refl _, List.Subset.refl _, fun _ _ _ hrow => hrow,
      fun other _ hsettled lastModified hpending => ?_⟩ ?_ rfl rfl
    · rwa [AList.lookup_insert_ne (hsettled.ne_of_isInTime htime)] at hpending
    · refine hkept.write hknown hpath fun other hother heq => ?_
      rw [heq] at hother
      rw [(hkept.saved key hother).2] at hpending
      cases hpending
  | committed key htime =>
    obtain ⟨lastModified, hpending⟩ := exists_pending_of_isInTime htime
    have hknown := hkept.pending key lastModified hpending
    refine h.later ⟨Nat.le_refl _, List.Subset.refl _, fun other _ hsettled hrow => ?_,
      fun other _ _ lastModified herased => (lookup_erase_le herased).2⟩ ?_ rfl rfl
    · exact (List.mem_cons.mp hrow).resolve_left (hsettled.ne_of_isInTime htime)
    · refine (hkept.erasePending key).setRows fun other hother => ?_
      rw [List.mem_cons, or_assoc] at hother
      cases hother with
      | inl heq =>
        rw [heq]
        exact ⟨hknown, AList.lookup_erase key _⟩
      | inr hother => exact (hkept.erasePending key).saved other hother
  | abandoned key =>
    exact h.later ⟨Nat.le_refl _, List.Subset.refl _, fun _ _ _ hrow => hrow,
      fun other _ _ lastModified herased => (lookup_erase_le herased).2⟩
      (hkept.erasePending key) rfl rfl
  | reserved fileId key hfresh hkey =>
    have hknown : Known config (fileId :: s.drawn) key := hkey.known hspelled hfresh
    have hnone : s.pending.lookup key = none := by
      refine Option.eq_none_iff_forall_ne_some.mpr fun lastModified hpending => ?_
      exact (hkept.pending key lastModified hpending).ne_of_fresh hfresh hkey.isKeyOf rfl
    refine h.later ⟨Nat.le_refl _, List.subset_cons_self _ _, fun other hother _ hrow => ?_,
      fun _ _ _ _ hpending => hpending⟩ ?_ rfl rfl
    · exact (List.mem_cons.mp hrow).resolve_left (hother.ne_of_fresh hfresh hkey.isKeyOf)
    · refine (hkept.draw fileId).setRows fun other hother => ?_
      rw [List.mem_cons, List.mem_cons] at hother
      rcases hother with (rfl | hrow) | (rfl | hsigned) | hdoomed
      · exact ⟨hknown, hnone⟩
      · exact (hkept.draw fileId).saved other (.inl hrow)
      · exact ⟨hknown, hnone⟩
      · exact (hkept.draw fileId).saved other (.inr (.inl hsigned))
      · exact (hkept.draw fileId).saved other (.inr (.inr hdoomed))
  | put key path hkey hpath =>
    have hsaved : key ∈ s.rows ∨ key ∈ s.signed ∨ key ∈ s.doomed := .inr (.inl hkey)
    exact h.setObjects (hkept.setKnownObject (hkept.saved key hsaved).1 hpath
      (hkept.settled_of_saved hsaved) (lookup_insert_ne_path s path s.now))
  | rowRemoved key hkey =>
    refine h.later ⟨Nat.le_refl _, List.Subset.refl _,
      fun other _ _ hrow => List.mem_of_mem_filter hrow, fun _ _ _ _ hpending => hpending⟩ ?_
      rfl rfl
    refine hkept.setRows fun other hother => ?_
    rw [List.mem_cons] at hother
    rcases hother with hrow | hsigned | rfl | hdoomed
    · exact hkept.saved other (.inl (List.mem_of_mem_filter hrow))
    · exact hkept.saved other (.inr (.inl hsigned))
    · exact hkept.saved other (.inl hkey)
    · exact hkept.saved other (.inr (.inr hdoomed))
  | objectDeleted key path hkey hpath =>
    have hsaved : key ∈ s.rows ∨ key ∈ s.signed ∨ key ∈ s.doomed := .inr (.inr hkey)
    exact h.setObjects (hkept.setKnownObject (hkept.saved key hsaved).1 hpath
      (hkept.settled_of_saved hsaved) (lookup_erase_ne_path s path))
  | otherStored path hother =>
    exact h.setObjects (hkept.setOtherObject hother (lookup_insert_ne_path s path s.now))
  | otherDeleted path hother =>
    exact h.setObjects (hkept.setOtherObject hother (lookup_erase_ne_path s path))
  | ticked ticks =>
    have hnow : s.now ≤ s.now + ticks := Nat.le_add_right _ _
    refine h.later (later_of_eq hnow rfl rfl rfl) ?_ rfl rfl
    exact ⟨hkept.saved, hkept.pending, fun key lastModified path hpending hpath =>
      (hkept.stored key lastModified path hpending hpath).imp_right fun hold => hold.trans hnow,
      hkept.placed⟩
  | begun =>
    refine ⟨hkept.setSweeps _ _, fun sweep hsweep => ?_, fun path hpath => ?_⟩
    · refine SweepKept.later ?_ (later_setSweeps s _ s.swept)
      cases List.mem_append.mp hsweep with
      | inl hold => exact h.sweeps sweep hold
      | inr hnew =>
        rw [List.mem_singleton.mp hnew]
        exact sweepKept_beginSweep hkept
    · obtain ⟨key, hdead, hkey⟩ := h.swept path hpath
      exact ⟨key, hdead.later (later_setSweeps s _ s.swept), hkey⟩
  | acted i sweep move s' hi hrunning hact => exact h.act hi hact

/-- The record of what was swept only grows. -/
theorem Effect.swept_subset {spelled : Prop} (h : Effect config s spelled s') :
    s.swept ⊆ s'.swept := by
  cases h with
  | acted i sweep move _ hi hrunning hact =>
    cases acted_of_act hact with
    | deleted key path rest swept hunreferenced hpath hswept =>
      rcases hswept with rfl | rfl
      · exact fun _ => id
      · exact List.subset_cons_self _ _
    | _ => exact fun _ => id
  | _ => exact fun _ => id

theorem swept_initial (config : SweepConfig) (now : Instant) : Swept config (initial now) where
  kept :=
    { saved := fun key hkey => by
        rcases hkey with hrow | hsigned | hdoomed
        · cases hrow
        · cases hsigned
        · cases hdoomed
      pending := fun key lastModified hpending => by cases hpending
      stored := fun key lastModified path hpending => by cases hpending
      placed := fun path hmem => absurd hmem (AList.notMem_empty path) }
  sweeps := fun sweep hsweep => absurd hsweep List.not_mem_nil
  swept := fun path hpath => absurd hpath List.not_mem_nil

/-- At every moment, whatever runs beside it. -/
theorem swept_of_reaches {start : Instant}
    (h : Reaches (step config) (IsSpelled config) (initial start) s) : Swept config s :=
  h.invariant (Swept config) (swept_initial config start) fun _ _ _ hs hspelled hstep =>
    hs.effect hspelled (effect_of_step hstep)

/-! ## A run without errors misses no orphan -/

/-- No row leads to what is kept there. -/
def Rowless (config : SweepConfig) (path : Text) (s : ObjectStore) : Prop :=
  ∀ key ∈ s.rows, config.spelling.getFilePath key ≠ some path

/-- Where in its job an object is that the listing began with. -/
structure Ahead (path name : Text) (sweep : Sweep) : Prop where
  running : sweep.outcome = .running
  place : path ∈ sweep.unlisted ∨
    (∃ info ∈ sweep.listed ++ sweep.batch, info.key = name ∧ info.lastModified ≤ sweep.cutoff) ∨
    name ∈ sweep.unreferenced

/-- The old object is gone, or job `i` has yet to come to it. -/
structure Tracked (path name : Text) (lastModified : Instant) (i : Nat) (s : ObjectStore) :
    Prop where
  old : lastModified < s.now
  sweep : ∃ sweep, s.sweeps[i]? = some sweep ∧ (lastModified : Int) ≤ sweep.cutoff ∧
    (s.objects.lookup path = some lastModified →
      sweep.outcome = .failed ∨ Ahead path name sweep)

variable {name : Text} {lastModified : Instant} {i : Nat}

theorem lookup_of_insert (hne : lastModified < s.now)
    (h : (s.objects.insert key s.now).lookup path = some lastModified) :
    s.objects.lookup path = some lastModified := by
  by_cases hsame : path = key
  · rw [hsame, AList.lookup_insert, Option.some.injEq] at h
    exact absurd h (Nat.ne_of_gt hne)
  · rwa [AList.lookup_insert_ne hsame] at h

/-- A job only deletes; it keeps its cutoff and leaves the other jobs alone. -/
theorem act_frame (path : Text) (lastModified : Instant) {move : SweepMove}
    (h : s.act config i sweep move = some s') :
    ∃ next, s'.now = s.now ∧
      (s'.objects.lookup path = some lastModified → s.objects.lookup path = some lastModified) ∧
      s'.sweeps = s.sweeps.set i next ∧ next.cutoff = sweep.cutoff := by
  cases acted_of_act h with
  | deleted => exact ⟨_, rfl, fun h => (lookup_erase_le h).2, rfl, rfl⟩
  | _ => exact ⟨_, rfl, id, rfl, rfl⟩

/-- Requests put nothing old in the store and leave the jobs alone. -/
theorem Effect.frame {spelled : Prop} (path : Text) (i : Nat) (h : Effect config s spelled s')
    (hold : lastModified < s.now) :
    s.now ≤ s'.now ∧
      (s'.objects.lookup path = some lastModified → s.objects.lookup path = some lastModified) ∧
      ((∀ sweep, s.sweeps[i]? = some sweep → s'.sweeps[i]? = some sweep) ∨
        ∃ sweep move, s.sweeps[i]? = some sweep ∧ sweep.outcome = .running ∧
          s.act config i sweep move = some s') := by
  cases h with
  | refused => exact ⟨Nat.le_refl _, id, .inl fun _ => id⟩
  | uploaded => exact ⟨Nat.le_refl _, lookup_of_insert hold, .inl fun _ => id⟩
  | written => exact ⟨Nat.le_refl _, lookup_of_insert hold, .inl fun _ => id⟩
  | committed => exact ⟨Nat.le_refl _, id, .inl fun _ => id⟩
  | abandoned => exact ⟨Nat.le_refl _, id, .inl fun _ => id⟩
  | reserved => exact ⟨Nat.le_refl _, id, .inl fun _ => id⟩
  | put => exact ⟨Nat.le_refl _, lookup_of_insert hold, .inl fun _ => id⟩
  | rowRemoved => exact ⟨Nat.le_refl _, id, .inl fun _ => id⟩
  | objectDeleted => exact ⟨Nat.le_refl _, fun h => (lookup_erase_le h).2, .inl fun _ => id⟩
  | otherStored => exact ⟨Nat.le_refl _, lookup_of_insert hold, .inl fun _ => id⟩
  | otherDeleted => exact ⟨Nat.le_refl _, fun h => (lookup_erase_le h).2, .inl fun _ => id⟩
  | ticked ticks => exact ⟨Nat.le_add_right _ _, id, .inl fun _ => id⟩
  | begun =>
    refine ⟨Nat.le_refl _, id, .inl fun sweep hi => ?_⟩
    obtain ⟨hlt, -⟩ := List.getElem?_eq_some_iff.mp hi
    exact (List.getElem?_append_left hlt).trans hi
  | acted j sweep move _ hj hrunning hact =>
    obtain ⟨next, hnow, hobjects, hsweeps, -⟩ := act_frame path lastModified hact
    refine ⟨Nat.le_of_eq hnow.symm, hobjects, ?_⟩
    by_cases hsame : j = i
    · exact .inr ⟨sweep, move, hsame ▸ hj, hrunning, hsame ▸ hact⟩
    · refine .inl fun other hother => ?_
      rw [hsweeps, List.getElem?_set_ne hsame]
      exact hother

/-- Job `i` comes to the object, or passes it on to its next stage. -/
theorem Ahead.act {move : SweepMove} (h : Ahead path name sweep)
    (hi : s.sweeps[i]? = some sweep) (hold : (lastModified : Int) ≤ sweep.cutoff)
    (hname : config.spelling.listedKey path = some name)
    (hpath : config.spelling.getFilePath name = some path) (hrow : name ∉ s.rows)
    (hobject : s.objects.lookup path = some lastModified)
    (hact : s.act config i sweep move = some s') :
    ∃ next, s'.sweeps[i]? = some next ∧ next.cutoff = sweep.cutoff ∧
      (s'.objects.lookup path = some lastModified →
        next.outcome = .failed ∨ Ahead path name next) := by
  obtain ⟨hlt, -⟩ := List.getElem?_eq_some_iff.mp hi
  have hset : ∀ next, (s.sweeps.set i next)[i]? = some next := fun next =>
    List.getElem?_set_self hlt
  cases acted_of_act hact with
  | listed other info _ hinfo =>
    refine ⟨_, hset _, rfl, fun _ => .inr ⟨h.running, ?_⟩⟩
    rcases h.place with hunlisted | ⟨old, hmem, hkey, hle⟩ | hunreferenced
    · by_cases hsame : path = other
      · -- its entry shows the time it was last written
        subst hsame
        rw [infoOf, hname, hobject, Option.map_some, Option.some.injEq] at hinfo
        subst hinfo
        exact .inr (.inl ⟨_, List.mem_append_left _ (List.mem_append_right _ List.mem_cons_self),
          rfl, hold⟩)
      · exact .inl ((List.mem_erase_of_ne hsame).mpr hunlisted)
    · refine .inr (.inl ⟨old, ?_, hkey, hle⟩)
      rw [List.mem_append] at hmem ⊢
      exact hmem.imp_left (List.mem_append_left _)
    · exact .inr (.inr hunreferenced)
  | missed other hgone =>
    refine ⟨_, hset _, rfl, fun _ => .inr ⟨h.running, h.place.imp_left fun hunlisted => ?_⟩⟩
    have hne : path ≠ other := by
      rintro rfl
      rw [← AList.lookup_eq_none, hobject] at hgone
      cases hgone
    exact (List.mem_erase_of_ne hne).mpr hunlisted
  | passed info rest hlisted hyoung =>
    have hplace := h.place
    rw [hlisted] at hplace
    refine ⟨_, hset _, rfl, fun _ => .inr ⟨h.running, hplace.imp_right (Or.imp_left ?_)⟩⟩
    rintro ⟨old, hmem, hkey, hle⟩
    rw [List.cons_append] at hmem
    cases List.mem_cons.mp hmem with
    | inl heq => exact absurd (heq ▸ hle) (Int.not_le.mpr hyoung)
    | inr hmem => exact ⟨old, hmem, hkey, hle⟩
  | batched info rest hlisted _ =>
    have hplace := h.place
    rw [hlisted] at hplace
    refine ⟨_, hset _, rfl, fun _ => .inr ⟨h.running, hplace.imp_right (Or.imp_left ?_)⟩⟩
    rintro ⟨old, hmem, hkey, hle⟩
    refine ⟨old, ?_, hkey, hle⟩
    rw [List.mem_append, List.mem_cons] at hmem
    rw [List.mem_append, List.mem_append, List.mem_singleton]
    rcases hmem with (heq | hrest) | hbatch
    · exact .inr (.inr heq)
    · exact .inl hrest
    · exact .inr (.inl hbatch)
  | lookedUp hdone =>
    refine ⟨_, hset _, rfl, fun _ => .inr ⟨h.running, ?_⟩⟩
    rcases h.place with hunlisted | ⟨old, hmem, hkey, hle⟩ | hunreferenced
    · exact .inl hunlisted
    · cases List.mem_append.mp hmem with
      | inl hlisted =>
        exact .inr (.inl ⟨old, List.mem_append_left _ hlisted, hkey, hle⟩)
      | inr hbatch =>
        refine .inr (.inr (List.mem_filter.mpr ⟨List.mem_map.mpr ⟨old, hbatch, hkey⟩, ?_⟩))
        exact decide_eq_true hrow
    · rw [hdone] at hunreferenced
      cases hunreferenced
  | deleted key other rest swept hunreferenced hother _ =>
    refine ⟨_, hset _, rfl, fun hstill => .inr ⟨h.running, ?_⟩⟩
    -- the object is still there, so it is not the one that was deleted
    have hne : path ≠ other := (lookup_erase_le hstill).1
    have hplace := h.place
    rw [hunreferenced] at hplace
    refine hplace.imp_right (Or.imp_right fun hmem => (List.mem_cons.mp hmem).resolve_left ?_)
    rintro rfl
    exact hne (Option.some.inj (hpath.symm.trans hother))
  | finished hunlisted hlisted hbatch hunreferenced =>
    -- nothing is ahead of a job that is done
    exfalso
    have hplace := h.place
    rw [hunlisted, hlisted, hbatch, hunreferenced] at hplace
    rcases hplace with hnone | ⟨info, hnone, -⟩ | hnone
    · cases hnone
    · cases hnone
    · cases hnone
  | failed => exact ⟨_, hset _, rfl, fun _ => .inl rfl⟩

theorem Tracked.step (h : Tracked path name lastModified i s)
    (hname : config.spelling.listedKey path = some name)
    (hpath : config.spelling.getFilePath name = some path) (hrowless : Rowless config path s)
    (hstep : s.step config move = some s') : Tracked path name lastModified i s' := by
  obtain ⟨sweep, hi, hcutoff, hobject⟩ := h.sweep
  obtain ⟨hnow, hlookup, hframe⟩ := (effect_of_step hstep).frame path i h.old
  refine ⟨h.old.trans_le hnow, ?_⟩
  rcases hframe with hsame | ⟨sweep', m, hi', hrunning, hact⟩
  · exact ⟨sweep, hsame sweep hi, hcutoff, fun hstill => hobject (hlookup hstill)⟩
  · have heq : sweep' = sweep := Option.some.inj (hi'.symm.trans hi)
    subst heq
    by_cases hthere : s.objects.lookup path = some lastModified
    · cases hobject hthere with
      | inl hfailed =>
        rw [hrunning] at hfailed
        cases hfailed
      | inr hahead =>
        have hrow : name ∉ s.rows := fun hmem => hrowless name hmem hpath
        obtain ⟨next, hnext, hsame, hplace⟩ :=
          hahead.act hi hcutoff hname hpath hrow hthere hact
        exact ⟨next, hnext, hsame ▸ hcutoff, hplace⟩
    · obtain ⟨next, -, hkept, hsweeps, hsame⟩ := act_frame path lastModified hact
      obtain ⟨hlt, -⟩ := List.getElem?_eq_some_iff.mp hi
      refine ⟨next, ?_, hsame ▸ hcutoff, fun hstill => absurd (hkept hstill) hthere⟩
      rw [hsweeps, List.getElem?_set_self hlt]

/-- An old object the listing begins with is tracked. -/
theorem tracked_beginSweep (hstored : s.objects.lookup path = some lastModified)
    (htenant : config.spelling.isTenantPath path = true)
    (hold : lastModified + MINIMUM_AGE ≤ s.now) :
    Tracked path name lastModified s.sweeps.length
      { s with sweeps := s.sweeps ++ [s.beginSweep config] } where
  old := (Nat.lt_add_of_pos_right (by decide)).trans_le hold
  sweep := by
    refine ⟨s.beginSweep config, List.getElem?_concat_length, ?_, fun _ => .inr ⟨rfl, .inl ?_⟩⟩
    · have hage : (lastModified : Int) + MINIMUM_AGE ≤ s.now := Int.ofNat_le.mpr hold
      show (lastModified : Int) ≤ s.now - MINIMUM_AGE
      omega
    · refine List.mem_filter.mpr ⟨?_, htenant⟩
      rw [← AList.mem_keys, ← AList.lookup_isSome, hstored]
      rfl

instance (config : SweepConfig) (s : ObjectStore) : DecidablePred (IsSpelled config s)
  | .upload fileId command =>
    inferInstanceAs (Decidable
      (keepsSpelling config (uploadKey config fileId command) command.path = true))
  | .reserve fileId tenantId query =>
    inferInstanceAs (Decidable
      (keepsSpelling config (reserveKey fileId tenantId query) query.path = true))
  | .write _ | .commit _ | .abandon _ | .put _ | .removeRow _ | .deleteObject _ | .putOther _
  | .deleteOther _ | .tick _ | .beginSweep | .sweep _ _ => .isTrue trivial

/-- Files under `/data`. -/
def sampleConfig : SweepConfig where
  spelling := .files ⟨[text "data"], by
    intro segment hmem
    rw [List.mem_singleton.mp hmem]
    constructor <;> decide⟩
  unicode := ⟨id, id, fun _ => false⟩
  invalidFileNameChars := [NUL, SLASH]

def sampleCommand (path : Text) : UploadFileCommand where
  tenantId := 7
  userId := 5
  bucketName := text "b"
  fileName := text "n.txt"
  contentType := text "text/plain"
  content := ⟨[0x68, 0x69], 0, true⟩
  sizeBytes := 2
  path := some path
  isPublic := false
  metadata := none

def sampleKey (fileId : Guid) (path : Text) : Text :=
  uploadKey sampleConfig fileId (sampleCommand path)

/-- One upload is saved, one fails, and a day passes. -/
def uploadsOf (path : Text) : List StoreMove :=
  [.upload 1 (sampleCommand path), .commit (sampleKey 1 path), .upload 2 (sampleCommand path),
    .abandon (sampleKey 2 path), .tick MINIMUM_AGE]

def filePathOf (fileId : Guid) (path : Text) : Text :=
  (sampleConfig.spelling.getFilePath (sampleKey fileId path)).getD []

/-- A sweep of the two objects, of which it deletes some. -/
def sweepOf (path : Text) (deleted : Nat) : List StoreMove :=
  [.sweep 0 (.list (filePathOf 1 path)), .sweep 0 (.list (filePathOf 2 path)),
    .sweep 0 .consider, .sweep 0 .consider, .sweep 0 .lookup] ++
    List.replicate deleted (.sweep 0 .deleteNext) ++ [.sweep 0 .finish]

end ObjectStore

end Wallow.Storage
