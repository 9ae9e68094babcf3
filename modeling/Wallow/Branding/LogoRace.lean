import Wallow.Branding.ClientLogos

/-!
# The logo the row names

The invariant of the overlapping requests: the object of the row's key is stored, or a request that
has deleted it still has to save this row.  It rests on the keys: one that is minted for a request
is named by no row, and known to no other request, before the save of its own.
-/

namespace Wallow.Branding

open Transition

namespace ClientLogos

section Proofs

variable {s t : ClientLogos} {call : BrandingCall} {i : Nat} {stage : BrandingStage}

/-- The key of the row is null or names an object. -/
def Servable (s : ClientLogos) : Prop :=
  ∀ row : ClientBranding, s.row = some row → ∀ key, row.logoStorageKey = some key →
    key ∈ s.objects

/-- No request is running. -/
def Quiescent (s : ClientLogos) : Prop := ∀ call ∈ s.calls, call.stage = .ended

structure Start (s : ClientLogos) : Prop where
  calls : s.calls = []
  servable : Servable s
  minted : ∀ row : ClientBranding, s.row = some row → ∀ key, row.logoStorageKey = some key →
    key ∈ s.minted

/-! ## The invariant -/

def loadedRow : BrandingStage → Option ClientBranding
  | .deletingOld row _ _ => some row
  | .uploading _ row _ | .saving row _ _ => row
  | _ => none

/-- The keys a request has read from a row. -/
def known : BrandingStage → List String
  | .deletingRemoved key => [key]
  | stage => ((loadedRow stage).bind ClientBranding.logoStorageKey).toList

/-- The save of the request changes the key it has loaded. -/
def Replaces (request : BrandingRequest) : Prop :=
  request ≠ .upsert none ∧ request ≠ .organizationDeleted

/-- The new logo, where there is one, is uploaded. -/
def Uploaded (objects : List String) (request : BrandingRequest) : Prop :=
  ∀ key, request.ownKey = some key → key ∈ objects

def StageInv (s : ClientLogos) (request : BrandingRequest) : BrandingStage → Prop
  | .started | .ended => True
  | .deletingOld row key retry =>
    row.logoStorageKey = some key ∧ Replaces request ∧
      (retry = true → Uploaded s.objects request)
  | .uploading key row deleted =>
    request = .upsert (some key) ∧
      ∀ old, deleted = some old → row.bind ClientBranding.logoStorageKey = some old
  | .saving row deleted _ =>
    Uploaded s.objects request ∧ ∀ old, deleted = some old →
      row.bind ClientBranding.logoStorageKey = some old ∧ Replaces request
  | .rereading => Uploaded s.objects request
  | .deletingUpload key => request.ownKey = some key
  | .deletingRemoved key =>
    ∀ row : ClientBranding, s.row = some row → row.logoStorageKey ≠ some key

structure CallInv (s : ClientLogos) (call : BrandingCall) : Prop where
  stage : StageInv s call.request call.stage
  /-- The row that was loaded is still the one that names its key, if any does. -/
  ids : ∀ loaded : ClientBranding, loadedRow call.stage = some loaded →
    ∀ key, loaded.logoStorageKey = some key →
      ∀ row : ClientBranding, s.row = some row → row.logoStorageKey = some key →
        row.id = loaded.id
  known : ∀ key ∈ known call.stage, key ∈ s.minted
  ownMinted : ∀ key, call.request.ownKey = some key → key ∈ s.minted
  ownUnnamed : call.stage ≠ .ended → ∀ key, call.request.ownKey = some key →
    ∀ row : ClientBranding, s.row = some row → row.logoStorageKey ≠ some key
  ownUnknown : call.stage ≠ .ended → ∀ key, call.request.ownKey = some key →
    ∀ other ∈ s.calls, key ∉ ClientLogos.known other.stage

/-- The request has deleted the object and saves the row next. -/
def Owes (stage : BrandingStage) (row : ClientBranding) (key : String) : Prop :=
  deletedKey stage = some key ∧ ∃ loaded, loadedRow stage = some loaded ∧ loaded.id = row.id

def Covered (s : ClientLogos) : Prop :=
  ∀ row : ClientBranding, s.row = some row → ∀ key, row.logoStorageKey = some key →
    key ∈ s.objects ∨ ∃ (j : Nat) (call : BrandingCall), s.calls[j]? = some call ∧
      Owes call.stage row key

structure Inv (s : ClientLogos) : Prop where
  calls : ∀ (j : Nat) (call : BrandingCall), s.calls[j]? = some call → CallInv s call
  unique : ∀ (j k : Nat) (call other : BrandingCall), s.calls[j]? = some call →
    s.calls[k]? = some other → ∀ key, call.request.ownKey = some key →
      other.request.ownKey = some key → j = k
  minted : ∀ row : ClientBranding, s.row = some row → ∀ key, row.logoStorageKey = some key →
    key ∈ s.minted
  covered : Covered s

theorem Start.inv (h : Start s) : Inv s where
  calls j call hcall := by
    rw [h.calls] at hcall
    cases hcall
  unique j k call other hcall := by
    rw [h.calls] at hcall
    cases hcall
  minted := h.minted
  covered row hrow key hkey := .inl (h.servable row hrow key hkey)

/-- Where no request is running, no one owes the row anything. -/
theorem Inv.servable (h : Inv s) (hquiescent : Quiescent s) : Servable s := by
  intro row hrow key hkey
  obtain hstored | ⟨j, call, hcall, hdeleted, -⟩ := h.covered row hrow key hkey
  · exact hstored
  · rw [hquiescent call (List.mem_of_getElem? hcall)] at hdeleted
    cases hdeleted

/-! ## What a step leaves to the others -/

/-- A key that the row names afterwards is one it named before, or that of the request, which has
ended with it. -/
def RowFrom (s t : ClientLogos) (call : BrandingCall) (stage : BrandingStage) : Prop :=
  ∀ row' : ClientBranding, t.row = some row' → ∀ key, row'.logoStorageKey = some key →
    (∃ row : ClientBranding, s.row = some row ∧ row.logoStorageKey = some key ∧
      row.id = row'.id) ∨
    (call.request.ownKey = some key ∧ stage = .ended)

theorem RowFrom.of_eq (h : t.row = s.row) : RowFrom s t call stage := fun row' hrow' _ hkey =>
  .inl ⟨row', h ▸ hrow', hkey, rfl⟩

theorem mem_known_of_loadedRow {loaded : ClientBranding} {key : String}
    (hloaded : loadedRow stage = some loaded) (hkey : loaded.logoStorageKey = some key) :
    key ∈ known stage := by
  have hknown : known stage =
      ((loadedRow stage).bind ClientBranding.logoStorageKey).toList := by
    cases stage with
    | deletingRemoved key => cases hloaded
    | _ => rfl
  rw [hknown, hloaded, Option.bind_some, hkey]
  exact List.mem_singleton_self key

theorem StageInv.mono {request : BrandingRequest} (h : StageInv s request stage)
    (hobjects : stage ≠ .ended → Uploaded s.objects request → Uploaded t.objects request)
    (hremoved : ∀ key, stage = .deletingRemoved key →
      (∀ row : ClientBranding, s.row = some row → row.logoStorageKey ≠ some key) →
        ∀ row : ClientBranding, t.row = some row → row.logoStorageKey ≠ some key) :
    StageInv t request stage := by
  cases stage with
  | started => trivial
  | ended => trivial
  | deletingOld row key retry =>
    exact ⟨h.1, h.2.1, fun hretry => hobjects (fun hended => nomatch hended) (h.2.2 hretry)⟩
  | uploading key row deleted => exact h
  | saving row deleted retry => exact ⟨hobjects (fun hended => nomatch hended) h.1, h.2⟩
  | rereading => exact hobjects (fun hended => nomatch hended) h
  | deletingUpload key => exact h
  | deletingRemoved key => exact hremoved key rfl h

/-- Another request keeps its part of the invariant. -/
theorem CallInv.frame {other : BrandingCall} (h : CallInv s other)
    (hobjects : other.stage ≠ .ended → Uploaded s.objects other.request →
      Uploaded t.objects other.request)
    (hrow : ∀ row' : ClientBranding, t.row = some row' → ∀ key,
      row'.logoStorageKey = some key →
        (∃ row : ClientBranding, s.row = some row ∧ row.logoStorageKey = some key ∧
          row.id = row'.id) ∨
        (other.request.ownKey ≠ some key ∧ key ∉ ClientLogos.known other.stage))
    (hminted : s.minted ⊆ t.minted)
    (hknown : ∀ call ∈ t.calls, ∀ key ∈ ClientLogos.known call.stage,
      (∃ call ∈ s.calls, key ∈ ClientLogos.known call.stage) ∨
        (∃ row : ClientBranding, s.row = some row ∧ row.logoStorageKey = some key) ∨
        key ∉ s.minted) : CallInv t other where
  stage := by
    refine h.stage.mono hobjects fun key hremoved hold row' hrow' hkey => ?_
    rcases hrow row' hrow' key hkey with ⟨row, hs, hkey', -⟩ | ⟨-, hunknown⟩
    · exact hold row hs hkey'
    · rw [hremoved] at hunknown
      exact hunknown (List.mem_singleton_self key)
  ids loaded hloaded key hkey row' hrow' hkey' := by
    rcases hrow row' hrow' key hkey' with ⟨row, hs, hrowkey, hid⟩ | ⟨-, hunknown⟩
    · exact hid ▸ h.ids loaded hloaded key hkey row hs hrowkey
    · exact absurd (mem_known_of_loadedRow hloaded hkey) hunknown
  known key hkey := hminted (h.known key hkey)
  ownMinted key hkey := hminted (h.ownMinted key hkey)
  ownUnnamed hrunning key hown row' hrow' hkey := by
    rcases hrow row' hrow' key hkey with ⟨row, hs, hkey', -⟩ | ⟨hnot, -⟩
    · exact h.ownUnnamed hrunning key hown row hs hkey'
    · exact hnot hown
  ownUnknown hrunning key hown call hcall hmem := by
    rcases hknown call hcall key hmem with ⟨old, hold, hkey⟩ | ⟨row, hrow, hkey⟩ | hnew
    · exact h.ownUnknown hrunning key hown old hold hkey
    · exact h.ownUnnamed hrunning key hown row hrow hkey
    · exact hnew (h.ownMinted key hown)

/-- The calls after one of them has gone on: a request stays what it is. -/
theorem getElem?_enter {j : Nat} {other : BrandingCall}
    (hcall : s.calls[i]? = some call) (hcalls : t.calls = s.calls)
    (hother : (t.enter i call stage).calls[j]? = some other) :
    (j = i ∧ other = { call with stage := stage }) ∨ (j ≠ i ∧ s.calls[j]? = some other) := by
  have hset : (s.calls.set i { call with stage := stage })[j]? = some other := hcalls ▸ hother
  by_cases hj : i = j
  · subst hj
    have hlt := (List.getElem?_eq_some_iff.mp hcall).1
    rw [List.getElem?_set_self hlt, Option.some.injEq] at hset
    exact .inl ⟨rfl, hset.symm⟩
  · rw [List.getElem?_set_ne hj] at hset
    exact .inr ⟨fun heq => hj heq.symm, hset⟩

theorem Inv.enter (h : Inv s) (hcall : s.calls[i]? = some call) (hrunning : call.stage ≠ .ended)
    (hcalls : t.calls = s.calls) (hminted : t.minted = s.minted)
    (hrow : RowFrom s t call stage)
    (hothers : ∀ (j : Nat) (other : BrandingCall), s.calls[j]? = some other → j ≠ i →
      other.stage ≠ .ended → Uploaded s.objects other.request → Uploaded t.objects other.request)
    (hknown : ∀ key ∈ known stage, key ∈ known call.stage ∨
      ∃ row : ClientBranding, s.row = some row ∧ row.logoStorageKey = some key)
    (hids : ∀ loaded : ClientBranding, loadedRow stage = some loaded →
      ∀ key, loaded.logoStorageKey = some key →
        ∀ row : ClientBranding, t.row = some row → row.logoStorageKey = some key →
          row.id = loaded.id)
    (hstage : StageInv t call.request stage) (hcovered : Covered (t.enter i call stage)) :
    Inv (t.enter i call stage) := by
  have hinv := h.calls i call hcall
  have hmem := List.mem_of_getElem? hcall
  have hknown' : ∀ other ∈ (t.enter i call stage).calls, ∀ key ∈ known other.stage,
      (∃ other ∈ s.calls, key ∈ known other.stage) ∨
        (∃ row : ClientBranding, s.row = some row ∧ row.logoStorageKey = some key) ∨
        key ∉ s.minted := by
    intro other hother key hkey
    have hset : other ∈ s.calls.set i { call with stage := stage } := hcalls ▸ hother
    rcases List.mem_or_eq_of_mem_set hset with hold | rfl
    · exact .inl ⟨other, hold, hkey⟩
    · rcases hknown key hkey with hold | hread
      · exact .inl ⟨call, hmem, hold⟩
      · exact .inr (.inl hread)
  refine ⟨fun j other hother => ?_, fun j k first second hfirst hsecond => ?_,
    fun row' hrow' key hkey => ?_, hcovered⟩
  · rcases getElem?_enter hcall hcalls hother with ⟨rfl, rfl⟩ | ⟨hj, hold⟩
    · refine ⟨hstage.mono (fun _ huploaded => huploaded) (fun _ _ hold => hold), hids,
        fun key hkey => ?_, fun key hown => ?_, fun hgoing key hown row' hrow' hkey => ?_,
        fun hgoing key hown other hother hkey => ?_⟩
      · have hminted' : key ∈ s.minted := by
          rcases hknown key hkey with hold | ⟨row, hs, hrowkey⟩
          · exact hinv.known key hold
          · exact h.minted row hs key hrowkey
        exact hminted ▸ hminted'
      · exact hminted ▸ hinv.ownMinted key hown
      · rcases hrow row' hrow' key hkey with ⟨row, hs, hrowkey, -⟩ | ⟨-, hended⟩
        · exact hinv.ownUnnamed hrunning key hown row hs hrowkey
        · exact hgoing hended
      · rcases hknown' other hother key hkey with ⟨old, hold, holdkey⟩ | ⟨row, hs, hrowkey⟩ | hnew
        · exact hinv.ownUnknown hrunning key hown old hold holdkey
        · exact hinv.ownUnnamed hrunning key hown row hs hrowkey
        · exact hnew (hinv.ownMinted key hown)
    · refine (h.calls j other hold).frame (hothers j other hold hj) (fun row' hrow' key hkey => ?_)
        (fun key hkey => hminted ▸ hkey) hknown'
      refine (hrow row' hrow' key hkey).imp_right fun ⟨hown, _⟩ => ⟨fun hother' => ?_, ?_⟩
      · exact hj (h.unique j i other call hold hcall key hother' hown)
      · exact hinv.ownUnknown hrunning key hown other (List.mem_of_getElem? hold)
  · intro key hkey hkey'
    rcases getElem?_enter hcall hcalls hfirst with ⟨rfl, rfl⟩ | ⟨hj, hold⟩ <;>
      rcases getElem?_enter hcall hcalls hsecond with ⟨rfl, rfl⟩ | ⟨hk, hold'⟩
    · rfl
    · exact h.unique _ k call second hcall hold' key hkey hkey'
    · exact h.unique j _ first call hold hcall key hkey hkey'
    · exact h.unique j k first second hold hold' key hkey hkey'
  · have hminted' : key ∈ s.minted := by
      rcases hrow row' hrow' key hkey with ⟨row, hs, hrowkey, -⟩ | ⟨hown, -⟩
      · exact h.minted row hs key hrowkey
      · exact hinv.ownMinted key hown
    exact hminted ▸ hminted'

/-- The object of the row's key is stored, or is owed by another request, or by this one. -/
theorem Inv.covered_enter (h : Inv s) (hcall : s.calls[i]? = some call) (hcalls : t.calls = s.calls)
    (hrow : ∀ row' : ClientBranding, t.row = some row' → ∀ key, row'.logoStorageKey = some key →
      key ∈ t.objects ∨ Owes stage row' key ∨
        (∃ row : ClientBranding, s.row = some row ∧ row.logoStorageKey = some key ∧
          row.id = row'.id ∧ (key ∈ s.objects → key ∈ t.objects) ∧ ¬Owes call.stage row key)) :
    Covered (t.enter i call stage) := by
  intro row' hrow' key hkey
  have hlt := (List.getElem?_eq_some_iff.mp hcall).1
  obtain hstored | howes | ⟨row, hs, hrowkey, hid, hkept, hnot⟩ := hrow row' hrow' key hkey
  · exact .inl hstored
  · refine .inr ⟨i, { call with stage := stage }, ?_, howes⟩
    have hset : (t.calls.set i { call with stage := stage })[i]? =
        some { call with stage := stage } := List.getElem?_set_self (hcalls ▸ hlt)
    exact hset
  · obtain hstored | ⟨j, other, hother, howes⟩ := h.covered row hs key hrowkey
    · exact .inl (hkept hstored)
    · have hj : i ≠ j := by
        intro heq
        subst heq
        rw [hcall, Option.some.injEq] at hother
        exact hnot (hother ▸ howes)
      refine .inr ⟨j, other, ?_, howes.1, ?_⟩
      · have hset : (t.calls.set i { call with stage := stage })[j]? = some other := by
          rw [List.getElem?_set_ne hj, hcalls, hother]
        exact hset
      · obtain ⟨loaded, hloaded, hsame⟩ := howes.2
        exact ⟨loaded, hloaded, hsame.trans hid⟩

/-! ## Calls that leave the row alone -/

theorem mem_known {key : String} (hremoved : ∀ key, stage ≠ .deletingRemoved key)
    (hkey : key ∈ known stage) : ∃ loaded : ClientBranding, loadedRow stage = some loaded ∧
      loaded.logoStorageKey = some key := by
  have hknown : known stage =
      ((loadedRow stage).bind ClientBranding.logoStorageKey).toList := by
    cases stage with
    | deletingRemoved key => exact absurd rfl (hremoved key)
    | _ => rfl
  rw [hknown, Option.mem_toList, Option.bind_eq_some_iff] at hkey
  exact hkey

/-- A call that does not touch the row, with what it does to the objects. -/
theorem Inv.enter_kept (h : Inv s) (hcall : s.calls[i]? = some call)
    (hrunning : call.stage ≠ .ended) (hcalls : t.calls = s.calls) (hminted : t.minted = s.minted)
    (hrow : t.row = s.row)
    (hothers : ∀ (j : Nat) (other : BrandingCall), s.calls[j]? = some other → j ≠ i →
      other.stage ≠ .ended → Uploaded s.objects other.request → Uploaded t.objects other.request)
    (hremoved : ∀ key, stage ≠ .deletingRemoved key)
    (hloaded : ∀ loaded, loadedRow stage = some loaded →
      loadedRow call.stage = some loaded ∨ s.row = some loaded)
    (hstage : StageInv t call.request stage)
    (hcovered : ∀ row : ClientBranding, s.row = some row → ∀ key, row.logoStorageKey = some key →
      key ∈ t.objects ∨ Owes stage row key ∨
        ((key ∈ s.objects → key ∈ t.objects) ∧ ¬Owes call.stage row key)) :
    Inv (t.enter i call stage) := by
  have hinv := h.calls i call hcall
  refine h.enter hcall hrunning hcalls hminted (.of_eq hrow) hothers (fun key hkey => ?_)
    (fun loaded hload key hkey row hs hrowkey => ?_) hstage
    (h.covered_enter hcall hcalls fun row hs key hkey => ?_)
  · obtain ⟨loaded, hload, hloadedkey⟩ := mem_known hremoved hkey
    rcases hloaded loaded hload with hold | hread
    · exact .inl (mem_known_of_loadedRow hold hloadedkey)
    · exact .inr ⟨loaded, hread, hloadedkey⟩
  · rw [hrow] at hs
    rcases hloaded loaded hload with hold | hread
    · exact hinv.ids loaded hold key hkey row hs hrowkey
    · rw [hread, Option.some.injEq] at hs
      rw [hs]
  · rw [hrow] at hs
    refine (hcovered row hs key hkey).imp_right fun hcase => hcase.imp_right ?_
    exact fun ⟨hkept, hnot⟩ => ⟨row, hs, hkey, rfl, hkept, hnot⟩

theorem not_owes {row : ClientBranding} {key : String} (hdeleted : deletedKey stage = none) :
    ¬Owes stage row key := by
  rintro ⟨hsome, -⟩
  rw [hdeleted] at hsome
  cases hsome

/-- The request stops, and owes the row nothing. -/
theorem Inv.enter_ended (h : Inv s) (hcall : s.calls[i]? = some call)
    (hrunning : call.stage ≠ .ended) (hcalls : t.calls = s.calls) (hminted : t.minted = s.minted)
    (hrow : t.row = s.row)
    (hothers : ∀ (j : Nat) (other : BrandingCall), s.calls[j]? = some other → j ≠ i →
      other.stage ≠ .ended → Uploaded s.objects other.request → Uploaded t.objects other.request)
    (hcovered : ∀ row : ClientBranding, s.row = some row → ∀ key, row.logoStorageKey = some key →
      (key ∈ s.objects → key ∈ t.objects) ∧ ¬Owes call.stage row key) :
    Inv (t.enter i call .ended) :=
  h.enter_kept hcall hrunning hcalls hminted hrow hothers (fun _ hended => nomatch hended)
    (fun _ hload => nomatch hload) trivial
    fun row hs key hkey => .inr (.inr (hcovered row hs key hkey))

/-- A call that only changes the stage. -/
theorem Inv.enter_self (h : Inv s) (hcall : s.calls[i]? = some call)
    (hrunning : call.stage ≠ .ended) (hdeleted : deletedKey call.stage = none)
    (hremoved : ∀ key, stage ≠ .deletingRemoved key)
    (hloaded : ∀ loaded, loadedRow stage = some loaded → s.row = some loaded)
    (hstage : StageInv s call.request stage) : Inv (s.enter i call stage) :=
  h.enter_kept hcall hrunning rfl rfl rfl (fun _ _ _ _ _ huploaded => huploaded) hremoved
    (fun loaded hload => .inr (hloaded loaded hload)) hstage
    fun _ _ _ _ => .inr (.inr ⟨id, not_owes hdeleted⟩)

/-- The request stops in the state it has found. -/
theorem Inv.stop (h : Inv s) (hcall : s.calls[i]? = some call) (hrunning : call.stage ≠ .ended)
    (hunnamed : ∀ key, deletedKey call.stage = some key → s.isUnnamed key = true) :
    Inv (s.enter i call .ended) := by
  refine h.enter_ended hcall hrunning rfl rfl rfl (fun _ _ _ _ _ huploaded => huploaded)
    fun row hrow key hkey => ⟨id, fun howes => ?_⟩
  have hun := hunnamed key howes.1
  rw [isUnnamed, hrow] at hun
  exact of_decide_eq_true hun hkey

/-- A call that ends the request with one object less, which the row does not name. -/
theorem Inv.deleteObject (h : Inv s) (hcall : s.calls[i]? = some call)
    (hrunning : call.stage ≠ .ended) (hdeleted : deletedKey call.stage = none) {key : String}
    (hown : ∀ (j : Nat) (other : BrandingCall), s.calls[j]? = some other → j ≠ i →
      other.stage ≠ .ended → other.request.ownKey ≠ some key)
    (hunnamed : ∀ row : ClientBranding, s.row = some row → row.logoStorageKey ≠ some key) :
    Inv ((s.deleteObject key).enter i call .ended) := by
  refine h.enter_ended hcall hrunning rfl rfl rfl
    (fun j other hother hj hgoing huploaded own hownkey => ?_)
    fun row hrow rowKey hkey => ⟨fun hmem => ?_, not_owes hdeleted⟩
  · refine List.mem_filter.mpr ⟨huploaded own hownkey, decide_eq_true fun heq => ?_⟩
    exact hown j other hother hj hgoing (heq ▸ hownkey)
  · refine List.mem_filter.mpr ⟨hmem, decide_eq_true fun heq => ?_⟩
    exact hunnamed row hrow (heq ▸ hkey)

/-! ## Reading -/

/-- The stage of a request that has just read the row. -/
structure AfterRead (s : ClientLogos) (request : BrandingRequest) (row : Option ClientBranding)
    (stage : BrandingStage) : Prop where
  removed : ∀ key, stage ≠ .deletingRemoved key
  loaded : ∀ loaded, loadedRow stage = some loaded → row = some loaded
  stage : StageInv s request stage

theorem uploaded_of_no_key {objects : List String} {request : BrandingRequest}
    (h : request.ownKey = none) : Uploaded objects request := fun key hkey => by
  rw [h] at hkey
  cases hkey

theorem replaces_upsert (key : String) : Replaces (.upsert (some key)) :=
  ⟨(fun heq => nomatch heq), fun heq => nomatch heq⟩

theorem replaces_deleteLogo : Replaces .deleteLogo :=
  ⟨(fun heq => nomatch heq), fun heq => nomatch heq⟩

theorem replaces_clientDeleted : Replaces .clientDeleted :=
  ⟨(fun heq => nomatch heq), fun heq => nomatch heq⟩

theorem AfterRead.saving {request : BrandingRequest} {row : Option ClientBranding} {retry : Bool}
    (h : Uploaded s.objects request) : AfterRead s request row (.saving row none retry) where
  removed _ hremoved := nomatch hremoved
  loaded _ hload := hload
  stage := ⟨h, fun _ hnone => nomatch hnone⟩

theorem AfterRead.deletingOld {request : BrandingRequest} {row : ClientBranding} {key : String}
    {retry : Bool} (hkey : row.logoStorageKey = some key) (hreplaces : Replaces request)
    (huploaded : retry = true → Uploaded s.objects request) :
    AfterRead s request (some row) (.deletingOld row key retry) where
  removed _ hremoved := nomatch hremoved
  loaded _ hload := hload
  stage := ⟨hkey, hreplaces, huploaded⟩

theorem AfterRead.ended (request : BrandingRequest) (row : Option ClientBranding) :
    AfterRead s request row .ended where
  removed _ hremoved := nomatch hremoved
  loaded _ hload := nomatch hload
  stage := trivial

theorem AfterRead.uploading {key : String} {row : Option ClientBranding} :
    AfterRead s (.upsert (some key)) row (.uploading key row none) where
  removed _ hremoved := nomatch hremoved
  loaded _ hload := hload
  stage := ⟨rfl, fun _ hnone => nomatch hnone⟩

theorem applyRequest_afterRead (newKey : Option String) (row : ClientBranding) (retry : Bool)
    (huploaded : retry = true → Uploaded s.objects (.upsert newKey)) :
    AfterRead s (.upsert newKey) (some row) (applyRequest newKey row retry) := by
  unfold applyRequest
  split
  · exact .saving (uploaded_of_no_key rfl)
  · split
    · rename_i old hold
      have hkey := (Option.filter_eq_some_iff.mp hold).1
      exact .deletingOld hkey (replaces_upsert _) huploaded
    · split
      · rename_i hretry
        exact .saving (huploaded hretry)
      · exact .uploading

theorem afterRead_afterRead (request : BrandingRequest) (row : Option ClientBranding) :
    AfterRead s request row (afterRead request row) := by
  unfold afterRead
  split
  · exact .saving (uploaded_of_no_key rfl)
  · exact .uploading
  · exact applyRequest_afterRead _ _ _ fun hretry => nomatch hretry
  · exact .ended _ _
  · split
    · exact .ended _ _
    · rename_i key hkey
      exact .deletingOld (Option.filter_eq_some_iff.mp hkey).1 replaces_deleteLogo
        fun hretry => nomatch hretry
  · exact .ended _ _
  · split
    · exact .saving (uploaded_of_no_key rfl)
    · rename_i key hkey
      exact .deletingOld hkey replaces_clientDeleted fun hretry => nomatch hretry
  · exact .ended _ _
  · exact .saving (uploaded_of_no_key rfl)

theorem vanished_afterRead (request : BrandingRequest) (row : Option ClientBranding) :
    AfterRead s request row (vanished request) := by
  unfold vanished
  split
  · exact .ended request row
  · rename_i key hkey
    exact ⟨(fun _ hremoved => nomatch hremoved), (fun _ hload => nomatch hload), hkey⟩

theorem Inv.enter_read (h : Inv s) (hcall : s.calls[i]? = some call)
    (hrunning : call.stage ≠ .ended) (hdeleted : deletedKey call.stage = none)
    (hread : AfterRead s call.request s.row stage) : Inv (s.enter i call stage) :=
  h.enter_self hcall hrunning hdeleted hread.removed hread.loaded hread.stage

/-! ## Storage calls -/

/-- The keys a request has read are no other's own. -/
theorem Inv.own_ne_known (h : Inv s) (hcall : s.calls[i]? = some call) {key : String}
    (hkey : key ∈ known call.stage) (j : Nat) (other : BrandingCall)
    (hother : s.calls[j]? = some other) (hgoing : other.stage ≠ .ended) :
    other.request.ownKey ≠ some key := fun hown =>
  (h.calls j other hother).ownUnknown hgoing key hown call (List.mem_of_getElem? hcall) hkey

theorem stageInv_afterDeletingOld {request : BrandingRequest} {row : ClientBranding} {key : String}
    {retry : Bool} (hkey : row.logoStorageKey = some key) (hreplaces : Replaces request)
    (huploaded : retry = true → Uploaded s.objects request) :
    StageInv s request (afterDeletingOld request row key retry) := by
  have hold : ∀ old, some key = some old →
      (some row).bind ClientBranding.logoStorageKey = some old := fun old hold => by
    rw [Option.bind_some, hkey, hold]
  have hsaving : Uploaded s.objects request →
      StageInv s request (.saving (some row) (some key) retry) := fun hup =>
    ⟨hup, fun old heq => ⟨hold old heq, hreplaces⟩⟩
  match request, retry with
  | .upsert (some newKey), false => exact ⟨rfl, hold⟩
  | .upsert (some newKey), true => exact hsaving (huploaded rfl)
  | .upsert none, _ => exact hsaving (uploaded_of_no_key rfl)
  | .deleteLogo, _ => exact hsaving (uploaded_of_no_key rfl)
  | .clientDeleted, _ => exact hsaving (uploaded_of_no_key rfl)
  | .organizationDeleted, _ => exact hsaving (uploaded_of_no_key rfl)

theorem Inv.deletingOld (h : Inv s) (hcall : s.calls[i]? = some call) {row : ClientBranding}
    {key : String} {retry : Bool} (hstage : call.stage = .deletingOld row key retry) :
    Inv ((s.deleteObject key).enter i call (afterDeletingOld call.request row key retry)) := by
  have hinv := h.calls i call hcall
  have hrunning : call.stage ≠ .ended := ne_of_eq_of_ne hstage fun hended => nomatch hended
  have hok := hinv.stage
  rw [hstage] at hok
  obtain ⟨hrowkey, hreplaces, huploaded⟩ := hok
  have hknown : key ∈ known call.stage := by
    rw [hstage]
    exact mem_known_of_loadedRow rfl hrowkey
  have hkept : ∀ (j : Nat) (other : BrandingCall), s.calls[j]? = some other →
      other.stage ≠ .ended → Uploaded s.objects other.request →
        Uploaded (s.deleteObject key).objects other.request := by
    intro j other hother hgoing hup own hown
    refine List.mem_filter.mpr ⟨hup own hown, decide_eq_true fun heq => ?_⟩
    exact h.own_ne_known hcall hknown j other hother hgoing (heq ▸ hown)
  have hloaded : loadedRow (afterDeletingOld call.request row key retry) = some row := by
    unfold afterDeletingOld
    split <;> rfl
  have hdeleted : deletedKey (afterDeletingOld call.request row key retry) = some key := by
    unfold afterDeletingOld
    split <;> rfl
  refine h.enter_kept hcall hrunning rfl rfl rfl (fun j other hother _ => hkept j other hother)
    (fun removed heq => ?_) (fun loaded hload => .inl ?_) ?_ fun row' hrow' key' hkey' => ?_
  · rw [heq] at hloaded
    cases hloaded
  · rw [hstage]
    exact hloaded.symm.trans hload
  · exact stageInv_afterDeletingOld hrowkey hreplaces fun hretry =>
      hkept i call hcall hrunning (huploaded hretry)
  · by_cases hsame : key' = key
    · subst hsame
      have hids := hinv.ids row (by rw [hstage]; rfl) key' hrowkey row' hrow' hkey'
      exact .inr (.inl ⟨hdeleted, row, hloaded, hids.symm⟩)
    · refine .inr (.inr ⟨fun hmem => List.mem_filter.mpr ⟨hmem, decide_eq_true hsame⟩, ?_⟩)
      rw [hstage]
      exact not_owes rfl

theorem Inv.uploading (h : Inv s) (hcall : s.calls[i]? = some call) {key : String}
    {row : Option ClientBranding} {deleted : Option String}
    (hstage : call.stage = .uploading key row deleted) :
    Inv (({ s with objects := key :: s.objects } : ClientLogos).enter i call
      (.saving row deleted false)) := by
  have hrunning : call.stage ≠ .ended := ne_of_eq_of_ne hstage fun hended => nomatch hended
  have hok := (h.calls i call hcall).stage
  rw [hstage] at hok
  obtain ⟨hrequest, hdeleted⟩ := hok
  refine h.enter_kept hcall hrunning rfl rfl rfl
    (fun _ _ _ _ _ hup own hown => List.mem_cons_of_mem key (hup own hown))
    (fun _ hremoved => nomatch hremoved) (fun loaded hload => .inl (hstage ▸ hload))
    ⟨fun own hown => ?_, fun old hold => ⟨hdeleted old hold, ?_⟩⟩ fun row' hrow' key' hkey' => ?_
  · rw [hrequest, BrandingRequest.ownKey, Option.some.injEq] at hown
    rw [hown]
    exact List.mem_cons_self
  · rw [hrequest]
    exact replaces_upsert key
  · by_cases howes : Owes call.stage row' key'
    · rw [hstage] at howes
      exact .inr (.inl howes)
    · exact .inr (.inr ⟨List.mem_cons_of_mem key, howes⟩)

/-! ## Saving -/

section Saving

variable {row : Option ClientBranding} {deleted : Option String} {retry : Bool}

/-- The save has found another row than the one that was loaded. -/
theorem Inv.unsaved (h : Inv s) (hcall : s.calls[i]? = some call)
    (hsaving : call.stage = .saving row deleted retry) {n : Nat}
    (hforeign : ∀ loaded : ClientBranding, row = some loaded → ∀ stored : ClientBranding,
      s.row = some stored → stored.id ≠ loaded.id)
    (hnext : AfterRead s call.request s.row stage) :
    Inv (({ s with nextId := n } : ClientLogos).enter i call stage) := by
  have hrunning : call.stage ≠ .ended := ne_of_eq_of_ne hsaving fun hended => nomatch hended
  refine h.enter_kept hcall hrunning rfl rfl rfl (fun _ _ _ _ _ huploaded => huploaded)
    hnext.removed (fun loaded hload => .inr (hnext.loaded loaded hload))
    (hnext.stage.mono (fun _ huploaded => huploaded) fun _ _ hold => hold)
    fun stored hstored key _ => .inr (.inr ⟨id, ?_⟩)
  rintro ⟨-, loaded, hloaded, hid⟩
  rw [hsaving] at hloaded
  exact hforeign loaded hloaded stored hstored hid.symm

/-- The `INSERT` names the new logo, which is uploaded. -/
theorem Inv.inserted (h : Inv s) (hcall : s.calls[i]? = some call)
    (hsaving : call.stage = .saving row deleted retry) {n m : Nat} :
    Inv (({ s with row := some ⟨m, call.request.ownKey⟩, nextId := n } : ClientLogos).enter i call
      .ended) := by
  have hrunning : call.stage ≠ .ended := ne_of_eq_of_ne hsaving fun hended => nomatch hended
  have hok := (h.calls i call hcall).stage
  rw [hsaving] at hok
  refine h.enter hcall hrunning rfl rfl (fun row' hrow' key hkey => .inr ⟨?_, rfl⟩)
    (fun _ _ _ _ _ huploaded => huploaded) (fun _ hnone => nomatch hnone)
    (fun _ hnone => nomatch hnone) trivial
    (h.covered_enter hcall rfl fun row' hrow' key hkey => .inl (hok.1 key ?_))
  · cases hrow'
    exact hkey
  · cases hrow'
    exact hkey

/-- The `UPDATE` names the new logo, which is uploaded, or leaves the key as it is stored; it does
so only where the request has deleted nothing. -/
theorem Inv.updated (h : Inv s) (hcall : s.calls[i]? = some call) {loaded stored : ClientBranding}
    (hsaving : call.stage = .saving (some loaded) deleted retry) (hstored : s.row = some stored)
    {newKey : Option String} {n : Nat}
    (hnew : newKey = call.request.ownKey ∨
      ¬Replaces call.request ∧ newKey = loaded.logoStorageKey) :
    Inv (({ s with row := some (updateRow stored loaded newKey), nextId := n } :
      ClientLogos).enter i call .ended) := by
  have hinv := h.calls i call hcall
  have hrunning : call.stage ≠ .ended := ne_of_eq_of_ne hsaving fun hended => nomatch hended
  have hok := hinv.stage
  rw [hsaving] at hok
  obtain ⟨huploaded, hdeleted⟩ := hok
  have hkeys : ∀ key, (updateRow stored loaded newKey).logoStorageKey = some key →
      (newKey = loaded.logoStorageKey ∧ updateRow stored loaded newKey = stored) ∨
        (call.request.ownKey = some key) := by
    intro key hkey
    by_cases hsame : newKey = loaded.logoStorageKey
    · exact .inl ⟨hsame, if_pos hsame⟩
    · rw [updateRow, if_neg hsame] at hkey
      rcases hnew with hown | ⟨-, hsame'⟩
      · exact .inr (hown ▸ hkey)
      · exact absurd hsame' hsame
  refine h.enter hcall hrunning rfl rfl (fun row' hrow' key hkey => ?_)
    (fun _ _ _ _ _ huploaded => huploaded) (fun _ hnone => nomatch hnone)
    (fun _ hnone => nomatch hnone) trivial
    (h.covered_enter hcall rfl fun row' hrow' key hkey => ?_)
  · cases hrow'
    rcases hkeys key hkey with ⟨-, hunchanged⟩ | hown
    · rw [hunchanged] at hkey ⊢
      exact .inl ⟨stored, hstored, hkey, rfl⟩
    · exact .inr ⟨hown, rfl⟩
  · cases hrow'
    rcases hkeys key hkey with ⟨hsame, hunchanged⟩ | hown
    · rw [hunchanged] at hkey ⊢
      refine .inr (.inr ⟨stored, hstored, hkey, rfl, id, ?_⟩)
      -- Its new key would be the one it has loaded.
      rintro ⟨hlost, -⟩
      rw [hsaving] at hlost
      obtain ⟨hloadedKey, hreplaces⟩ := hdeleted key hlost
      rcases hnew with hown | ⟨hnot, -⟩
      · have hknown : key ∈ known call.stage := by
          rw [hsaving]
          exact mem_known_of_loadedRow rfl hloadedKey
        exact hinv.ownUnknown hrunning key (hown.symm.trans (hsame.trans hloadedKey)) call
          (List.mem_of_getElem? hcall) hknown
      · exact hnot hreplaces
    · exact .inl (huploaded key hown)

theorem Inv.removed (h : Inv s) (hcall : s.calls[i]? = some call) {loaded : ClientBranding}
    (hsaving : call.stage = .saving (some loaded) deleted retry) {n : Nat}
    (hnext : stage = .ended ∨
      ∃ key, loaded.logoStorageKey = some key ∧ stage = .deletingRemoved key) :
    Inv (({ s with row := none, nextId := n } : ClientLogos).enter i call stage) := by
  have hrunning : call.stage ≠ .ended := ne_of_eq_of_ne hsaving fun hended => nomatch hended
  refine h.enter hcall hrunning rfl rfl (fun _ hrow' => nomatch hrow')
    (fun _ _ _ _ _ huploaded => huploaded) (fun key hkey => .inl ?_)
    (fun _ _ _ _ _ hrow' => nomatch hrow') ?_ (fun _ hrow' => nomatch hrow')
  · obtain rfl | ⟨old, hold, rfl⟩ := hnext
    · cases hkey
    · rw [hsaving]
      exact List.mem_singleton.mp hkey ▸ mem_known_of_loadedRow rfl hold
  · obtain rfl | ⟨old, -, rfl⟩ := hnext
    · trivial
    · exact fun _ hrow' => nomatch hrow'

/-- What a save does to the row it finds. -/
inductive Saved (s : ClientLogos) (request : BrandingRequest) :
    Option ClientBranding → Option ClientBranding → BrandingStage → Prop
  | inserted : Saved s request none (some ⟨s.nextId, request.ownKey⟩) .ended
  | duplicate : Saved s request none s.row .rereading
  | gone {loaded : ClientBranding} {stage : BrandingStage} :
      (∀ stored : ClientBranding, s.row = some stored → stored.id ≠ loaded.id) →
      (stage = vanished request ∨ stage = .ended) → Saved s request (some loaded) s.row stage
  | updated {loaded stored : ClientBranding} {newKey : Option String} : s.row = some stored →
      (newKey = request.ownKey ∨ request = .upsert none ∧ newKey = loaded.logoStorageKey) →
      Saved s request (some loaded) (some (updateRow stored loaded newKey)) .ended
  | removed {loaded : ClientBranding} {stage : BrandingStage} :
      (stage = .ended ∨ ∃ key, loaded.logoStorageKey = some key ∧
        stage = .deletingRemoved key) → Saved s request (some loaded) none stage

theorem save_saved (s : ClientLogos) (request : BrandingRequest) (row : Option ClientBranding)
    (retry : Bool) : Saved s request row (s.save request row retry).1
      (s.save request row retry).2 := by
  cases row with
  | none =>
    cases hrow : s.row with
    | none =>
      simp only [save, hrow]
      exact .inserted
    | some stored =>
      simp only [save, hrow]
      exact hrow ▸ .duplicate
  | some loaded =>
    cases hfilter : s.row.filter (·.id = loaded.id) with
    | none =>
      simp only [save, hfilter]
      refine .gone (fun stored hstored hid => ?_) ?_
      · exact Option.filter_eq_none_iff.mp hfilter stored hstored (decide_eq_true hid)
      · split
        · exact .inl rfl
        · exact .inr rfl
    | some stored =>
      have hstored := (Option.filter_eq_some_iff.mp hfilter).1
      simp only [save, hfilter]
      cases request with
      | upsert newKey =>
        cases newKey with
        | none => exact .updated hstored (.inr ⟨rfl, rfl⟩)
        | some key => exact .updated hstored (.inl rfl)
      | deleteLogo => exact .updated hstored (.inl rfl)
      | clientDeleted => exact .removed (.inl rfl)
      | organizationDeleted =>
        cases hkey : loaded.logoStorageKey with
        | none => exact .removed (.inl rfl)
        | some key => exact .removed (.inr ⟨key, hkey, rfl⟩)

theorem Inv.saving (h : Inv s) (hcall : s.calls[i]? = some call)
    (hsaving : call.stage = .saving row deleted retry) {n : Nat} {row' : Option ClientBranding}
    {next : BrandingStage} (hsaved : Saved s call.request row row' next)
    (hnext : stage = next ∨ stage = .ended) :
    Inv (({ s with row := row', nextId := n } : ClientLogos).enter i call stage) := by
  have hok := (h.calls i call hcall).stage
  rw [hsaving] at hok
  cases hsaved with
  | inserted =>
    obtain rfl | rfl := hnext <;> exact h.inserted hcall hsaving
  | duplicate =>
    refine h.unsaved hcall hsaving (fun _ hnone => nomatch hnone) ?_
    obtain rfl | rfl := hnext
    · exact ⟨(fun _ hremoved => nomatch hremoved), (fun _ hload => nomatch hload), hok.1⟩
    · exact .ended _ _
  | @gone loaded _ hforeign hstage =>
    refine h.unsaved hcall hsaving (fun loaded' hloaded => ?_) ?_
    · cases hloaded
      exact hforeign
    · obtain rfl | rfl := hnext
      · obtain rfl | rfl := hstage
        · exact vanished_afterRead _ _
        · exact .ended _ _
      · exact .ended _ _
  | updated hstored hnew =>
    have hstage : stage = .ended := hnext.elim id id
    rw [hstage]
    refine h.updated hcall hsaving hstored (hnew.imp_right fun ⟨hrequest, hkey⟩ => ⟨?_, hkey⟩)
    exact fun hreplaces => hreplaces.1 hrequest
  | removed hstage =>
    refine h.removed hcall hsaving ?_
    obtain rfl | rfl := hnext
    · exact hstage
    · exact .inl rfl

end Saving

/-! ## Steps -/

theorem ne_of_isUnnamed {key : String} (h : s.isUnnamed key = true) (row : ClientBranding)
    (hrow : s.row = some row) : row.logoStorageKey ≠ some key := by
  rw [isUnnamed, hrow] at h
  exact of_decide_eq_true h

/-- A request whose stage owes nothing may stop at once. -/
theorem Inv.stop_free (h : Inv s) (hcall : s.calls[i]? = some call)
    (hrunning : call.stage ≠ .ended) (hdeleted : deletedKey call.stage = none) :
    Inv (s.enter i call .ended) :=
  h.stop hcall hrunning fun key hkey => by
    rw [hdeleted] at hkey
    cases hkey

theorem Inv.deletingOld_unanswered (h : Inv s) (hcall : s.calls[i]? = some call)
    {row : ClientBranding} {key : String} {retry : Bool}
    (hstage : call.stage = .deletingOld row key retry) (hunnamed : s.isUnnamed key = true) :
    Inv ((s.deleteObject key).enter i call .ended) := by
  have hrunning : call.stage ≠ .ended := ne_of_eq_of_ne hstage fun hended => nomatch hended
  have hok := (h.calls i call hcall).stage
  rw [hstage] at hok
  have hknown : key ∈ known call.stage := by
    rw [hstage]
    exact mem_known_of_loadedRow rfl hok.1
  exact h.deleteObject hcall hrunning (by rw [hstage]; rfl)
    (fun j other hother _ hgoing => h.own_ne_known hcall hknown j other hother hgoing)
    (ne_of_isUnnamed hunnamed)

theorem Inv.uploading_unanswered (h : Inv s) (hcall : s.calls[i]? = some call) {key : String}
    {row : Option ClientBranding} {deleted : Option String}
    (hstage : call.stage = .uploading key row deleted)
    (hunnamed : ∀ key, deleted = some key → s.isUnnamed key = true) :
    Inv (({ s with objects := key :: s.objects } : ClientLogos).enter i call .ended) := by
  have hrunning : call.stage ≠ .ended := ne_of_eq_of_ne hstage fun hended => nomatch hended
  refine h.enter_ended hcall hrunning rfl rfl rfl
    (fun _ _ _ _ _ hup own hown => List.mem_cons_of_mem key (hup own hown))
    fun row' hrow' key' hkey' => ⟨List.mem_cons_of_mem key, fun howes => ?_⟩
  rw [hstage] at howes
  exact ne_of_isUnnamed (hunnamed key' howes.1) row' hrow' hkey'

/-- No other request has minted the key, and no row has named it. -/
theorem Inv.deletingUpload (h : Inv s) (hcall : s.calls[i]? = some call) {key : String}
    (hstage : call.stage = .deletingUpload key) :
    Inv ((s.deleteObject key).enter i call .ended) := by
  have hrunning : call.stage ≠ .ended := ne_of_eq_of_ne hstage fun hended => nomatch hended
  have hinv := h.calls i call hcall
  have hown := hinv.stage
  rw [hstage] at hown
  exact h.deleteObject hcall hrunning (by rw [hstage]; rfl)
    (fun j other hother hj _ hother' => hj (h.unique j i other call hother hcall key hother' hown))
    (hinv.ownUnnamed hrunning key hown)

/-- The key was that of the row that is gone, and no other is written by a request. -/
theorem Inv.deletingRemoved (h : Inv s) (hcall : s.calls[i]? = some call) {key : String}
    (hstage : call.stage = .deletingRemoved key) :
    Inv ((s.deleteObject key).enter i call .ended) := by
  have hrunning : call.stage ≠ .ended := ne_of_eq_of_ne hstage fun hended => nomatch hended
  have hunnamed := (h.calls i call hcall).stage
  rw [hstage] at hunnamed
  have hknown : key ∈ known call.stage := by
    rw [hstage]
    exact List.mem_singleton_self key
  exact h.deleteObject hcall hrunning (by rw [hstage]; rfl)
    (fun j other hother _ hgoing => h.own_ne_known hcall hknown j other hother hgoing) hunnamed

theorem rereading_afterRead (request : BrandingRequest) (row : Option ClientBranding) :
    Uploaded s.objects request → AfterRead s request row (match request, row with
      | .upsert newKey, some row => applyRequest newKey row true
      | _, _ => vanished request) := by
  intro huploaded
  split
  · exact applyRequest_afterRead _ _ _ fun _ => huploaded
  · exact vanished_afterRead _ _

theorem getElem?_concat {calls : List BrandingCall} {j : Nat} {other : BrandingCall}
    (h : (calls ++ [call])[j]? = some other) :
    calls[j]? = some other ∨ j = calls.length ∧ other = call := by
  rcases Nat.lt_trichotomy j calls.length with hlt | rfl | hgt
  · exact .inl ((List.getElem?_append_left hlt).symm.trans h)
  · rw [List.getElem?_concat_length, Option.some.injEq] at h
    exact .inr ⟨rfl, h.symm⟩
  · have hle : (calls ++ [call]).length ≤ j := by
      rw [List.length_append]
      exact hgt
    rw [List.getElem?_eq_none hle] at h
    cases h

/-- A request that starts has minted its key for itself. -/
theorem Inv.request (h : Inv s) {request : BrandingRequest}
    (hfresh : ∀ key, request.ownKey = some key → key ∉ s.minted) :
    Inv { s with
      minted := request.ownKey.toList ++ s.minted
      calls := s.calls ++ [⟨request, .started⟩] } := by
  have hsub : s.minted ⊆ request.ownKey.toList ++ s.minted := List.subset_append_right _ _
  have hold : ∀ other ∈ s.calls ++ [⟨request, .started⟩], ∀ key ∈ known other.stage,
      other ∈ s.calls := by
    intro other hother key hkey
    rcases List.mem_append.mp hother with hmem | hnew
    · exact hmem
    · cases List.mem_singleton.mp hnew
      cases hkey
  refine ⟨fun j other hother => ?_, fun j k first second hfirst hsecond key hkey hkey' => ?_,
    fun row hrow key hkey => hsub (h.minted row hrow key hkey), fun row hrow key hkey => ?_⟩
  · obtain hother | ⟨-, rfl⟩ := getElem?_concat hother
    · exact (h.calls j other hother).frame (fun _ huploaded => huploaded)
        (fun row hrow key hkey => .inl ⟨row, hrow, hkey, rfl⟩) hsub
        fun other' hother' key hkey => .inl ⟨other', hold other' hother' key hkey, hkey⟩
    · refine ⟨trivial, (fun _ hload => nomatch hload), (fun _ hnone => nomatch hnone),
        fun key hown => ?_, fun _ key hown row hrow hkey => ?_,
        fun _ key hown other hother hkey => ?_⟩
      · exact List.mem_append_left _ (Option.mem_toList.mpr hown)
      · exact hfresh key hown (h.minted row hrow key hkey)
      · obtain ⟨j, hj⟩ := List.mem_iff_getElem?.mp (hold other hother key hkey)
        exact hfresh key hown ((h.calls j other hj).known key hkey)
  · obtain hfirst | ⟨rfl, rfl⟩ := getElem?_concat hfirst <;>
      obtain hsecond | ⟨rfl, rfl⟩ := getElem?_concat hsecond
    · exact h.unique j k first second hfirst hsecond key hkey hkey'
    · exact absurd ((h.calls j first hfirst).ownMinted key hkey) (hfresh key hkey')
    · exact absurd ((h.calls k second hsecond).ownMinted key hkey') (hfresh key hkey)
    · rfl
  · refine (h.covered row hrow key hkey).imp_right fun ⟨j, other, hother, howes⟩ => ?_
    have hlt := (List.getElem?_eq_some_iff.mp hother).1
    exact ⟨j, other, (List.getElem?_append_left hlt).trans hother, howes⟩

theorem Inv.act (h : Inv s) (hcall : s.calls[i]? = some call) {outcome : Outcome}
    (horderly : orderly s (.act i outcome) = true) (hact : s.act i outcome call = some t) :
    Inv t := by
  simp only [orderly, hcall] at horderly
  cases hstage : call.stage with
  | started =>
    have hrunning : call.stage ≠ .ended := ne_of_eq_of_ne hstage fun hended => nomatch hended
    simp only [ClientLogos.act, hstage, Option.some.injEq] at hact
    subst hact
    split
    · exact h.enter_read hcall hrunning (by rw [hstage]; rfl) (afterRead_afterRead _ _)
    · exact h.stop_free hcall hrunning (by rw [hstage]; rfl)
  | deletingOld row key retry =>
    have hrunning : call.stage ≠ .ended := ne_of_eq_of_ne hstage fun hended => nomatch hended
    simp only [ClientLogos.act, hstage, Option.some.injEq] at hact
    subst hact
    cases outcome with
    | done => exact h.deletingOld hcall hstage
    | failed => exact h.stop_free hcall hrunning (by rw [hstage]; rfl)
    | unanswered =>
      simp only [hstage] at horderly
      exact h.deletingOld_unanswered hcall hstage horderly
  | uploading key row deleted =>
    have hrunning : call.stage ≠ .ended := ne_of_eq_of_ne hstage fun hended => nomatch hended
    have hunnamed : outcome ≠ .done → ∀ key, deleted = some key → s.isUnnamed key = true := by
      rintro hnot key rfl
      cases outcome with
      | done => exact absurd rfl hnot
      | failed => simpa only [hstage] using horderly
      | unanswered => simpa only [hstage] using horderly
    simp only [ClientLogos.act, hstage, Option.some.injEq] at hact
    subst hact
    cases outcome with
    | done => exact h.uploading hcall hstage
    | failed =>
      refine h.stop hcall hrunning fun key hkey => hunnamed (fun hnot => nomatch hnot) key ?_
      rw [hstage] at hkey
      exact hkey
    | unanswered => exact h.uploading_unanswered hcall hstage (hunnamed fun hnot => nomatch hnot)
  | saving row deleted retry =>
    have hrunning : call.stage ≠ .ended := ne_of_eq_of_ne hstage fun hended => nomatch hended
    simp only [ClientLogos.act, hstage, Option.some.injEq] at hact
    subst hact
    cases outcome with
    | done => exact h.saving hcall hstage (save_saved _ _ _ _) (.inl rfl)
    | failed =>
      refine h.stop hcall hrunning fun key hkey => ?_
      rw [hstage] at hkey
      cases hkey
      simpa only [hstage] using horderly
    | unanswered => exact h.saving hcall hstage (save_saved _ _ _ _) (.inr rfl)
  | rereading =>
    have hrunning : call.stage ≠ .ended := ne_of_eq_of_ne hstage fun hended => nomatch hended
    have huploaded := (h.calls i call hcall).stage
    rw [hstage] at huploaded
    simp only [ClientLogos.act, hstage, Option.some.injEq] at hact
    subst hact
    split
    · exact h.enter_read hcall hrunning (by rw [hstage]; rfl) (rereading_afterRead _ _ huploaded)
    · exact h.stop_free hcall hrunning (by rw [hstage]; rfl)
  | deletingUpload key =>
    simp only [ClientLogos.act, hstage, Option.some.injEq] at hact
    subst hact
    split
    · exact h.stop_free hcall (by simp [hstage]) (by rw [hstage]; rfl)
    · exact h.deletingUpload hcall hstage
  | deletingRemoved key =>
    simp only [ClientLogos.act, hstage, Option.some.injEq] at hact
    subst hact
    split
    · exact h.stop_free hcall (by simp [hstage]) (by rw [hstage]; rfl)
    · exact h.deletingRemoved hcall hstage
  | ended =>
    simp only [ClientLogos.act, hstage] at hact
    cases hact

theorem Inv.step (h : Inv s) {move : BrandingMove} (horderly : orderly s move = true)
    (hstep : ClientLogos.step s move = some t) : Inv t := by
  cases move with
  | request request =>
    simp only [ClientLogos.step, Option.ite_none_right_eq_some, Option.some.injEq] at hstep
    obtain ⟨hfresh, rfl⟩ := hstep
    refine h.request fun key hkey => ?_
    rw [hkey, Option.all_some] at hfresh
    exact of_decide_eq_true hfresh
  | act i outcome =>
    obtain ⟨call, hcall, hact⟩ := Option.bind_eq_some_iff.mp hstep
    exact h.act hcall horderly hact
  | abort i =>
    obtain ⟨call, hcall, rfl⟩ := Option.map_eq_some_iff.mp hstep
    simp only [orderly, hcall] at horderly
    by_cases hrunning : call.stage = .ended
    · -- A request that has ended stays so.
      have hsame : s.enter i call .ended = s := by
        have hset : s.calls.set i { call with stage := .ended } = s.calls := by
          obtain ⟨hlt, hget⟩ := List.getElem?_eq_some_iff.mp hcall
          rw [← hrunning, ← hget]
          exact List.set_getElem_self hlt
        rw [ClientLogos.enter, hset]
      rw [hsame]
      exact h
    · refine h.stop hcall hrunning fun key hkey => ?_
      rw [hkey] at horderly
      exact horderly

end Proofs

/-- The run: where no request is running, the key of the row names an object. -/
theorem servable_of_orderly_run {s₀ s : ClientLogos} {moves : List BrandingMove} (h₀ : Start s₀)
    (h : run step orderly s₀ moves = some s) (hquiescent : Quiescent s) : Servable s := by
  have hreached : Reaches step (fun a move => orderly a move = true) s₀ s :=
    reaches_of_run (fun _ _ hcheck => hcheck) h
  have hinv : Inv s := hreached.invariant Inv h₀.inv
    fun _ _ _ ha horderly hstep => ha.step horderly hstep
  exact hinv.servable hquiescent

/-! ## Two runs -/

/-- A client whose logo is stored. -/
def withLogo : ClientLogos where
  row := some ⟨0, some "old.png"⟩
  nextId := 1
  objects := ["old.png"]
  minted := ["old.png"]
  calls := []

theorem start_withLogo : Start withLogo where
  calls := rfl
  servable row hrow key hkey := by
    cases hrow
    cases hkey
    exact List.mem_singleton_self _
  minted row hrow key hkey := by
    cases hrow
    cases hkey
    exact List.mem_singleton_self _

/-- A `PUT` with a logo that overlaps with a deletion of the logo, which finds it gone. -/
def overlapping : List BrandingMove := [
  .request (.upsert (some "new.png")), .request .deleteLogo, .act 0 .done, .act 1 .done,
  .act 1 .done, .act 0 .done, .act 0 .done, .act 1 .done, .act 0 .done]

theorem servable_of_overlapping :
    ∃ s, run step orderly withLogo overlapping = some s ∧ s.row = some ⟨0, some "new.png"⟩ ∧
      Servable s := by
  have hrun : (run step orderly withLogo overlapping).any (fun s =>
      decide (s.row = some ⟨0, some "new.png"⟩ ∧ ∀ call ∈ s.calls, call.stage = .ended)) =
        true := by decide +kernel
  cases hs : run step orderly withLogo overlapping with
  | none =>
    rw [hs] at hrun
    cases hrun
  | some s =>
    rw [hs] at hrun
    obtain ⟨hrow, hquiescent⟩ := of_decide_eq_true hrun
    exact ⟨s, rfl, hrow, servable_of_orderly_run start_withLogo hs hquiescent⟩

/-- A `PUT` whose upload fails once the old logo is deleted. -/
theorem not_servable_of_failed_upload :
    ∃ s, Start withLogo ∧ Reachable step withLogo s ∧ Quiescent s ∧ ¬Servable s := by
  have hrun : (run step (fun _ _ => true) withLogo [
      .request (.upsert (some "new.png")), .act 0 .done, .act 0 .done, .act 0 .failed]).any
        (fun s => decide ((∀ call ∈ s.calls, call.stage = .ended) ∧
          s.row = some ⟨0, some "old.png"⟩ ∧ "old.png" ∉ s.objects)) = true := by decide +kernel
  obtain ⟨s, hreached, htest⟩ := exists_reaches_of_run (fun _ _ _ => trivial) hrun
  obtain ⟨hquiescent, hrow, hgone⟩ := of_decide_eq_true htest
  exact ⟨s, start_withLogo, hreached, hquiescent,
    fun hservable => hgone (hservable _ hrow "old.png" rfl)⟩

end ClientLogos

end Wallow.Branding
