import Wallow.Lib.Transition
import Wallow.Primitives

/-!
# The logo of a client

The requests that change a client's branding: `UpsertBranding` and `DeleteLogo` of
`OrganizationClientBrandingController.cs`, and the two handlers that delete the branding, cut at
their storage and database calls.  Each call may fail, with or without its effect.
-/

namespace Wallow.Branding

open Transition

/-- The row of the client, of which there is at most one. -/
structure ClientBranding where
  id : Nat
  logoStorageKey : Option String
  deriving DecidableEq

inductive BrandingRequest
  /-- The storage key that is minted for the logo in the form, where there is one. -/
  | upsert (logoStorageKey : Option String)
  | deleteLogo
  | clientDeleted
  | organizationDeleted
  deriving DecidableEq

/-- Where a request stands: with the row as it was loaded, the key whose object it has deleted, and
whether it applies itself to the row of another insert. -/
inductive BrandingStage
  | started
  | deletingOld (row : ClientBranding) (key : String) (retry : Bool)
  | uploading (key : String) (row : Option ClientBranding) (deleted : Option String)
  | saving (row : Option ClientBranding) (deleted : Option String) (retry : Bool)
  | rereading
  /-- `VanishedAsync`. -/
  | deletingUpload (key : String)
  /-- The row is gone; the object it named is next. -/
  | deletingRemoved (key : String)
  | ended
  deriving DecidableEq

structure BrandingCall where
  request : BrandingRequest
  stage : BrandingStage
  deriving DecidableEq

/-- What a call comes to; `unanswered` took effect and threw. -/
inductive Outcome
  | done
  | failed
  | unanswered
  deriving DecidableEq

structure ClientLogos where
  row : Option ClientBranding
  nextId : Nat
  objects : List String
  /-- The keys that were ever minted. -/
  minted : List String
  calls : List BrandingCall
  deriving DecidableEq

inductive BrandingMove
  | request (request : BrandingRequest)
  | act (i : Nat) (outcome : Outcome)
  /-- Cancelled, or the process has stopped. -/
  | abort (i : Nat)
  deriving DecidableEq

/-- The key of the new logo, where the request brings one. -/
def BrandingRequest.ownKey : BrandingRequest → Option String
  | .upsert logoStorageKey => logoStorageKey
  | _ => none

namespace ClientLogos

def enter (s : ClientLogos) (i : Nat) (call : BrandingCall) (stage : BrandingStage) :
    ClientLogos :=
  { s with calls := s.calls.set i { call with stage := stage } }

def deleteObject (s : ClientLogos) (key : String) : ClientLogos :=
  { s with objects := s.objects.filter (· ≠ key) }

def isNullOrEmpty (text : Option String) : Bool := text.all (· = "")

/-- `ApplyRequestAsync`, up to its first call. -/
def applyRequest (newKey : Option String) (row : ClientBranding) (retry : Bool) : BrandingStage :=
  match newKey, row.logoStorageKey with
  | none, _ => .saving (some row) none retry
  | some newKey, old =>
    match old.filter (· ≠ "") with
    | some old => .deletingOld row old retry
    | none => if retry then .saving (some row) none retry else .uploading newKey (some row) none

/-- What a request does with the row it has read. -/
def afterRead (request : BrandingRequest) (row : Option ClientBranding) : BrandingStage :=
  match request, row with
  | .upsert none, none => .saving none none false
  | .upsert (some newKey), none => .uploading newKey none none
  | .upsert newKey, some row => applyRequest newKey row false
  | .deleteLogo, none => .ended
  | .deleteLogo, some row =>
    match row.logoStorageKey.filter (· ≠ "") with
    | none => .ended
    | some key => .deletingOld row key false
  | .clientDeleted, none => .ended
  | .clientDeleted, some row =>
    match row.logoStorageKey with
    | none => .saving (some row) none false
    | some key => .deletingOld row key false
  | .organizationDeleted, none => .ended
  | .organizationDeleted, some row => .saving (some row) none false

/-- The object of the old logo is deleted. -/
def afterDeletingOld (request : BrandingRequest) (row : ClientBranding) (key : String)
    (retry : Bool) : BrandingStage :=
  match request, retry with
  | .upsert (some newKey), false => .uploading newKey (some row) (some key)
  | _, _ => .saving (some row) (some key) retry

/-- `VanishedAsync`, up to its call. -/
def vanished (request : BrandingRequest) : BrandingStage :=
  match request.ownKey with
  | none => .ended
  | some key => .deletingUpload key

/-- The `UPDATE` writes the columns that have changed since the row was loaded. -/
def updateRow (stored loaded : ClientBranding) (newKey : Option String) : ClientBranding :=
  if newKey = loaded.logoStorageKey then stored else { stored with logoStorageKey := newKey }

/-- The save of a request: the row it leaves and the stage that follows. -/
def save (s : ClientLogos) (request : BrandingRequest) (row : Option ClientBranding)
    (retry : Bool) : Option ClientBranding × BrandingStage :=
  match row with
  | none =>
    match s.row with
    | none => (some ⟨s.nextId, request.ownKey⟩, .ended)
    -- `DuplicateClientBrandingException`
    | some stored => (some stored, .rereading)
  | some loaded =>
    match s.row.filter (·.id = loaded.id) with
    -- `ClientBrandingConcurrentlyDeletedException`
    | none => (s.row, if retry then vanished request else .ended)
    | some stored =>
      match request with
      | .upsert newKey => (some (updateRow stored loaded (newKey.or loaded.logoStorageKey)), .ended)
      | .deleteLogo => (some (updateRow stored loaded none), .ended)
      | .clientDeleted => (none, .ended)
      | .organizationDeleted =>
        (none, match loaded.logoStorageKey with
          | none => .ended
          | some key => .deletingRemoved key)

/-- The next call of a request. -/
def act (s : ClientLogos) (i : Nat) (outcome : Outcome) (call : BrandingCall) :
    Option ClientLogos :=
  let next := fun stage => if outcome = .done then stage else .ended
  match call.stage with
  | .started => some (s.enter i call (next (afterRead call.request s.row)))
  | .deletingOld row key retry =>
    some ((if outcome = .failed then s else s.deleteObject key).enter i call
      (next (afterDeletingOld call.request row key retry)))
  | .uploading key row deleted =>
    some ((if outcome = .failed then s else { s with objects := key :: s.objects }).enter i call
      (next (.saving row deleted false)))
  | .saving row _ retry =>
    let saved := s.save call.request row retry
    some ((if outcome = .failed then s
      else { s with row := saved.1, nextId := s.nextId + 1 }).enter i call (next saved.2))
  | .rereading =>
    some (s.enter i call (next (match call.request, s.row with
      | .upsert newKey, some row => applyRequest newKey row true
      | _, _ => vanished call.request)))
  | .deletingUpload key | .deletingRemoved key =>
    some ((if outcome = .failed then s else s.deleteObject key).enter i call .ended)
  | .ended => none

def step (s : ClientLogos) : BrandingMove → Option ClientLogos
  | .request request =>
    if request.ownKey.all (· ∉ s.minted) then
      some { s with
        minted := request.ownKey.toList ++ s.minted
        calls := s.calls ++ [⟨request, .started⟩] }
    else none
  | .act i outcome => s.calls[i]?.bind (s.act i outcome)
  | .abort i => s.calls[i]?.map fun call => s.enter i call .ended

/-! ## Orderly steps -/

/-- The key whose object the request has deleted without having committed its row. -/
def deletedKey : BrandingStage → Option String
  | .uploading _ _ deleted | .saving _ deleted _ => deleted
  | _ => none

/-- The row does not name the key. -/
def isUnnamed (s : ClientLogos) (key : String) : Bool :=
  s.row.all fun row => row.logoStorageKey ≠ some key

/-- A request stops only where the object it has deleted, if any, is not the one the row names. -/
def orderly (s : ClientLogos) : BrandingMove → Bool
  | .request _ => true
  | .act i outcome =>
    match s.calls[i]? with
    | none => true
    | some call =>
      match call.stage, outcome with
      | .deletingOld _ key _, .unanswered => s.isUnnamed key
      | .uploading _ _ (some key), .failed | .uploading _ _ (some key), .unanswered =>
        s.isUnnamed key
      | .saving _ (some key) _, .failed => s.isUnnamed key
      | _, _ => true
  | .abort i =>
    match s.calls[i]? with
    | none => true
    | some call => (deletedKey call.stage).all s.isUnnamed

end ClientLogos

end Wallow.Branding
