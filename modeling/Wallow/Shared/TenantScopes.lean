import Wallow.Lib.Transition
import Wallow.Primitives

/-!
# Nested tenant scopes

`TenantContextFactory.CreateScope` and the disposal of its scopes, on the one `TenantContext` that
all scopes share and the `AmbientTenant` beside it.
-/

namespace Wallow.Shared

open Transition

def PrimaryRegion : String := "us-east-1"

structure TenantContext where
  tenantId : Guid
  tenantName : String
  region : String
  isResolved : Bool
  deriving DecidableEq

/-- The shared context and `AmbientTenant.Current`. -/
structure Tenancy where
  context : TenantContext
  ambient : Guid
  deriving DecidableEq

namespace Tenancy

def setTenant (_ : Tenancy) (tenantId : Guid) : Tenancy where
  context :=
    { tenantId := tenantId, tenantName := "", region := PrimaryRegion, isResolved := true }
  ambient := tenantId

/-- The overload of the resolution middleware. -/
def setTenantNamed (_ : Tenancy) (tenantId : Guid) (tenantName region : String) : Tenancy where
  context :=
    { tenantId := tenantId, tenantName := tenantName, region := region, isResolved := true }
  ambient := tenantId

def clear (_ : Tenancy) : Tenancy where
  context :=
    { tenantId := Guid.empty, tenantName := "", region := PrimaryRegion, isResolved := false }
  ambient := Guid.empty

/-- A context no one has set. -/
def initial : Tenancy := ⟨⟨Guid.empty, "", PrimaryRegion, false⟩, Guid.empty⟩

@[simp] theorem clear_eq_initial (s : Tenancy) : s.clear = initial := rfl

@[simp] theorem setTenant_isResolved (s : Tenancy) (tenantId : Guid) :
    (s.setTenant tenantId).context.isResolved = true := rfl

theorem setTenant_ne_initial (s : Tenancy) (tenantId : Guid) :
    s.setTenant tenantId ≠ initial := by
  intro h
  have hresolved : (s.setTenant tenantId).context.isResolved = initial.context.isResolved := by
    rw [h]
  cases hresolved

end Tenancy

/-! ## Properly nested calls -/

inductive ScopeCall
  | createScope (tenantId : Guid)
  | dispose
  deriving DecidableEq

/-- What one disposed scope found and left: the tenancy just before it was created, and just after
it was disposed. -/
structure Disposal where
  before : Tenancy
  after : Tenancy
  deriving DecidableEq

structure ScopeRun where
  tenancy : Tenancy
  /-- The open scopes, innermost first, each as the tenancy it was created in. -/
  opened : List Tenancy
  disposed : List Disposal
  deriving DecidableEq

namespace ScopeRun

def start (tenancy : Tenancy) : ScopeRun := ⟨tenancy, [], []⟩

def createScope (s : ScopeRun) (tenantId : Guid) : ScopeRun :=
  { s with tenancy := s.tenancy.setTenant tenantId, opened := s.tenancy :: s.opened }

/-- `TenantContextScope.Dispose`, of the scope opened last. -/
def dispose (s : ScopeRun) : Option ScopeRun :=
  match s.opened with
  | [] => none
  | before :: rest =>
    let after := s.tenancy.clear
    some ⟨after, rest, s.disposed ++ [⟨before, after⟩]⟩

def step (s : ScopeRun) : ScopeCall → Option ScopeRun
  | .createScope tenantId => some (s.createScope tenantId)
  | .dispose => s.dispose

end ScopeRun

/-- A properly nested sequence: scopes one after the other, each around such a sequence. -/
inductive Scopes
  | done
  | scope (tenantId : Guid) (inner rest : Scopes)
  deriving DecidableEq

namespace Scopes

def calls : Scopes → List ScopeCall
  | done => []
  | scope tenantId inner rest => .createScope tenantId :: (inner.calls ++ .dispose :: rest.calls)

def count : Scopes → Nat
  | done => 0
  | scope _ inner rest => inner.count + 1 + rest.count

/-- The tenancy after the sequence: that of the start when there is no scope in it. -/
def leaves (start : Tenancy) : Scopes → Tenancy
  | done => start
  | scope _ _ _ => Tenancy.initial

theorem leaves_initial (scopes : Scopes) : scopes.leaves Tenancy.initial = Tenancy.initial := by
  cases scopes with
  | done => rfl
  | scope _ _ _ => rfl

/-- The disposals of the sequence, in their order. -/
def disposals (start : Tenancy) : Scopes → List Disposal
  | done => []
  | scope tenantId inner rest =>
    inner.disposals (start.setTenant tenantId) ++
      ⟨start, Tenancy.initial⟩ :: rest.disposals Tenancy.initial

end Scopes

namespace ScopeRun

/-- Whatever is open around it, a nested sequence runs to its end, leaves the open scopes as they
were and disposes of each of its own. -/
theorem follow_calls (scopes : Scopes) (s : ScopeRun) :
    follow step s scopes.calls =
      some ⟨scopes.leaves s.tenancy, s.opened, s.disposed ++ scopes.disposals s.tenancy⟩ := by
  induction scopes generalizing s with
  | done =>
    simp only [Scopes.calls, Scopes.leaves, Scopes.disposals, List.append_nil]
    rfl
  | scope tenantId inner rest ihInner ihRest =>
    have hcreated : follow step s (.createScope tenantId :: (inner.calls ++ .dispose :: rest.calls))
        = follow step (s.createScope tenantId) (inner.calls ++ .dispose :: rest.calls) := rfl
    rw [Scopes.calls, hcreated, follow, run_append]
    rw [show run step (fun _ _ => true) (s.createScope tenantId) inner.calls = _ from
      ihInner (s.createScope tenantId), Option.bind_some]
    -- the scope just opened is the innermost one again
    have hdisposed : ∀ tenancy disposed,
        run step (fun _ _ => true) ⟨tenancy, s.tenancy :: s.opened, disposed⟩
          (.dispose :: rest.calls) =
        follow step ⟨Tenancy.initial, s.opened, disposed ++ [⟨s.tenancy, Tenancy.initial⟩]⟩
          rest.calls := fun _ _ => rfl
    rw [show (s.createScope tenantId).opened = s.tenancy :: s.opened from rfl, hdisposed, ihRest]
    have hleaves : (Scopes.scope tenantId inner rest).leaves s.tenancy =
        rest.leaves Tenancy.initial := (Scopes.leaves_initial rest).symm
    rw [hleaves, Scopes.disposals]
    simp only [createScope, List.append_assoc, List.cons_append, List.nil_append]

theorem disposals_length (scopes : Scopes) (start : Tenancy) :
    (scopes.disposals start).length = scopes.count := by
  induction scopes generalizing start with
  | done => rfl
  | scope tenantId inner rest ihInner ihRest =>
    rw [Scopes.disposals, List.length_append, List.length_cons, ihInner, ihRest, Scopes.count]
    omega

/-- A disposal clears the tenancy whatever was set before its scope. -/
theorem after_of_mem_disposals {scopes : Scopes} {start : Tenancy} {d : Disposal}
    (h : d ∈ scopes.disposals start) : d.after = Tenancy.initial := by
  induction scopes generalizing start with
  | done => cases h
  | scope tenantId inner rest ihInner ihRest =>
    rw [Scopes.disposals, List.mem_append, List.mem_cons] at h
    obtain hinner | hself | hrest := h
    · exact ihInner hinner
    · rw [hself]
    · exact ihRest hrest

/-- In any properly nested sequence each scope is disposed of, and its disposal leaves a cleared
context and ambient tenant: those before the scope exactly when they were clear then. -/
theorem disposed_clears (tenancy : Tenancy) (scopes : Scopes) :
    ∃ t, follow step (start tenancy) scopes.calls = some t ∧ t.opened = [] ∧
      t.disposed.length = scopes.count ∧
      ∀ d ∈ t.disposed, d.after = Tenancy.initial ∧
        (d.after = d.before ↔ d.before = Tenancy.initial) := by
  refine ⟨_, follow_calls scopes (start tenancy), rfl, ?_, ?_⟩
  · rw [show (start tenancy).disposed = [] from rfl, List.nil_append]
    exact disposals_length scopes _
  · intro d hd
    rw [show (start tenancy).disposed = [] from rfl, List.nil_append] at hd
    have hafter : d.after = Tenancy.initial := after_of_mem_disposals hd
    rw [hafter]
    exact ⟨rfl, eq_comm⟩

/-- Work for tenant 7 opens a scope for tenant 5 and goes on after it for no tenant. -/
theorem inner_scope_clears_outer :
    ¬ ∀ (tenancy : Tenancy) (scopes : Scopes) (t : ScopeRun),
      follow step (start tenancy) scopes.calls = some t → ∀ d ∈ t.disposed, d.after = d.before := by
  intro h
  have hinner := h Tenancy.initial (.scope 7 (.scope 5 .done .done) .done) _ rfl
    ⟨Tenancy.initial.setTenant 7, Tenancy.initial⟩ (by decide)
  exact Tenancy.setTenant_ne_initial Tenancy.initial 7 hinner.symm

end ScopeRun

end Wallow.Shared
