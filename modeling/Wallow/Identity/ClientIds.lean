import Wallow.Lib.SplitText
import Wallow.Lib.Transition
import Wallow.Identity.ClientConvergence

/-!
# Ids of organization clients

`ClientIdDerivation.cs`, and `OrganizationClientService.RegisterAsync` as far as it refuses an id:
the id is made of the slugs of the organization and of the name, with a hyphen between them.
-/

namespace Wallow.Identity.ClientIds

open SplitText Transition

inductive RegisteredClientKind
  | application | serviceAccount
  deriving DecidableEq

/-- What a slug takes from Unicode: the decomposition `FormD`, and the marks it leaves out, which
are of the basic plane: the loop sees the halves of other characters, and these are no marks. -/
structure Unicode where
  normalizeD : String → List Char
  isNonSpacingMark : Char → Bool

def isAsciiLetterOrDigit (c : Char) : Bool :=
  ('a' ≤ c && c ≤ 'z') || ('A' ≤ c && c ≤ 'Z') || ('0' ≤ c && c ≤ '9')

section Derivation

variable (unicode : Unicode)

/-- One character of the loop, over the text built so far and `pendingHyphen`. -/
def slugifyChar (state : List Char × Bool) (c : Char) : List Char × Bool :=
  let (builder, pendingHyphen) := state
  if unicode.isNonSpacingMark c then state
  else if isAsciiLetterOrDigit c then
    let separator := if pendingHyphen && builder.length > 0 then ['-'] else []
    (builder ++ separator ++ [c.toLower], false)
  else (builder, true)

def slugify (value : String) : List Char :=
  ((unicode.normalizeD value).foldl (slugifyChar unicode) ([], false)).1

def APPLICATION_PREFIX : String := "app-"
def SERVICE_ACCOUNT_PREFIX : String := "sa-"

def prefixOf (kind : RegisteredClientKind) : String :=
  match kind with
  | .serviceAccount => SERVICE_ACCOUNT_PREFIX
  | .application => APPLICATION_PREFIX

/-- `DeriveClientId`, or `none` where it throws `ClientNameUnusable`. -/
def deriveClientId (kind : RegisteredClientKind) (organizationSlug name : String) :
    Option String :=
  let nameSlug := slugify unicode name
  if nameSlug.length = 0 then none
  else some (prefixOf kind ++
    String.ofList (slugify unicode organizationSlug ++ '-' :: nameSlug))

end Derivation

/-! ## The registry -/

structure RegisteredClient where
  clientId : String
  organizationId : Guid
  name : String
  kind : RegisteredClientKind
  deriving DecidableEq

inductive RegisterError
  | clientNameUnusable
  | clientIdTaken (message : String)
  deriving DecidableEq

/-- The clients of the organizations, and the ids of the applications that are no organization's. -/
structure Registry where
  clients : List RegisteredClient
  others : List String
  deriving DecidableEq

/-- `ClientIdTaken`. -/
def clientIdTaken (name clientId : String) : RegisterError :=
  .clientIdTaken ("A client named '" ++ name ++
    "' already exists in this organization (client id '" ++ clientId ++ "').")

section Registrations

variable (unicode : Unicode) (slugOf : Guid → String)

/-- `RegisterAsync`; the unique index on client ids refuses what the look-up before it does. -/
def registerAsync (s : Registry) (organizationId : Guid) (kind : RegisteredClientKind)
    (name : String) : Except RegisterError Registry :=
  match deriveClientId unicode kind (slugOf organizationId) name with
  | none => .error .clientNameUnusable
  | some clientId =>
    if s.clients.any (·.clientId = clientId) || s.others.contains clientId then
      .error (clientIdTaken name clientId)
    else .ok { s with clients := ⟨clientId, organizationId, name, kind⟩ :: s.clients }

inductive RegistryMove
  | register (organizationId : Guid) (kind : RegisteredClientKind) (name : String)
  | delete (clientId : String)
  /-- The applications of no organization change. -/
  | change (others : List String)

def step (s : Registry) : RegistryMove → Option Registry
  | .register organizationId kind name =>
    match registerAsync unicode slugOf s organizationId kind name with
    | .ok s => some s
    | .error _ => some s
  | .delete clientId => some { s with clients := s.clients.filter (·.clientId ≠ clientId) }
  | .change others => some { s with others }

def start : Registry := ⟨[], []⟩

end Registrations

/-! ## When two ids are one -/

/-- The slugs of the organization and of the name are the same for both, or one organization's slug
goes on with a hyphen and a text that the other one's name begins with. -/
def Collide (unicode : Unicode) (kind kind' : RegisteredClientKind)
    (organizationSlug organizationSlug' name name' : String) : Prop :=
  let organization := slugify unicode organizationSlug
  let organization' := slugify unicode organizationSlug'
  let nameSlug := slugify unicode name
  let nameSlug' := slugify unicode name'
  kind = kind' ∧ ((organization = organization' ∧ nameSlug = nameSlug') ∨
    (∃ mid, organization = organization' ++ '-' :: mid ∧ nameSlug' = mid ++ '-' :: nameSlug) ∨
    ∃ mid, organization' = organization ++ '-' :: mid ∧ nameSlug = mid ++ '-' :: nameSlug')

variable {unicode : Unicode} {kind kind' : RegisteredClientKind}
  {organizationSlug organizationSlug' name name' clientId clientId' : String}

theorem deriveClientId_eq_some (h : deriveClientId unicode kind organizationSlug name =
    some clientId) : clientId = prefixOf kind ++
      String.ofList (slugify unicode organizationSlug ++ '-' :: slugify unicode name) := by
  unfold deriveClientId at h
  rw [Option.ite_none_left_eq_some, Option.some.injEq] at h
  exact h.2.symm

/-- Ids of both kinds differ in their first letter. -/
theorem prefixOf_append_inj {a b : String} :
    prefixOf kind ++ a = prefixOf kind' ++ b ↔ kind = kind' ∧ a = b := by
  constructor
  · intro h
    have hchars := congrArg String.toList h
    rw [String.toList_append, String.toList_append] at hchars
    have happ : (prefixOf .application).toList = ['a', 'p', 'p', '-'] := by decide
    have hsa : (prefixOf .serviceAccount).toList = ['s', 'a', '-'] := by decide
    cases kind with
    | application =>
      cases kind' with
      | application => exact ⟨rfl, String.append_right_inj _ |>.mp h⟩
      | serviceAccount =>
        rw [happ, hsa] at hchars
        exact absurd (List.cons.inj hchars).1 (by decide)
    | serviceAccount =>
      cases kind' with
      | application =>
        rw [happ, hsa] at hchars
        exact absurd (List.cons.inj hchars).1 (by decide)
      | serviceAccount => exact ⟨rfl, String.append_right_inj _ |>.mp h⟩
  · intro h
    rw [h.1, h.2]

theorem eq_iff_collide (h : deriveClientId unicode kind organizationSlug name = some clientId)
    (h' : deriveClientId unicode kind' organizationSlug' name' = some clientId') :
    clientId = clientId' ↔
      Collide unicode kind kind' organizationSlug organizationSlug' name name' := by
  rw [deriveClientId_eq_some h, deriveClientId_eq_some h', prefixOf_append_inj,
    String.ofList_inj, append_sep_eq_iff]
  rfl

/-! ## Registered ids -/

/-- The id of every client was derived for it. -/
def Derived (unicode : Unicode) (slugOf : Guid → String) (s : Registry) : Prop :=
  ∀ client ∈ s.clients,
    deriveClientId unicode client.kind (slugOf client.organizationId) client.name =
      some client.clientId

variable {slugOf : Guid → String} {s t : Registry}

theorem derived_register {organizationId : Guid} (h : Derived unicode slugOf s)
    (ht : registerAsync unicode slugOf s organizationId kind name = .ok t) :
    Derived unicode slugOf t := by
  unfold registerAsync at ht
  split at ht
  · cases ht
  · rename_i clientId hderived
    split at ht
    · cases ht
    · cases ht
      intro client hclient
      cases List.mem_cons.mp hclient with
      | inl hnew => rw [hnew, hderived]
      | inr hold => exact h client hold

theorem derived_step {move : RegistryMove} (h : Derived unicode slugOf s)
    (hs : step unicode slugOf s move = some t) : Derived unicode slugOf t := by
  cases move with
  | register organizationId kind name =>
    dsimp only [step] at hs
    cases hresult : registerAsync unicode slugOf s organizationId kind name with
    | error error =>
      rw [hresult] at hs
      cases hs
      exact h
    | ok after =>
      rw [hresult] at hs
      cases hs
      exact derived_register h hresult
  | delete deleted =>
    cases hs
    exact fun client hclient => h client (List.mem_filter.mp hclient).1
  | change others =>
    cases hs
    exact h

/-- The derived ids of two clients differ exactly if they do not collide, and a registration is
refused by a client of another organization exactly if it collides with one. -/
theorem client_ids_differ_iff (unicode : Unicode) :
    (∀ kind kind' organizationSlug organizationSlug' name name' clientId clientId',
      deriveClientId unicode kind organizationSlug name = some clientId →
      deriveClientId unicode kind' organizationSlug' name' = some clientId' →
      (clientId ≠ clientId' ↔
        ¬Collide unicode kind kind' organizationSlug organizationSlug' name name')) ∧
    (∀ slugOf s, Reachable (step unicode slugOf) start s → ∀ organizationId kind name clientId,
      deriveClientId unicode kind (slugOf organizationId) name = some clientId →
      (registerAsync unicode slugOf s organizationId kind name =
          .error (clientIdTaken name clientId) ↔
        clientId ∈ s.others ∨
          (∃ client ∈ s.clients, client.organizationId = organizationId ∧
            client.clientId = clientId) ∨
          ∃ client ∈ s.clients, client.organizationId ≠ organizationId ∧
            Collide unicode kind client.kind (slugOf organizationId)
              (slugOf client.organizationId) name client.name)) := by
  constructor
  · intro kind kind' organizationSlug organizationSlug' name name' clientId clientId' h h'
    exact not_congr (eq_iff_collide h h')
  · intro slugOf s hreached organizationId kind name clientId hderived
    have hall : Derived unicode slugOf s :=
      hreached.invariant (Derived unicode slugOf) (fun _ h => absurd h List.not_mem_nil)
        fun _ _ _ ha _ hs => derived_step ha hs
    have hcollide : ∀ client ∈ s.clients, client.clientId = clientId ↔
        Collide unicode kind client.kind (slugOf organizationId) (slugOf client.organizationId)
          name client.name := by
      intro client hclient
      rw [← eq_iff_collide hderived (hall client hclient)]
      exact eq_comm
    have hrefused : registerAsync unicode slugOf s organizationId kind name =
        .error (clientIdTaken name clientId) ↔
          (∃ client ∈ s.clients, client.clientId = clientId) ∨ clientId ∈ s.others := by
      have htaken : (s.clients.any (·.clientId = clientId) || s.others.contains clientId) = true ↔
          (∃ client ∈ s.clients, client.clientId = clientId) ∨ clientId ∈ s.others := by
        rw [Bool.or_eq_true, List.any_eq_true, List.contains_iff_mem]
        simp only [decide_eq_true_eq]
      rw [← htaken, registerAsync, hderived]
      dsimp only
      split
      · rename_i hcond
        exact iff_of_true rfl hcond
      · rename_i hcond
        exact iff_of_false (fun heq => by cases heq) hcond
    rw [hrefused]
    constructor
    · intro h
      cases h with
      | inr hother => exact .inl hother
      | inl hclient =>
        have ⟨client, hmem, hid⟩ := hclient
        by_cases hown : client.organizationId = organizationId
        · exact .inr (.inl ⟨client, hmem, hown, hid⟩)
        · exact .inr (.inr ⟨client, hmem, hown, (hcollide client hmem).mp hid⟩)
    · intro h
      cases h with
      | inl hother => exact .inr hother
      | inr hclients =>
        cases hclients with
        | inl hown =>
          have ⟨client, hmem, _, hid⟩ := hown
          exact .inl ⟨client, hmem, hid⟩
        | inr hforeign =>
          have ⟨client, hmem, _, hcollides⟩ := hforeign
          exact .inl ⟨client, hmem, (hcollide client hmem).mpr hcollides⟩

/-- Unicode as far as ASCII text needs it. -/
def asciiUnicode : Unicode := ⟨String.toList, fun _ => false⟩

theorem client_ids_differ_of_two_organizations :
    "app-acme-web" ≠ "app-beta-web" ∧
      ∃ s, Reachable (step asciiUnicode fun id => if id = 1 then "a" else "a-b") start s ∧
        registerAsync asciiUnicode (fun id => if id = 1 then "a" else "a-b") s 2 .application "C" =
          .error (clientIdTaken "C" "app-a-b-c") := by
  have hslug : slugify asciiUnicode "acme" = ['a', 'c', 'm', 'e'] := by decide
  have hslug' : slugify asciiUnicode "beta" = ['b', 'e', 't', 'a'] := by decide
  constructor
  · refine ((client_ids_differ_iff asciiUnicode).1 .application .application "acme" "beta" "Web"
      "Web" "app-acme-web" "app-beta-web" (by decide) (by decide)).mpr ?_
    unfold Collide
    rw [hslug, hslug']
    simp
  · let slugOf : Guid → String := fun id => if id = 1 then "a" else "a-b"
    let s : Registry := ⟨[⟨"app-a-b-c", 1, "B C", .application⟩], []⟩
    have hreached : Reachable (step asciiUnicode slugOf) start s :=
      .tail (l := .register 1 .application "B C") .refl trivial (by decide)
    refine ⟨s, hreached, ?_⟩
    refine ((client_ids_differ_iff asciiUnicode).2 slugOf s hreached 2 .application "C" "app-a-b-c"
      (by decide)).mpr (.inr (.inr ⟨_, List.mem_singleton_self _, by decide, rfl, ?_⟩))
    exact .inr (.inl ⟨['b'], by decide, by decide⟩)

/-- The organizations `A` and `A B` are given one id for their clients `B C` and `C`. -/
theorem two_organizations_one_id :
    ¬∀ (unicode : Unicode) (host : ClientSync.Host) (kind : RegisteredClientKind)
      (organization organization' name name' clientId clientId' : String),
      ClientSync.generateSlug host organization ≠ ClientSync.generateSlug host organization' →
      deriveClientId unicode kind (ClientSync.generateSlug host organization) name =
        some clientId →
      deriveClientId unicode kind (ClientSync.generateSlug host organization') name' =
        some clientId' →
      clientId ≠ clientId' := by
  intro h
  have hslug : ClientSync.generateSlug ClientSync.oneHost "A" = "a" := by decide +kernel
  have hslug' : ClientSync.generateSlug ClientSync.oneHost "A B" = "a-b" := by decide +kernel
  have hdiffer := h asciiUnicode ClientSync.oneHost .application "A" "A B" "B C" "C" "app-a-b-c"
    "app-a-b-c"
  rw [hslug, hslug'] at hdiffer
  exact hdiffer (by decide) (by decide) (by decide) rfl

end Wallow.Identity.ClientIds
