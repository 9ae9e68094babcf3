import Wallow.Identity.ClientSync
import Mathlib.Data.List.Dedup
import Mathlib.Data.List.Find
import Mathlib.Data.List.Perm.Subperm

/-!
# The organizations of pre-registered clients

What `ResolveTenantIdAsync` finds, creates and seeds.  A client is bound to its organization by id
or by name; a name is looked up among the first twenty organizations that contain it, and created
when it is not there.
-/

namespace Wallow.Identity.ClientSync

open Wallow.Shared

/-- The organization a definition names by its id. -/
def boundId (client : PreRegisteredClientDefinition) : Option Guid :=
  client.tenantId.filter (· ≠ Guid.empty)

/-- The organization a definition names by its name. -/
def tenantNameOf (client : PreRegisteredClientDefinition) : Option String :=
  if (boundId client).isSome then none
  else client.tenantName.filter fun name => !isNullOrWhiteSpace (some name)

def findOrganization (organizations : List Organization) (name : String) : Option Organization :=
  organizations.find? (·.name = name)

def organizationOf (db : Database) (client : PreRegisteredClientDefinition) : Option Guid :=
  (boundId client).or ((tenantNameOf client).bind fun name =>
    (findOrganization db.organizations name).map Organization.id)

/-! ## The directory a configuration asks for -/

def tenantNames (clients : List PreRegisteredClientDefinition) : List String :=
  clients.filterMap tenantNameOf

/-- The names of the organizations that a sync creates. -/
def missingNames (clients : List PreRegisteredClientDefinition)
    (organizations : List Organization) : List String :=
  ((tenantNames clients).filter (· ∉ organizations.map Organization.name)).dedup

/-- How many of the names that contain this one come before it. -/
def nameRank (host : Host) (names : List String) (name : String) : Nat :=
  names.countP fun other =>
    decide (name.toList <:+: other.toList) && !host.collation.le name other

/-- The names are found where they exist, and can be created where they do not. -/
structure DirectoryReady (host : Host) (clients : List PreRegisteredClientDefinition)
    (organizations : List Organization) : Prop where
  visible : ∀ name ∈ tenantNames clients, nameRank host
    (organizations.map Organization.name ++ missingNames clients organizations) name < 20
  creatable : ∀ name ∈ missingNames clients organizations,
    isCreatable host organizations name = true
  slugs : ∀ name ∈ missingNames clients organizations,
    ∀ other ∈ missingNames clients organizations,
      generateSlug host name = generateSlug host other → name = other

/-- Organizations that a sync has come to: some of the missing ones are there. -/
def Grown (host : Host) (clients : List PreRegisteredClientDefinition)
    (organizations organizations' : List Organization) : Prop :=
  ∃ created : List Organization, organizations' = organizations ++ created ∧
    (created.map Organization.name).Nodup ∧ ∀ o ∈ created,
      o.name ∈ missingNames clients organizations ∧ o.slug = generateSlug host o.name

section Proofs

variable {host : Host} {clients : List PreRegisteredClientDefinition}
  {client : PreRegisteredClientDefinition} {organizations organizations' : List Organization}
  {name : String}

theorem tenantNameOf_mem (h : client ∈ clients) (hname : tenantNameOf client = some name) :
    name ∈ tenantNames clients := List.mem_filterMap.mpr ⟨client, h, hname⟩

theorem not_blank_of_tenantNameOf (h : tenantNameOf client = some name) :
    boundId client = none ∧ client.tenantName = some name ∧
      isNullOrWhiteSpace (some name) = false := by
  unfold tenantNameOf at h
  split at h
  · cases h
  · rename_i hid
    obtain ⟨hsome, hblank⟩ := Option.filter_eq_some_iff.mp h
    exact ⟨Option.not_isSome_iff_eq_none.mp hid, hsome, by simpa using hblank⟩

theorem isBoundToOrganization_eq_false_iff :
    client.isBoundToOrganization = false ↔ boundId client = none ∧ tenantNameOf client = none := by
  have hid : client.tenantId.any (· ≠ Guid.empty) = (boundId client).isSome := by
    unfold boundId
    cases client.tenantId with
    | none => rfl
    | some id =>
      rw [Option.any_some, Option.filter_some]
      split <;> simp_all
  have hname : isNullOrWhiteSpace client.tenantName = true ↔
      client.tenantName.filter (fun name => !isNullOrWhiteSpace (some name)) = none := by
    cases client.tenantName with
    | none => exact iff_of_true rfl rfl
    | some name =>
      rw [Option.filter_some]
      split <;> simp_all
  unfold PreRegisteredClientDefinition.isBoundToOrganization tenantNameOf
  rw [hid, Bool.or_eq_false_iff, Bool.not_eq_false', hname]
  cases hbound : boundId client with
  | none => simp
  | some id => simp

/-! ## Looking a name up -/

theorem isNamed_iff {o : Organization} (h : name.toList <:+: o.name.toList) :
    isNamed host name o = true ↔ o.name = name := by
  unfold isNamed OrdinalCasing.equals
  rw [decide_eq_true_iff]
  constructor
  · intro hupper
    have hlength := congrArg List.length hupper
    rw [OrdinalCasing.upperText, OrdinalCasing.upperText, List.length_map, List.length_map]
      at hlength
    exact (String.toList_injective (h.eq_of_length hlength.symm)).symm
  · intro heq
    rw [heq]

theorem mem_getOrganizations {o : Organization} (hblank : isNullOrWhiteSpace (some name) = false)
    (h : o ∈ getOrganizations host organizations name) : name.toList <:+: o.name.toList := by
  unfold getOrganizations at h
  rw [hblank, if_neg Bool.false_ne_true] at h
  have hfilter := (List.mem_insertionSort _).mp (List.mem_of_mem_take h)
  exact of_decide_eq_true (List.mem_filter.mp hfilter).2

/-- The organization of a name is found where fewer than twenty come before it. -/
theorem find?_getOrganizations (hblank : isNullOrWhiteSpace (some name) = false)
    (hrank : nameRank host (organizations.map Organization.name) name < 20) :
    (getOrganizations host organizations name).find? (isNamed host name) =
      findOrganization organizations name := by
  let r := fun a b : Organization => host.collation.le a.name b.name = true
  have htotal : Std.Total r := ⟨fun a b => host.collation.le_total a.name b.name⟩
  have htrans : IsTrans Organization r :=
    ⟨fun a b c => host.collation.le_trans a.name b.name c.name⟩
  let wanted : Organization := ⟨Guid.empty, name, ""⟩
  have hties : ∀ o : Organization, decide (o.name = name) = true ↔ r wanted o ∧ r o wanted := by
    intro o
    rw [decide_eq_true_iff]
    constructor
    · rintro rfl
      have hrefl : host.collation.le o.name o.name = true :=
        (host.collation.le_total o.name o.name).elim id id
      exact ⟨hrefl, hrefl⟩
    · exact fun ⟨h, h'⟩ => host.collation.le_antisymm _ _ h' h
  have hcount : SortedPage.rank r wanted
      (organizations.filter fun o => decide (name.toList <:+: o.name.toList)) < 20 := by
    have heq : SortedPage.rank r wanted
        (organizations.filter fun o => decide (name.toList <:+: o.name.toList)) =
          nameRank host (organizations.map Organization.name) name := by
      rw [SortedPage.rank, nameRank, List.countP_filter, List.countP_map]
      refine List.countP_congr fun o _ => ?_
      simp [r, wanted, and_comm]
    rw [heq]
    exact hrank
  have hnamed : ∀ o ∈ getOrganizations host organizations name,
      isNamed host name o = decide (o.name = name) := by
    intro o ho
    have hiff : isNamed host name o = true ↔ o.name = name :=
      isNamed_iff (mem_getOrganizations hblank ho)
    by_cases heq : o.name = name
    · rw [hiff.mpr heq, decide_eq_true heq]
    · rw [decide_eq_false heq, Bool.eq_false_iff]
      exact fun h => heq (hiff.mp h)
  rw [List.find?_congr hnamed, getOrganizations, hblank, if_neg Bool.false_ne_true,
    SortedPage.find?_page hties hcount, List.find?_filter, findOrganization]
  refine List.find?_congr fun o _ => ?_
  by_cases heq : o.name = name
  · simp [heq, List.infix_rfl]
  · simp [heq]

/-! ## A directory that grows -/

theorem mem_missingNames : name ∈ missingNames clients organizations ↔
    name ∈ tenantNames clients ∧ name ∉ organizations.map Organization.name := by
  rw [missingNames, List.mem_dedup, List.mem_filter, decide_eq_true_iff]

theorem findOrganization_eq_none : findOrganization organizations name = none ↔
    name ∉ organizations.map Organization.name := by
  rw [findOrganization, List.find?_eq_none, List.mem_map, not_exists]
  refine forall_congr' fun o => ?_
  rw [decide_eq_true_iff, not_and]

theorem findOrganization_append {o : Organization} {created : List Organization}
    (h : findOrganization organizations name = some o) :
    findOrganization (organizations ++ created) name = some o := by
  rw [findOrganization, List.find?_append]
  rw [findOrganization] at h
  rw [h, Option.some_or]

namespace Grown

theorem refl (organizations : List Organization) :
    Grown host clients organizations organizations :=
  ⟨[], (List.append_nil _).symm, List.nodup_nil, fun _ hnone => nomatch hnone⟩

theorem visible (h : Grown host clients organizations organizations')
    (hready : DirectoryReady host clients organizations) (hname : name ∈ tenantNames clients) :
    nameRank host (organizations'.map Organization.name) name < 20 := by
  obtain ⟨created, rfl, hnodup, hcreated⟩ := h
  refine Nat.lt_of_le_of_lt ?_ (hready.visible name hname)
  have hsub : created.map Organization.name ⊆ missingNames clients organizations := by
    intro other hother
    obtain ⟨o, ho, rfl⟩ := List.mem_map.mp hother
    exact (hcreated o ho).1
  rw [List.map_append, nameRank, nameRank, List.countP_append, List.countP_append]
  exact Nat.add_le_add_left ((hnodup.subperm hsub).countP_le _) _

theorem find? {o : Organization} (h : Grown host clients organizations organizations')
    (ho : findOrganization organizations name = some o) :
    findOrganization organizations' name = some o := by
  obtain ⟨created, rfl, -, -⟩ := h
  exact findOrganization_append ho

/-- A name that is not there is one of those that were to be created, and can be. -/
theorem mem_missingNames (h : Grown host clients organizations organizations')
    (hname : name ∈ tenantNames clients) (hnone : findOrganization organizations' name = none) :
    name ∈ missingNames clients organizations := by
  obtain ⟨created, rfl, -, -⟩ := h
  refine ClientSync.mem_missingNames.mpr ⟨hname, fun hold => ?_⟩
  rw [findOrganization_eq_none, List.map_append] at hnone
  exact hnone (List.mem_append_left _ hold)

theorem creatable (h : Grown host clients organizations organizations')
    (hready : DirectoryReady host clients organizations) (hname : name ∈ tenantNames clients)
    (hnone : findOrganization organizations' name = none) :
    isCreatable host organizations' name = true := by
  have hmissing := h.mem_missingNames hname hnone
  have hcreatable := hready.creatable name hmissing
  obtain ⟨created, rfl, -, hcreated⟩ := h
  simp only [isCreatable, Bool.and_eq_true, decide_eq_true_eq, List.map_append,
    List.mem_append, not_or] at hcreatable ⊢
  refine ⟨hcreatable.1, hcreatable.2, fun hslug => ?_⟩
  obtain ⟨o, ho, hsame⟩ := List.mem_map.mp hslug
  obtain ⟨homissing, hoslug⟩ := hcreated o ho
  have heq := hready.slugs name hmissing o.name homissing (hsame.symm.trans hoslug)
  rw [findOrganization_eq_none, List.map_append] at hnone
  exact hnone (List.mem_append_right _ (heq ▸ List.mem_map_of_mem ho))

theorem create (h : Grown host clients organizations organizations')
    (hname : name ∈ tenantNames clients) (hnone : findOrganization organizations' name = none)
    (id : Guid) : Grown host clients organizations
      (organizations' ++ [⟨id, name, generateSlug host name⟩]) := by
  have hmissing := h.mem_missingNames hname hnone
  obtain ⟨created, rfl, hnodup, hcreated⟩ := h
  refine ⟨created ++ [⟨id, name, generateSlug host name⟩], List.append_assoc _ _ _, ?_,
    fun o ho => ?_⟩
  · rw [List.map_append, List.map_singleton]
    refine List.nodup_append.mpr ⟨hnodup, List.nodup_singleton _, fun a ha b hb heq => ?_⟩
    rw [findOrganization_eq_none, List.map_append] at hnone
    have heq' : a = name := heq.trans (List.mem_singleton.mp hb)
    exact hnone (List.mem_append_right _ (heq' ▸ ha))
  · rcases List.mem_append.mp ho with hold | hnew
    · exact hcreated o hold
    · rw [List.mem_singleton.mp hnew]
      exact ⟨hmissing, rfl⟩

end Grown

/-! ## Seed members -/

section Seeds

variable {db db' : Database} {orgId userId : Guid}

theorem mem_getMembers : userId ∈ db.getMembers orgId ↔ db.hasOrganization orgId = true ∧
    ∃ m ∈ db.memberships, m.organizationId = orgId ∧ m.active = true ∧ m.userId = userId := by
  unfold Database.getMembers
  split
  · rename_i horg
    simp only [horg, true_and, List.mem_map, List.mem_filter, Bool.and_eq_true, decide_eq_true_eq]
    refine exists_congr fun m => ?_
    rw [and_assoc, and_assoc]
  · rename_i horg
    exact iff_of_false List.not_mem_nil fun h => horg h.1

/-- Only memberships change, and no active member is lost. -/
structure MembersGrow (db db' : Database) : Prop where
  frame : db' = { db with memberships := db'.memberships }
  kept : ∀ orgId userId, userId ∈ db.getMembers orgId → userId ∈ db'.getMembers orgId

namespace MembersGrow

theorem refl (db : Database) : MembersGrow db db := ⟨rfl, fun _ _ h => h⟩

theorem trans {db'' : Database} (h : MembersGrow db db') (h' : MembersGrow db' db'') :
    MembersGrow db db'' where
  frame := by
    rw [h'.frame, h.frame]
  kept orgId userId hmem := h'.kept orgId userId (h.kept orgId userId hmem)

theorem organizations_eq (h : MembersGrow db db') : db'.organizations = db.organizations := by
  rw [h.frame]

end MembersGrow

theorem addMember_grows {roleName : String} (userId : Guid)
    (horg : db.hasOrganization orgId = true)
    (hrole : (db.resolveRole roleName).isSome = true) :
    ∃ db', addMember db orgId userId roleName = some db' ∧ MembersGrow db db' ∧
      userId ∈ db'.getMembers orgId := by
  obtain ⟨roleId, hroleId⟩ := Option.isSome_iff_exists.mp hrole
  rw [addMember, if_pos horg, hroleId, Option.map_some]
  refine ⟨_, rfl, ⟨rfl, fun orgId' userId' hmem => ?_⟩, mem_getMembers.mpr ⟨horg, ?_⟩⟩
  · obtain ⟨horg', m, hm, hid, hactive, huser⟩ := mem_getMembers.mp hmem
    refine mem_getMembers.mpr ⟨horg', ?_⟩
    dsimp only
    split
    · by_cases hsame : m.organizationId = orgId ∧ m.userId = userId
      · exact ⟨m.grant roleId, List.mem_map.mpr ⟨m, hm, if_pos hsame⟩, hid, rfl, huser⟩
      · exact ⟨m, List.mem_map.mpr ⟨m, hm, if_neg hsame⟩, hid, hactive, huser⟩
    · exact ⟨m, List.mem_append_left _ hm, hid, hactive, huser⟩
  · dsimp only
    split
    · rename_i hany
      obtain ⟨m, hm, hsame⟩ := List.any_eq_true.mp hany
      have hsame' := of_decide_eq_true hsame
      exact ⟨m.grant roleId, List.mem_map.mpr ⟨m, hm, if_pos hsame'⟩, hsame'.1, rfl, hsame'.2⟩
    · exact ⟨_, List.mem_append_right _ (List.mem_singleton_self _), rfl, rfl, rfl⟩

theorem addSeedMembers_grows {memberIds : List Guid} (emails : List String)
    (hseeds : ∀ email ∈ emails, ∀ userId, db.findByEmail email = some userId →
      userId ∈ memberIds ∨ db.hasOrganization orgId = true ∧
        (db.resolveRole (resolveSeedMemberRole host client email)).isSome = true) :
    ∃ db' reports, addSeedMembers host client orgId memberIds emails db = some (db', reports) ∧
      MembersGrow db db' ∧ ∀ email ∈ emails, ∀ userId, db.findByEmail email = some userId →
        userId ∈ memberIds ∨ userId ∈ db'.getMembers orgId := by
  induction emails generalizing db with
  | nil => exact ⟨db, [], rfl, .refl db, fun _ hnone => nomatch hnone⟩
  | cons email emails ih =>
    have hrest := fun other hother => hseeds other (List.mem_cons_of_mem email hother)
    cases hfind : db.findByEmail email with
    | none =>
      obtain ⟨db', reports, hrun, hgrow, hmembers⟩ := ih hrest
      refine ⟨db', _, by rw [addSeedMembers, hfind, hrun]; rfl, hgrow, fun other hother => ?_⟩
      rcases List.mem_cons.mp hother with rfl | hother
      · intro userId huser
        rw [hfind] at huser
        cases huser
      · exact hmembers other hother
    | some found =>
      by_cases hmember : found ∈ memberIds
      · obtain ⟨db', reports, hrun, hgrow, hmembers⟩ := ih hrest
        refine ⟨db', reports, ?_, hgrow, fun other hother => ?_⟩
        · simp only [addSeedMembers, hfind, if_pos hmember]
          exact hrun
        · rcases List.mem_cons.mp hother with rfl | hother
          · intro userId huser
            rw [hfind, Option.some.injEq] at huser
            exact .inl (huser ▸ hmember)
          · exact hmembers other hother
      · obtain ⟨horg, hrole⟩ :=
          (hseeds email List.mem_cons_self found hfind).resolve_left hmember
        obtain ⟨db₁, hadd, hgrow₁, hadded⟩ := addMember_grows found horg hrole
        have hsame : db₁.findByEmail = db.findByEmail ∧ db₁.resolveRole = db.resolveRole ∧
            db₁.hasOrganization orgId = db.hasOrganization orgId := by
          rw [hgrow₁.frame]
          exact ⟨rfl, rfl, rfl⟩
        rw [← hsame.1, ← hsame.2.1, ← hsame.2.2] at hrest
        obtain ⟨db', reports, hrun, hgrow, hmembers⟩ := ih hrest
        refine ⟨db', _, by
          simp only [addSeedMembers, hfind, if_neg hmember, hadd, Option.bind_some, hrun]
          rfl, hgrow₁.trans hgrow, fun other hother => ?_⟩
        rcases List.mem_cons.mp hother with rfl | hother
        · intro userId huser
          rw [hfind, Option.some.injEq] at huser
          exact .inr (hgrow.kept _ _ (huser ▸ hadded))
        · rw [← hsame.1]
          exact hmembers other hother

/-- Every seed member with an account is an active member. -/
def IsSeeded (db : Database) (orgId : Guid) (client : PreRegisteredClientDefinition) : Prop :=
  ∀ email ∈ client.seedMembers, ∀ userId, db.findByEmail email = some userId →
    userId ∈ db.getMembers orgId

theorem ensureSeedMembers_grows
    (hseeds : ∀ email ∈ client.seedMembers, ∀ userId, db.findByEmail email = some userId →
      userId ∈ db.getMembers orgId ∨ db.hasOrganization orgId = true ∧
        (db.resolveRole (resolveSeedMemberRole host client email)).isSome = true) :
    ∃ db' reports, ensureSeedMembers host db orgId client = some (db', reports) ∧
      MembersGrow db db' ∧ IsSeeded db' orgId client := by
  unfold ensureSeedMembers
  split
  · rename_i hempty
    refine ⟨db, [], rfl, .refl db, fun email hemail => ?_⟩
    rw [List.isEmpty_iff.mp hempty] at hemail
    cases hemail
  · obtain ⟨db', reports, hrun, hgrow, hmembers⟩ := addSeedMembers_grows client.seedMembers hseeds
    refine ⟨db', reports, hrun, hgrow, fun email hemail userId huser => ?_⟩
    rw [hgrow.frame] at huser
    exact (hmembers email hemail userId huser).elim (hgrow.kept orgId userId) id

theorem addSeedMembers_fixed (host : Host) {memberIds : List Guid} (emails : List String)
    (hseeds : ∀ email ∈ emails, ∀ userId, db.findByEmail email = some userId →
      userId ∈ memberIds) :
    ∃ reports, addSeedMembers host client orgId memberIds emails db = some (db, reports) ∧
      ∀ report ∈ reports, report.isChange = false := by
  induction emails with
  | nil => exact ⟨[], rfl, fun _ hnone => nomatch hnone⟩
  | cons email emails ih =>
    obtain ⟨reports, hrun, hreports⟩ :=
      ih fun other hother => hseeds other (List.mem_cons_of_mem email hother)
    cases hfind : db.findByEmail email with
    | none =>
      refine ⟨_, by rw [addSeedMembers, hfind, hrun]; rfl, fun report hreport => ?_⟩
      rcases List.mem_cons.mp hreport with rfl | hreport
      · rfl
      · exact hreports report hreport
    | some found =>
      have hmember := hseeds email List.mem_cons_self found hfind
      refine ⟨reports, ?_, hreports⟩
      simp only [addSeedMembers, hfind, if_pos hmember]
      exact hrun

theorem ensureSeedMembers_fixed (host : Host) (hseeded : IsSeeded db orgId client) :
    ∃ reports, ensureSeedMembers host db orgId client = some (db, reports) ∧
      ∀ report ∈ reports, report.isChange = false := by
  unfold ensureSeedMembers
  split
  · exact ⟨[], rfl, fun _ hnone => nomatch hnone⟩
  · exact addSeedMembers_fixed host client.seedMembers hseeded

end Seeds

/-! ## Resolving an organization -/

/-- The seed members that are no active members yet can be added. -/
def SeedsReady (host : Host) (client : PreRegisteredClientDefinition) (db : Database) : Prop :=
  ∀ email ∈ client.seedMembers, ∀ userId, db.findByEmail email = some userId →
    (∃ orgId, organizationOf db client = some orgId ∧ userId ∈ db.getMembers orgId) ∨
      (db.resolveRole (resolveSeedMemberRole host client email)).isSome = true ∧
        ∀ orgId, boundId client = some orgId → db.hasOrganization orgId = true

/-- What resolving may change: organizations come to be, and no active member is lost. -/
structure Later (db db' : Database) : Prop where
  organizations : ∃ created, db'.organizations = db.organizations ++ created
  kept : ∀ orgId userId, userId ∈ db.getMembers orgId → userId ∈ db'.getMembers orgId
  findByEmail : db'.findByEmail = db.findByEmail
  resolveRole : db'.resolveRole = db.resolveRole

/-- The organization of the definition is there, with its seed members. -/
structure Resolved (db : Database) (client : PreRegisteredClientDefinition) : Prop where
  found : ∀ name, tenantNameOf client = some name →
    (findOrganization db.organizations name).isSome = true
  seeded : ∀ orgId, organizationOf db client = some orgId → IsSeeded db orgId client

section Resolve

variable {db cur cur' : Database}

namespace Later

theorem refl (db : Database) : Later db db :=
  ⟨⟨[], (List.append_nil _).symm⟩, fun _ _ h => h, rfl, rfl⟩

theorem trans (h : Later db cur) (h' : Later cur cur') : Later db cur' where
  organizations := by
    obtain ⟨created, hcreated⟩ := h.organizations
    obtain ⟨created', hcreated'⟩ := h'.organizations
    exact ⟨created ++ created', by rw [hcreated', hcreated, List.append_assoc]⟩
  kept orgId userId hmem := h'.kept orgId userId (h.kept orgId userId hmem)
  findByEmail := h'.findByEmail.trans h.findByEmail
  resolveRole := h'.resolveRole.trans h.resolveRole

theorem of_membersGrow (h : MembersGrow db cur) : Later db cur where
  organizations := ⟨[], by rw [h.organizations_eq, List.append_nil]⟩
  kept := h.kept
  findByEmail := by rw [h.frame]
  resolveRole := by rw [h.frame]

theorem hasOrganization {orgId : Guid} (h : Later db cur)
    (horg : db.hasOrganization orgId = true) : cur.hasOrganization orgId = true := by
  obtain ⟨created, hcreated⟩ := h.organizations
  rw [Database.hasOrganization, hcreated, List.any_append, Bool.or_eq_true]
  exact .inl horg

theorem organizationOf {orgId : Guid} (h : Later db cur)
    (horg : organizationOf db client = some orgId) : organizationOf cur client = some orgId := by
  obtain ⟨created, hcreated⟩ := h.organizations
  unfold ClientSync.organizationOf at horg ⊢
  cases hid : boundId client with
  | some id =>
    rw [hid, Option.some_or] at horg
    rw [Option.some_or]
    exact horg
  | none =>
    rw [hid, Option.none_or, Option.bind_eq_some_iff] at horg
    obtain ⟨name, hname, hfound⟩ := horg
    obtain ⟨o, ho, hoid⟩ := Option.map_eq_some_iff.mp hfound
    rw [Option.none_or, hname, Option.bind_some, hcreated, findOrganization_append ho,
      Option.map_some, hoid]

end Later

theorem organizationOf_unbound (h : client.isBoundToOrganization = false) :
    organizationOf db client = none := by
  obtain ⟨hid, hname⟩ := isBoundToOrganization_eq_false_iff.mp h
  rw [organizationOf, hid, hname]
  rfl

namespace Resolved

theorem later (h : Resolved cur client) (hlater : Later cur cur') :
    Resolved cur' client ∧ organizationOf cur' client = organizationOf cur client := by
  obtain ⟨created, hcreated⟩ := hlater.organizations
  have hfound : ∀ name, tenantNameOf client = some name →
      findOrganization cur'.organizations name = findOrganization cur.organizations name := by
    intro name hname
    obtain ⟨o, ho⟩ := Option.isSome_iff_exists.mp (h.found name hname)
    rw [hcreated, findOrganization_append ho, ho]
  have hsame : organizationOf cur' client = organizationOf cur client := by
    unfold organizationOf
    cases hname : tenantNameOf client with
    | none => rfl
    | some name => rw [Option.bind_some, Option.bind_some, hfound name hname]
  refine ⟨⟨fun name hname => ?_, fun orgId horg email hemail userId huser => ?_⟩, hsame⟩
  · rw [hfound name hname]
    exact h.found name hname
  · rw [hsame] at horg
    rw [hlater.findByEmail] at huser
    exact hlater.kept orgId userId (h.seeded orgId horg email hemail userId huser)

end Resolved

theorem resolveTenantId_of_id {orgId : Guid} (h : boundId client = some orgId) :
    resolveTenantId host db client =
      (ensureSeedMembers host db orgId client).map fun (db, reports) =>
        (some orgId, db, reports) := by
  rw [boundId] at h
  rw [resolveTenantId, h]

theorem resolveTenantId_of_name (h : tenantNameOf client = some name) :
    resolveTenantId host db client = (resolveTenantName host db client name).map
      fun (orgId, db, reports) => (some orgId, db, reports) := by
  obtain ⟨hid, -, -⟩ := not_blank_of_tenantNameOf h
  rw [tenantNameOf, hid, if_neg (by decide)] at h
  rw [boundId] at hid
  rw [resolveTenantId, hid, h]

theorem resolveTenantId_unbound (h : client.isBoundToOrganization = false) :
    resolveTenantId host db client = some (none, db, []) := by
  obtain ⟨hid, hname⟩ := isBoundToOrganization_eq_false_iff.mp h
  rw [tenantNameOf, hid, if_neg (by decide)] at hname
  rw [boundId] at hid
  rw [resolveTenantId, hid, hname]

theorem organizationOf_of_id {orgId : Guid} (h : boundId client = some orgId) :
    organizationOf db client = some orgId := by
  rw [organizationOf, h, Option.some_or]

theorem organizationOf_of_name {o : Organization} (h : tenantNameOf client = some name)
    (ho : findOrganization db.organizations name = some o) :
    organizationOf db client = some o.id := by
  rw [organizationOf, (not_blank_of_tenantNameOf h).1, Option.none_or, h, Option.bind_some, ho,
    Option.map_some]

/-- The three ways to be bound. -/
theorem bound_cases (client : PreRegisteredClientDefinition) :
    (∃ orgId, boundId client = some orgId) ∨ (∃ name, tenantNameOf client = some name) ∨
      client.isBoundToOrganization = false := by
  cases hid : boundId client with
  | some orgId => exact .inl ⟨orgId, rfl⟩
  | none =>
    cases hname : tenantNameOf client with
    | some name => exact .inr (.inl ⟨name, rfl⟩)
    | none => exact .inr (.inr (isBoundToOrganization_eq_false_iff.mpr ⟨hid, hname⟩))

/-- Nothing is left to create or to add. -/
theorem resolveTenantId_fixed (h : Resolved cur client)
    (hvisible : ∀ name, tenantNameOf client = some name →
      nameRank host (cur.organizations.map Organization.name) name < 20) :
    ∃ reports, resolveTenantId host cur client = some (organizationOf cur client, cur, reports) ∧
      ∀ report ∈ reports, report.isChange = false := by
  obtain ⟨orgId, hid⟩ | ⟨name, hname⟩ | hunbound := bound_cases client
  · have horg : organizationOf cur client = some orgId := organizationOf_of_id hid
    obtain ⟨reports, hrun, hreports⟩ := ensureSeedMembers_fixed host (h.seeded orgId horg)
    exact ⟨reports, by rw [resolveTenantId_of_id hid, hrun, horg]; rfl, hreports⟩
  · obtain ⟨o, ho⟩ := Option.isSome_iff_exists.mp (h.found name hname)
    have horg := organizationOf_of_name hname ho
    obtain ⟨reports, hrun, hreports⟩ := ensureSeedMembers_fixed host (h.seeded o.id horg)
    have hblank := (not_blank_of_tenantNameOf hname).2.2
    refine ⟨reports, ?_, hreports⟩
    rw [resolveTenantId_of_name hname, resolveTenantName,
      find?_getOrganizations hblank (hvisible name hname), ho]
    dsimp only
    rw [hrun, horg]
    rfl
  · refine ⟨[], ?_, fun _ hnone => nomatch hnone⟩
    rw [resolveTenantId_unbound hunbound, organizationOf_unbound hunbound]

/-- A sync that goes on: the directory has grown by some of the missing names. -/
structure Progress (host : Host) (clients : List PreRegisteredClientDefinition)
    (db cur : Database) : Prop where
  grown : Grown host clients db.organizations cur.organizations
  later : Later db cur
  ids : ∀ o ∈ cur.organizations, o.id ≠ Guid.empty

theorem Progress.of_membersGrow (h : Progress host clients db cur) (hgrow : MembersGrow cur cur') :
    Progress host clients db cur' where
  grown := by
    rw [hgrow.organizations_eq]
    exact h.grown
  later := h.later.trans (.of_membersGrow hgrow)
  ids := by
    rw [hgrow.organizations_eq]
    exact h.ids

theorem findOrganization_hasOrganization {o : Organization}
    (h : findOrganization cur.organizations name = some o) : cur.hasOrganization o.id = true :=
  List.any_eq_true.mpr ⟨o, List.mem_of_find?_eq_some h, decide_eq_true rfl⟩

/-- The registry takes the organization of a client. -/
theorem Progress.ne_empty {orgId : Guid} (h : Progress host clients db cur)
    (horg : organizationOf cur client = some orgId) : orgId ≠ Guid.empty := by
  obtain ⟨id, hid⟩ | ⟨name, hname⟩ | hunbound := bound_cases client
  · rw [organizationOf_of_id hid, Option.some.injEq] at horg
    exact horg ▸ of_decide_eq_true (Option.filter_eq_some_iff.mp hid).2
  · cases hfound : findOrganization cur.organizations name with
    | none =>
      rw [organizationOf, (not_blank_of_tenantNameOf hname).1, hname, Option.none_or,
        Option.bind_some, hfound] at horg
      cases horg
    | some o =>
      rw [organizationOf_of_name hname hfound, Option.some.injEq] at horg
      exact horg ▸ h.ids o (List.mem_of_find?_eq_some hfound)
  · rw [organizationOf_unbound hunbound] at horg
    cases horg

/-- A seed member of the configuration, where the sync has come to. -/
theorem SeedsReady.at (hseeds : SeedsReady host client db) (hlater : Later db cur) {orgId : Guid}
    (horg : ∀ orgId', organizationOf db client = some orgId' → orgId' = orgId)
    (hexists : boundId client = none → cur.hasOrganization orgId = true)
    (hid : ∀ orgId', boundId client = some orgId' → orgId' = orgId) :
    ∀ email ∈ client.seedMembers, ∀ userId, cur.findByEmail email = some userId →
      userId ∈ cur.getMembers orgId ∨ cur.hasOrganization orgId = true ∧
        (cur.resolveRole (resolveSeedMemberRole host client email)).isSome = true := by
  intro email hemail userId huser
  rw [hlater.findByEmail] at huser
  rw [hlater.resolveRole]
  obtain ⟨orgId', horg', hmember⟩ | ⟨hrole, hbound⟩ := hseeds email hemail userId huser
  · exact .inl (horg orgId' horg' ▸ hlater.kept orgId' userId hmember)
  · refine .inr ⟨?_, hrole⟩
    cases hclient : boundId client with
    | none => exact hexists hclient
    | some orgId' => exact hid orgId' hclient ▸ hlater.hasOrganization (hbound orgId' hclient)

/-- The missing organization of a client is created. -/
theorem Progress.create (h : Progress host clients db cur)
    (hready : DirectoryReady host clients db.organizations) (hmem : name ∈ tenantNames clients)
    (hmissing : findOrganization cur.organizations name = none) :
    ∃ o created, createOrganization host cur name = some (o.id, created) ∧
      findOrganization created.organizations name = some o ∧
      Progress host clients db created ∧ Later cur created ∧
      created.applications = cur.applications ∧
      created.registeredClients = cur.registeredClients := by
  let orgId := cur.lastOrganizationId + 1
  let created : Database := { cur with
    organizations := cur.organizations ++ [⟨orgId, name, generateSlug host name⟩]
    lastOrganizationId := orgId }
  have hcreate : createOrganization host cur name = some (orgId, created) :=
    if_pos (h.grown.creatable hready hmem hmissing)
  have hgrown : Grown host clients db.organizations created.organizations :=
    h.grown.create hmem hmissing orgId
  have hlater : Later cur created := by
    refine ⟨⟨_, rfl⟩, fun orgId' userId hmember => ?_, rfl, rfl⟩
    obtain ⟨horg, m, hm⟩ := mem_getMembers.mp hmember
    refine mem_getMembers.mpr ⟨?_, m, hm⟩
    rw [Database.hasOrganization, List.any_append, Bool.or_eq_true]
    exact .inl horg
  have hids : ∀ o ∈ created.organizations, o.id ≠ Guid.empty := by
    intro o ho
    rcases List.mem_append.mp ho with hold | hnew
    · exact h.ids o hold
    · rw [List.mem_singleton.mp hnew]
      exact Nat.succ_ne_zero _
  have hfound : findOrganization created.organizations name =
      some ⟨orgId, name, generateSlug host name⟩ := by
    rw [findOrganization] at hmissing ⊢
    rw [List.find?_append, hmissing, Option.none_or]
    exact List.find?_cons_of_pos (decide_eq_true rfl)
  exact ⟨_, created, hcreate, hfound, ⟨hgrown, h.later.trans hlater, hids⟩, hlater, rfl, rfl⟩

/-- The organization that a client names is seeded. -/
theorem Progress.seed {o : Organization} (h : Progress host clients db cur)
    (hseeds : SeedsReady host client db) (hname : tenantNameOf client = some name)
    (hfound : findOrganization cur.organizations name = some o) :
    ∃ cur' reports, ensureSeedMembers host cur o.id client = some (cur', reports) ∧
      organizationOf cur' client = some o.id ∧ Progress host clients db cur' ∧ Later cur cur' ∧
      Resolved cur' client ∧ cur'.applications = cur.applications ∧
      cur'.registeredClients = cur.registeredClients := by
  obtain ⟨hid, -, -⟩ := not_blank_of_tenantNameOf hname
  have horg : ∀ orgId, organizationOf db client = some orgId → orgId = o.id := by
    intro orgId hbound
    have hcur := h.later.organizationOf hbound
    rw [organizationOf_of_name hname hfound, Option.some.injEq] at hcur
    exact hcur.symm
  obtain ⟨cur', reports, hrun, hgrow, hseeded⟩ := ensureSeedMembers_grows
    (hseeds.at h.later horg (fun _ => findOrganization_hasOrganization hfound)
      fun orgId hbound => nomatch hid.symm.trans hbound)
  have hfound' : findOrganization cur'.organizations name = some o := by
    rw [hgrow.organizations_eq]
    exact hfound
  have horg' := organizationOf_of_name hname hfound'
  refine ⟨cur', reports, hrun, horg', h.of_membersGrow hgrow, .of_membersGrow hgrow,
    ⟨fun other hother => ?_, fun orgId hbound => ?_⟩, ?_, ?_⟩
  · rw [hname, Option.some.injEq] at hother
    rw [← hother, hfound']
    rfl
  · rw [horg', Option.some.injEq] at hbound
    exact hbound ▸ hseeded
  · rw [hgrow.frame]
  · rw [hgrow.frame]

/-- The organization is found or created, and seeded. -/
theorem resolveTenantId_progress (hready : DirectoryReady host clients db.organizations)
    (hseeds : SeedsReady host client db) (hmem : client ∈ clients)
    (h : Progress host clients db cur) :
    ∃ cur' reports,
      resolveTenantId host cur client = some (organizationOf cur' client, cur', reports) ∧
      Progress host clients db cur' ∧ Later cur cur' ∧ Resolved cur' client ∧
      cur'.applications = cur.applications ∧ cur'.registeredClients = cur.registeredClients := by
  obtain ⟨orgId, hid⟩ | ⟨name, hname⟩ | hunbound := bound_cases client
  · have horg : ∀ cur : Database, organizationOf cur client = some orgId :=
      fun _ => organizationOf_of_id hid
    obtain ⟨cur', reports, hrun, hgrow, hseeded⟩ := ensureSeedMembers_grows
      (hseeds.at h.later (fun orgId' horg' => Option.some.inj (horg'.symm.trans (horg db)))
        (fun hnone => nomatch hid.symm.trans hnone)
        fun orgId' horg' => Option.some.inj (horg'.symm.trans hid))
    have hnameless : tenantNameOf client = none := by
      rw [tenantNameOf, hid]
      rfl
    refine ⟨cur', reports, by rw [resolveTenantId_of_id hid, hrun, horg]; rfl,
      h.of_membersGrow hgrow, .of_membersGrow hgrow, ⟨fun name hname => ?_, ?_⟩, ?_, ?_⟩
    · rw [hnameless] at hname
      cases hname
    · intro orgId' horg'
      rw [horg cur', Option.some.injEq] at horg'
      exact horg' ▸ hseeded
    · rw [hgrow.frame]
    · rw [hgrow.frame]
  · obtain ⟨-, -, hblank⟩ := not_blank_of_tenantNameOf hname
    have hmemName := tenantNameOf_mem hmem hname
    have hlookup := find?_getOrganizations hblank (h.grown.visible hready hmemName)
    cases hfound : findOrganization cur.organizations name with
    | some o =>
      obtain ⟨cur', reports, hrun, horg, hprogress⟩ := h.seed hseeds hname hfound
      refine ⟨cur', reports, ?_, hprogress⟩
      rw [resolveTenantId_of_name hname, resolveTenantName, hlookup, hfound]
      dsimp only
      rw [hrun, horg]
      rfl
    | none =>
      obtain ⟨o, created, hcreate, hfoundNew, hcreated, hlater, happlications, hregistered⟩ :=
        h.create hready hmemName hfound
      obtain ⟨cur', reports, hrun, horg, hprogress, hlater', hresolved, happlications',
        hregistered'⟩ := hcreated.seed hseeds hname hfoundNew
      refine ⟨cur', .tenantCreated client.clientId name :: reports, ?_, hprogress,
        hlater.trans hlater', hresolved, happlications'.trans happlications,
        hregistered'.trans hregistered⟩
      rw [resolveTenantId_of_name hname, resolveTenantName, hlookup, hfound]
      dsimp only
      rw [hcreate, Option.bind_some]
      dsimp only
      rw [hrun, horg]
      rfl
  · refine ⟨cur, [], ?_, h, .refl cur, ⟨fun name hname => ?_, fun orgId horg => ?_⟩, rfl, rfl⟩
    · rw [resolveTenantId_unbound hunbound, organizationOf_unbound hunbound]
    · rw [(isBoundToOrganization_eq_false_iff.mp hunbound).2] at hname
      cases hname
    · rw [organizationOf_unbound hunbound] at horg
      cases horg

end Resolve

end Proofs

end Wallow.Identity.ClientSync
