import Wallow.Lib.DepthFirst
import Mathlib.Data.List.Dedup
import Mathlib.Data.List.Sort

/-!
# The order of packages

`dependency_order` of `publication_packages.py`: the packages that are published, each after those
of them that it depends on.
-/

namespace Wallow.Publication

open DepthFirst Relation

/-- The names and version requirements of a package. -/
structure Package where
  name : String
  version : String
  dependencies : List (String × String)
  peerDependencies : List (String × String)
  deriving DecidableEq

namespace PackageOrder

inductive Raised
  | duplicate
  | cycle
  /-- No recursion is this deep. -/
  | exhausted
  deriving DecidableEq

/-- `sorted`, of names. -/
def sorted (names : List String) : List String := names.mergeSort fun a b => decide (a ≤ b)

/-- The names of both kinds of dependencies. -/
def Package.required (package : Package) : List String :=
  sorted (package.dependencies.map (·.1) ++ package.peerDependencies.map (·.1)).dedup

section

variable (packages : List Package)

/-- `by_name`: of packages that share a name, the last one stays. -/
def byName (name : String) : Option Package := packages.reverse.find? (·.name = name)

/-- The dependencies that are visited. -/
def next (name : String) : List String :=
  match byName packages name with
  | some package => (Package.required package).filter fun name => (byName packages name).isSome
  | none => []

/-- A visit of as many names one in another as there are packages, and one, is not cut off. -/
def dependencyOrder : Except Raised (List Package) :=
  let names := (packages.map (·.name)).dedup
  if names.length ≠ packages.length then .error .duplicate
  else
    match search (next packages) (fun name => (byName packages name).toList)
        (packages.length + 1) (sorted names) with
    | .ok s => .ok s.result
    | .error .cycle => .error .cycle
    | .error .exhausted => .error .exhausted

/-- One of the packages depends on another of them. -/
def DependsOn (a b : Package) : Prop :=
  a ∈ packages ∧ b ∈ packages ∧
    b.name ∈ a.dependencies.map (·.1) ++ a.peerDependencies.map (·.1)

end

variable {packages : List Package}

theorem mem_sorted {names : List String} {name : String} :
    name ∈ sorted names ↔ name ∈ names :=
  (List.mergeSort_perm names _).mem_iff

theorem mem_required {package : Package} {name : String} : name ∈ Package.required package ↔
    name ∈ package.dependencies.map (·.1) ++ package.peerDependencies.map (·.1) := by
  rw [Package.required, mem_sorted, List.mem_dedup]

/-! ## Names -/

theorem byName_eq_some (hnodup : (packages.map (·.name)).Nodup) {package : Package}
    {name : String} :
    byName packages name = some package ↔ package ∈ packages ∧ package.name = name := by
  constructor
  · intro h
    have hname := List.find?_some h
    exact ⟨List.mem_reverse.mp (List.mem_of_find?_eq_some h), by simpa using hname⟩
  · intro h
    have ⟨hin, hname⟩ := h
    cases hfound : byName packages name with
    | none =>
      have hnone := List.find?_eq_none.mp hfound package (List.mem_reverse.mpr hin)
      exact absurd hname (by simpa using hnone)
    | some other =>
      have hother : other.name = name := by simpa using List.find?_some hfound
      have hmem := List.mem_reverse.mp (List.mem_of_find?_eq_some hfound)
      rw [List.inj_on_of_nodup_map hnodup hmem hin (hother.trans hname.symm)]

theorem byName_isSome (hnodup : (packages.map (·.name)).Nodup) {name : String} :
    (byName packages name).isSome = true ↔ name ∈ packages.map (·.name) := by
  rw [Option.isSome_iff_exists, List.mem_map]
  exact exists_congr fun package => byName_eq_some hnodup

/-- What is visited from a package are the packages that it depends on. -/
theorem mem_next (hnodup : (packages.map (·.name)).Nodup) {package : Package}
    (hin : package ∈ packages) {name : String} : name ∈ next packages package.name ↔
      ∃ other, DependsOn packages package other ∧ other.name = name := by
  have hfound := (byName_eq_some hnodup).mpr ⟨hin, rfl⟩
  rw [next, hfound]
  dsimp only
  rw [List.mem_filter, mem_required, byName_isSome hnodup, List.mem_map]
  constructor
  · intro h
    have ⟨hrequired, other, hother, hname⟩ := h
    exact ⟨other, ⟨hin, hother, hname ▸ hrequired⟩, hname⟩
  · intro h
    have ⟨other, ⟨_, hother, hrequired⟩, hname⟩ := h
    exact ⟨hname ▸ hrequired, other, hother, hname⟩

theorem nodup_iff_length : (packages.map (·.name)).Nodup ↔
    (packages.map (·.name)).dedup.length = packages.length := by
  constructor
  · intro h
    rw [List.dedup_eq_self.mpr h, List.length_map]
  · intro h
    have hlength : (packages.map (·.name)).dedup.length = (packages.map (·.name)).length :=
      h.trans (List.length_map _).symm
    exact List.dedup_eq_self.mp ((List.dedup_sublist _).eq_of_length hlength)

/-! ## Cycles -/

theorem transGen_names (hnodup : (packages.map (·.name)).Nodup) {a : Package} {name : String}
    (h : TransGen (Edge (next packages)) a.name name) (ha : a ∈ packages) :
    ∃ b, TransGen (DependsOn packages) a b ∧ b.name = name := by
  induction h with
  | single hedge =>
    have ⟨b, hb, hname⟩ := (mem_next hnodup ha).mp hedge
    exact ⟨b, .single hb, hname⟩
  | tail _ hedge ih =>
    have ⟨b, hab, hname⟩ := ih
    have hb : b ∈ packages := by
      cases hab with
      | single h => exact h.2.1
      | tail _ h => exact h.2.1
    rw [← hname] at hedge
    have ⟨c, hc, hname'⟩ := (mem_next hnodup hb).mp hedge
    exact ⟨c, hab.tail hc, hname'⟩

theorem transGen_packages (hnodup : (packages.map (·.name)).Nodup) {a b : Package}
    (h : TransGen (DependsOn packages) a b) :
    TransGen (Edge (next packages)) a.name b.name := by
  have hedge : ∀ {c d}, DependsOn packages c d → Edge (next packages) c.name d.name :=
    fun hdepends => (mem_next hnodup hdepends.1).mpr ⟨_, hdepends, rfl⟩
  induction h with
  | single h => exact .single (hedge h)
  | tail _ h ih => exact ih.tail (hedge h)

theorem exists_cycle_iff (hnodup : (packages.map (·.name)).Nodup) :
    (∃ name ∈ packages.map (·.name), TransGen (Edge (next packages)) name name) ↔
      ∃ package, TransGen (DependsOn packages) package package := by
  constructor
  · intro h
    have ⟨name, hname, hcycle⟩ := h
    have ⟨package, hin, heq⟩ := List.mem_map.mp hname
    rw [← heq] at hcycle
    have ⟨other, hother, hsame⟩ := transGen_names hnodup hcycle hin
    have hmem : other ∈ packages := by
      cases hother with
      | single h => exact h.2.1
      | tail _ h => exact h.2.1
    rw [List.inj_on_of_nodup_map hnodup hmem hin hsame] at hother
    exact ⟨package, hother⟩
  · intro h
    have ⟨package, hcycle⟩ := h
    have hin : package ∈ packages := by
      cases hcycle with
      | single h => exact h.1
      | tail _ h => exact h.2.1
    exact ⟨package.name, List.mem_map_of_mem hin, transGen_packages hnodup hcycle⟩

/-! ## The result -/

/-- Each package comes after those that it depends on. -/
def AfterDependencies (packages result : List Package) : Prop :=
  ∀ before package after, result = before ++ package :: after →
    ∀ other, DependsOn packages package other → other ∈ before

/-- The packages of names, in their order. -/
theorem map_name_flatMap (hnodup : (packages.map (·.name)).Nodup) {names : List String}
    (h : ∀ name ∈ names, name ∈ packages.map (·.name)) :
    (names.flatMap fun name => (byName packages name).toList).map (·.name) = names := by
  induction names with
  | nil => rfl
  | cons name names ih =>
    have ⟨package, hin, hname⟩ := List.mem_map.mp (h name List.mem_cons_self)
    have hfound := (byName_eq_some hnodup).mpr ⟨hin, hname⟩
    rw [List.flatMap_cons, List.map_append, ih fun n hn => h n (List.mem_cons_of_mem name hn),
      hfound]
    exact congrArg (· :: names) hname

theorem mem_flatMap_byName {names : List String} {package : Package}
    (h : package ∈ names.flatMap fun name => (byName packages name).toList) :
    package ∈ packages := by
  have ⟨name, _, hfound⟩ := List.mem_flatMap.mp h
  rw [Option.mem_toList] at hfound
  exact List.mem_reverse.mp (List.mem_of_find?_eq_some hfound)

theorem result_spec (hnodup : (packages.map (·.name)).Nodup) {names : List String}
    (hperm : names.Perm (packages.map (·.name))) (hordered : Ordered (next packages) names) :
    (names.flatMap fun name => (byName packages name).toList).Perm packages ∧
      AfterDependencies packages (names.flatMap fun name => (byName packages name).toList) := by
  have hnames := map_name_flatMap hnodup fun name hname => hperm.mem_iff.mp hname
  generalize hresult : (names.flatMap fun name => (byName packages name).toList) = result
    at hnames
  have hin : ∀ package ∈ result, package ∈ packages := by
    intro package hpackage
    rw [← hresult] at hpackage
    exact mem_flatMap_byName hpackage
  have hresultNodup : result.Nodup := by
    apply List.Nodup.of_map (·.name)
    rw [hnames]
    exact hperm.nodup_iff.mpr hnodup
  have hmem : ∀ package ∈ packages, package ∈ result := by
    intro package hpackage
    have hname := hperm.mem_iff.mpr (List.mem_map_of_mem (f := (·.name)) hpackage)
    rw [← hnames] at hname
    have ⟨other, hother, hsame⟩ := List.mem_map.mp hname
    rw [← List.inj_on_of_nodup_map hnodup (hin other hother) hpackage hsame]
    exact hother
  refine ⟨?_, ?_⟩
  · exact (List.perm_ext_iff_of_nodup hresultNodup (List.Nodup.of_map _ hnodup)).mpr fun package =>
      ⟨hin package, hmem package⟩
  · intro before package after hsplit other hdepends
    rw [hsplit, List.map_append, List.map_cons] at hnames
    have hnext := (mem_next hnodup hdepends.1).mpr ⟨other, hdepends, rfl⟩
    have hbefore := hordered _ _ _ hnames.symm other.name hnext
    have ⟨found, hfound, hsame⟩ := List.mem_map.mp hbefore
    have hfoundIn := hin found (by rw [hsplit]; exact List.mem_append_left _ hfound)
    rw [← List.inj_on_of_nodup_map hnodup hfoundIn hdepends.2.1 hsame]
    exact hfound

/-- It raises exactly where two packages share a name, or depend on each other in a cycle, and else
yields the packages, each after those that it depends on. -/
theorem dependencyOrder_spec (packages : List Package) :
    (dependencyOrder packages = .error .duplicate ∧ ¬(packages.map (·.name)).Nodup) ∨
    (dependencyOrder packages = .error .cycle ∧ (packages.map (·.name)).Nodup ∧
      ∃ package, TransGen (DependsOn packages) package package) ∨
    ((packages.map (·.name)).Nodup ∧ (¬∃ package, TransGen (DependsOn packages) package package) ∧
      ∃ result, dependencyOrder packages = .ok result ∧ result.Perm packages ∧
        AfterDependencies packages result) := by
  by_cases hnodup : (packages.map (·.name)).Nodup
  · have hlength := nodup_iff_length.mp hnodup
    have hdedup := List.dedup_eq_self.mpr hnodup
    have hsorted : (sorted (packages.map (·.name))).Perm (packages.map (·.name)) :=
      List.mergeSort_perm _ _
    have hclosed : ∀ a ∈ sorted (packages.map (·.name)), ∀ b ∈ next packages a,
        b ∈ sorted (packages.map (·.name)) := by
      intro a ha b hb
      have ⟨package, hin, hname⟩ := List.mem_map.mp (mem_sorted.mp ha)
      rw [← hname] at hb
      have ⟨other, hdepends, hother⟩ := (mem_next hnodup hin).mp hb
      rw [mem_sorted, ← hother]
      exact List.mem_map_of_mem hdepends.2.1
    have hdepth : (sorted (packages.map (·.name))).length < packages.length + 1 := by
      rw [hsorted.length_eq, List.length_map]
      omega
    have hcycle : (∃ a ∈ sorted (packages.map (·.name)),
        TransGen (Edge (next packages)) a a) ↔
          ∃ package, TransGen (DependsOn packages) package package := by
      rw [← exists_cycle_iff hnodup]
      exact exists_congr fun a => and_congr_left' mem_sorted
    have hsearch := search_spec (fun name => (byName packages name).toList) hclosed
      (hsorted.nodup_iff.mpr hnodup) hdepth
    rw [hcycle] at hsearch
    rw [dependencyOrder, hdedup, List.length_map, if_neg (not_not.mpr rfl)]
    cases hsearch with
    | inl hraised =>
      rw [hraised.2]
      exact Or.inr (Or.inl ⟨rfl, hnodup, hraised.1⟩)
    | inr hordered =>
      have ⟨hacyclic, s, hs, hperm, hnext, hresult⟩ := hordered
      rw [hs]
      refine Or.inr (Or.inr ⟨hnodup, hacyclic, s.result, rfl, ?_⟩)
      rw [hresult]
      exact result_spec hnodup (hperm.trans hsorted) hnext
  · refine Or.inl ⟨?_, hnodup⟩
    rw [dependencyOrder, if_pos fun hlength => hnodup (nodup_iff_length.mpr hlength)]

end PackageOrder

end Wallow.Publication
