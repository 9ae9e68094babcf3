import Mathlib.Data.List.TakeWhile
import Mathlib.Data.Prod.Lex

/-!
# Releases and their aliases

`publication_releases.py` and `publication_aliases.py`: which releases a listing holds, and which
aliases a release may still take.  `none` is a `PublicationError`.
-/

namespace Wallow.Publication

/-- A component of the catalog.  A package that it publishes has its name, after the scope. -/
structure Component where
  id : List Char
  tagPrefix : List Char
  package : Bool
  deriving DecidableEq

/-- The catalog; `images` are the repositories of its images, in their order. -/
structure Catalog where
  components : List Component
  images : List (List Char)
  deriving DecidableEq

/-- A release as the listing gives it. -/
structure ApiRelease where
  id : Nat
  draft : Bool
  tagName : List Char
  targetCommitish : List Char
  prerelease : Bool
  deriving DecidableEq

structure Release where
  id : Nat
  component : List Char
  version : List Char
  tagName : List Char
  target : List Char
  prerelease : Bool
  deriving DecidableEq

inductive Kind
  | image
  | package
  deriving DecidableEq

/-- Versions are compared as tuples are. -/
abbrev Version := Nat ×ₗ Nat ×ₗ Nat

/-! ## Versions -/

/-- `0|[1-9][0-9]*`. -/
def canonicalNumber : List Char → Bool
  | [] => false
  | first :: rest =>
    (first = '0' ∧ rest = []) || ('1' ≤ first && first ≤ '9' && rest.all Char.isDigit)

/-- `int` of decimal digits. -/
def number (digits : List Char) : Nat :=
  digits.foldl (fun n digit => 10 * n + (digit.toNat - '0'.toNat)) 0

/-- `STABLE.fullmatch`, with the numbers of its groups. -/
def stableMatch (version : List Char) : Option (Nat × Nat × Nat) :=
  match version.splitOn '.' with
  | [major, minor, patch] =>
    if canonicalNumber major && canonicalNumber minor && canonicalNumber patch then
      some (number major, number minor, number patch)
    else none
  | _ => none

/-- The versions a release of the listing may have: what is before the first hyphen is stable, and
after it comes a text of letters, digits, points and hyphens. -/
def versionMatches (version : List Char) : Bool :=
  (stableMatch (version.takeWhile (· ≠ '-'))).isSome &&
    match version.dropWhile (· ≠ '-') with
    | [] => true
    | _ :: label => label ≠ [] && label.all fun c => c.isAlphanum || c = '.' || c = '-'

/-- No version for a prerelease. -/
def stableVersion (version : List Char) (prerelease : Bool) : Option (Option (Nat × Nat × Nat)) :=
  if 128 < version.length ∨ '+' ∈ version then none
  else if prerelease || '-' ∈ version then some none
  else (stableMatch version).map some

/-- `str` of a number. -/
def decimal (n : Nat) : List Char := Nat.toDigits 10 n

def aliasNames : Kind → Nat × Nat × Nat → List (List Char)
  | .image, (major, minor, _) =>
    ["latest".toList, decimal major, decimal major ++ '.' :: decimal minor]
  | .package, (major, minor, _) =>
    ["latest".toList, "major-".toList ++ decimal major,
      "minor-".toList ++ decimal major ++ '.' :: decimal minor]

def aliases (kind : Kind) (release : Release) : Option (List (List Char)) :=
  (stableVersion release.version release.prerelease).map fun version =>
    match version with
    | none => []
    | some version => aliasNames kind version

/-! ## The listing -/

/-- What a release of the listing is for the components of the catalog. -/
def entries (catalog : Catalog) (release : ApiRelease) : List Release :=
  if release.draft then []
  else
    catalog.components.filterMap fun component =>
      if component.tagPrefix.isPrefixOf release.tagName then
        let version := release.tagName.drop component.tagPrefix.length
        if versionMatches version then
          some
            { id := release.id, component := component.id, version, tagName := release.tagName,
              target := release.targetCommitish, prerelease := release.prerelease }
        else none
      else none

/-- The pages from one on, as long as they are full and as there may be more. -/
def releasePages (catalog : Catalog) (batch : Nat → List ApiRelease) :
    Nat → Nat → Option (List Release)
  | 0, _ => none
  | pages + 1, page =>
    let found := (batch page).flatMap (entries catalog)
    if (batch page).length < 100 then some found
    else (releasePages catalog batch pages (page + 1)).map (found ++ ·)

/-- The pages of the listing hold a hundred releases each. -/
def releases (catalog : Catalog) (listing : List ApiRelease) : Option (List Release) :=
  releasePages catalog (fun page => (listing.drop (100 * (page - 1))).take 100) 100 1

/-- `[a-f0-9]{40}`. -/
def commitMatches (text : List Char) : Bool :=
  text.length = 40 && text.all fun c => c.isDigit || ('a' ≤ c && c ≤ 'f')

/-- Whether a release is one to publish; the tag is looked up last. -/
def selects (tagCommit : List Char → Option (List Char)) (source : List Char)
    (releaseId : Option Nat) (release : Release) : Option Bool :=
  if (releaseId = none ∨ releaseId = some release.id) ∧
      (!commitMatches release.target ∨ release.target = source) then
    (tagCommit release.tagName).map fun commit => commit = source
  else some false

def selectedFrom (tagCommit : List Char → Option (List Char)) (source : List Char)
    (releaseId : Option Nat) : List Release → Option (List Release)
  | [] => some []
  | release :: history =>
    (selects tagCommit source releaseId release).bind fun selected =>
      (selectedFrom tagCommit source releaseId history).map fun rest =>
        if selected then release :: rest else rest

/-- The releases to publish; one that is asked for has to be among them alone. -/
def selectedReleases (tagCommit : List Char → Option (List Char)) (source : List Char)
    (releaseId : Option Nat) (history : List Release) : Option (List Release) :=
  (selectedFrom tagCommit source releaseId history).bind fun selected =>
    if releaseId ≠ none ∧ selected.length ≠ 1 then none else some selected

/-! ## The aliases a release may take -/

def order (version : Nat × Nat × Nat) : Version :=
  toLex (version.1, toLex (version.2.1, version.2.2))

local instance name_lawful : LawfulBEq (List Char) := inferInstance

/-- Whether a later release of the component has the alias. -/
def outranked (kind : Kind) (component name : List Char) (version : Nat × Nat × Nat) :
    List Release → Option Bool
  | [] => some false
  | other :: history =>
    if other.component ≠ component then outranked kind component name version history
    else
      (aliases kind other).bind fun names =>
        if name ∉ names then outranked kind component name version history
        else
          (stableVersion other.version other.prerelease).bind fun later =>
            if later.any fun later => order version < order later then some true
            else outranked kind component name version history

def ownAliases (kind : Kind) (component : List Char) (version : Nat × Nat × Nat)
    (history : List Release) : List (List Char) → Option (List (List Char))
  | [] => some []
  | name :: names =>
    (outranked kind component name version history).bind fun later =>
      (ownAliases kind component version history names).map fun own =>
        if later then own else name :: own

def currentAliases (kind : Kind) (release : Release) (history : List Release) :
    Option (List (List Char)) :=
  (stableVersion release.version release.prerelease).bind fun version =>
    match version with
    | none => some []
    | some version =>
      ownAliases kind release.component version history (aliasNames kind version)

/-! ## What the listing holds -/

theorem releasePages_eq {catalog : Catalog} {listing : List ApiRelease}
    {history : List Release} (pages page : Nat)
    (h : releasePages catalog (fun page => (listing.drop (100 * (page - 1))).take 100) pages
      (page + 1) = some history) :
    history = (listing.drop (100 * page)).flatMap (entries catalog) := by
  induction pages generalizing page history with
  | zero => cases h
  | succ pages ih =>
    rw [releasePages] at h
    have hpage : page + 1 - 1 = page := rfl
    rw [hpage] at h
    split at h
    · rename_i hshort
      rw [List.length_take] at hshort
      have hlast : (listing.drop (100 * page)).take 100 = listing.drop (100 * page) :=
        List.take_of_length_le (by omega)
      rw [← Option.some.inj h, hlast]
    · have ⟨rest, hrest, hhistory⟩ := Option.map_eq_some_iff.mp h
      have hnext : listing.drop (100 * (page + 1)) = (listing.drop (100 * page)).drop 100 := by
        rw [List.drop_drop, Nat.mul_add]
      have hboth := List.take_append_drop 100 (listing.drop (100 * page))
      rw [← hhistory, ih (page + 1) hrest, hnext, ← List.flatMap_append, hboth]

/-- All pages together are the listing. -/
theorem releases_eq {catalog : Catalog} {listing : List ApiRelease} {history : List Release}
    (h : releases catalog listing = some history) :
    history = listing.flatMap (entries catalog) :=
  releasePages_eq 100 0 h

theorem entries_matches {catalog : Catalog} {raw : ApiRelease} {release : Release}
    (h : release ∈ entries catalog raw) : versionMatches release.version = true := by
  rw [entries] at h
  split at h
  · exact absurd h List.not_mem_nil
  · have ⟨component, _, hentry⟩ := List.mem_filterMap.mp h
    split at hentry
    · dsimp only at hentry
      split at hentry
      · rename_i hmatches
        cases hentry
        exact hmatches
      · cases hentry
    · cases hentry

theorem entries_draft {catalog : Catalog} {raw : ApiRelease} {release : Release}
    (h : release ∈ entries catalog raw) : raw.draft = false := by
  cases hdraft : raw.draft with
  | false => rfl
  | true =>
    rw [entries, if_pos hdraft] at h
    exact absurd h List.not_mem_nil

theorem selectedFrom_subset {tagCommit : List Char → Option (List Char)} {source : List Char}
    {releaseId : Option Nat} {history selected : List Release}
    (h : selectedFrom tagCommit source releaseId history = some selected) :
    selected ⊆ history := by
  induction history generalizing selected with
  | nil =>
    cases h
    exact List.Subset.refl []
  | cons release history ih =>
    have ⟨chosen, _, hrest⟩ := Option.bind_eq_some_iff.mp h
    have ⟨rest, hrest, hselected⟩ := Option.map_eq_some_iff.mp hrest
    have hsubset := ih hrest
    rw [← hselected]
    split
    · exact List.cons_subset_cons release hsubset
    · exact fun other hother => List.mem_cons_of_mem release (hsubset hother)

theorem selectedReleases_subset {tagCommit : List Char → Option (List Char)} {source : List Char}
    {releaseId : Option Nat} {history selected : List Release}
    (h : selectedReleases tagCommit source releaseId history = some selected) :
    selected ⊆ history := by
  have ⟨found, hfound, hselected⟩ := Option.bind_eq_some_iff.mp h
  split at hselected
  · cases hselected
  · rw [← Option.some.inj hselected]
    exact selectedFrom_subset hfound

/-! ## What a release covers -/

/-- The stable version of a release has the alias. -/
def Covers (kind : Kind) (release : Release) (name : List Char) : Prop :=
  ∃ version, stableVersion release.version release.prerelease = some (some version) ∧
    name ∈ aliasNames kind version

/-- Where a release stands in the order; one without a stable version is the lowest. -/
def rank (release : Release) : Version :=
  order (((stableVersion release.version release.prerelease).getD none).getD (0, 0, 0))

theorem rank_eq {release : Release} {version : Nat × Nat × Nat}
    (h : stableVersion release.version release.prerelease = some (some version)) :
    rank release = order version := by
  rw [rank, h]
  rfl

theorem mem_aliases {kind : Kind} {release : Release} {names : List (List Char)}
    {name : List Char} (h : aliases kind release = some names) :
    name ∈ names ↔ Covers kind release name := by
  have ⟨stable, hstable, hnames⟩ := Option.map_eq_some_iff.mp h
  rw [Covers, hstable, ← hnames]
  cases stable with
  | none => exact iff_of_false List.not_mem_nil fun ⟨_, hnone, _⟩ => by cases hnone
  | some version =>
    constructor
    · exact fun hmem => ⟨version, rfl, hmem⟩
    · intro hcovers
      have ⟨version', hsome, hmem⟩ := hcovers
      cases hsome
      exact hmem

theorem outranked_iff {kind : Kind} {component name : List Char} {version : Nat × Nat × Nat}
    {history : List Release} {later : Bool}
    (h : outranked kind component name version history = some later) :
    later = true ↔ ∃ other ∈ history, other.component = component ∧ Covers kind other name ∧
      order version < rank other := by
  induction history with
  | nil =>
    cases h
    exact iff_of_false Bool.false_ne_true fun h => by
      obtain ⟨_, hmem, _⟩ := h
      exact absurd hmem List.not_mem_nil
  | cons other history ih =>
    -- where the first release does not have the alias, it is the rest that decides
    have hskip : ¬(other.component = component ∧ Covers kind other name ∧
        order version < rank other) → outranked kind component name version history = some later →
        (later = true ↔ ∃ found ∈ other :: history, found.component = component ∧
          Covers kind found name ∧ order version < rank found) := by
      intro hnot hrest
      rw [ih hrest]
      constructor
      · rintro ⟨found, hmem, hfound⟩
        exact ⟨found, List.mem_cons_of_mem other hmem, hfound⟩
      · intro hfound
        obtain ⟨found, hmem, hfound⟩ := hfound
        cases List.mem_cons.mp hmem with
        | inl heq => exact absurd (heq ▸ hfound) hnot
        | inr htail => exact ⟨found, htail, hfound⟩
    rw [outranked] at h
    split at h
    · rename_i hcomponent
      exact hskip (fun hboth => hcomponent hboth.1) h
    · obtain ⟨names, hnames, hrest⟩ := Option.bind_eq_some_iff.mp h
      split at hrest
      · rename_i hname
        exact hskip (fun hboth => hname ((mem_aliases hnames).mpr hboth.2.1)) hrest
      · rename_i hcomponent hname
        have hcovers := (mem_aliases hnames).mp (not_not.mp hname)
        obtain ⟨stable, hstable, hmem⟩ := (mem_aliases hnames).mp (not_not.mp hname)
        rw [hstable, Option.bind_some, Option.any_some] at hrest
        split at hrest
        · rename_i hlater
          cases hrest
          apply iff_of_true rfl
          exact ⟨other, List.mem_cons_self, not_not.mp hcomponent, hcovers,
            (rank_eq hstable).symm ▸ of_decide_eq_true hlater⟩
        · rename_i hlater
          apply hskip _ hrest
          intro hboth
          exact hlater (decide_eq_true ((rank_eq hstable) ▸ hboth.2.2))

theorem mem_ownAliases {kind : Kind} {component : List Char} {version : Nat × Nat × Nat}
    {history : List Release} {names own : List (List Char)}
    (h : ownAliases kind component version history names = some own) {name : List Char} :
    name ∈ own ↔ name ∈ names ∧ ¬∃ other ∈ history, other.component = component ∧
      Covers kind other name ∧ order version < rank other := by
  induction names generalizing own with
  | nil =>
    cases h
    exact iff_of_false List.not_mem_nil fun hboth => absurd hboth.1 List.not_mem_nil
  | cons first names ih =>
    have ⟨later, hlater, hrest⟩ := Option.bind_eq_some_iff.mp h
    have ⟨rest, hrest, hown⟩ := Option.map_eq_some_iff.mp hrest
    have hfirst := outranked_iff hlater
    have hthose := ih hrest
    rw [← hown]
    by_cases heq : name = first
    · subst heq
      cases later with
      | true =>
        rw [if_pos rfl, hthose]
        exact iff_of_false (fun hboth => hboth.2 (hfirst.mp rfl)) fun hboth =>
          hboth.2 (hfirst.mp rfl)
      | false =>
        rw [if_neg Bool.false_ne_true]
        exact iff_of_true List.mem_cons_self
          ⟨List.mem_cons_self, fun hsome => Bool.false_ne_true (hfirst.mpr hsome)⟩
    · have hmem : name ∈ (if later = true then rest else first :: rest) ↔ name ∈ rest := by
        split
        · exact Iff.rfl
        · rw [List.mem_cons]
          exact or_iff_right heq
      have hnames : name ∈ first :: names ↔ name ∈ names := by
        rw [List.mem_cons]
        exact or_iff_right heq
      rw [hmem, hthose, hnames]

/-- A release may take the aliases that no later one of its component has. -/
theorem mem_currentAliases {kind : Kind} {release : Release} {history : List Release}
    {own : List (List Char)} (h : currentAliases kind release history = some own)
    {name : List Char} :
    name ∈ own ↔ Covers kind release name ∧ ¬∃ other ∈ history,
      other.component = release.component ∧ Covers kind other name ∧ rank release < rank other := by
  have ⟨stable, hstable, hown⟩ := Option.bind_eq_some_iff.mp h
  cases stable with
  | none =>
    cases hown
    apply iff_of_false List.not_mem_nil
    intro hboth
    have ⟨version, hsome, _⟩ := hboth.1
    rw [hstable] at hsome
    cases hsome
  | some version =>
    have hcovers : Covers kind release name ↔ name ∈ aliasNames kind version := by
      rw [Covers, hstable]
      constructor
      · intro hcovers
        have ⟨version', hsome, hmem⟩ := hcovers
        cases hsome
        exact hmem
      · exact fun hmem => ⟨version, rfl, hmem⟩
    rw [mem_ownAliases hown, hcovers, rank_eq hstable]

/-! ## The texts of aliases -/

/-- The references that may be given as aliases. -/
def aliasMatches : Kind → List Char → Bool
  | .image, reference =>
    reference = "latest".toList ||
      match reference.splitOn '.' with
      | [major] => canonicalNumber major
      | [major, minor] => canonicalNumber major && canonicalNumber minor
      | _ => false
  | .package, reference =>
    reference = "latest".toList ||
      ("major-".toList.isPrefixOf reference && canonicalNumber (reference.drop 6)) ||
      ("minor-".toList.isPrefixOf reference &&
        match (reference.drop 6).splitOn '.' with
        | [major, minor] => canonicalNumber major && canonicalNumber minor
        | _ => false)

theorem isDigit_of_mem_decimal {n : Nat} {c : Char} (h : c ∈ decimal n) : c.isDigit = true :=
  Nat.isDigit_of_mem_toDigits (by decide) (by decide) h

theorem not_mem_decimal {n : Nat} {c : Char} (h : c.isDigit = false) : c ∉ decimal n := by
  intro hmem
  rw [isDigit_of_mem_decimal hmem] at h
  cases h

theorem splitOn_decimal (n : Nat) : (decimal n).splitOn '.' = [decimal n] :=
  List.splitOn_eq_singleton (not_mem_decimal (by decide))

theorem splitOn_decimals (m n : Nat) :
    (decimal m ++ '.' :: decimal n).splitOn '.' = [decimal m, decimal n] := by
  rw [List.splitOn_append_cons_self, splitOn_decimal, splitOn_decimal]
  rfl

/-- An alias of an image has a point at most, and no hyphen. -/
theorem imageAlias_splitOn {version : Nat × Nat × Nat} {name : List Char}
    (h : name ∈ aliasNames .image version) : '-' ∉ name ∧ (name.splitOn '.').length ≤ 2 := by
  have ⟨major, minor, patch⟩ := version
  have hhyphen : ∀ n, '-' ∉ decimal n := fun n => not_mem_decimal (by decide)
  rw [aliasNames, List.mem_cons, List.mem_cons, List.mem_singleton] at h
  cases h with
  | inl hlatest =>
    rw [hlatest]
    decide
  | inr hother =>
    cases hother with
    | inl hmajor =>
      rw [hmajor, splitOn_decimal]
      exact ⟨hhyphen major, Nat.le_succ 1⟩
    | inr hminor =>
      rw [hminor, splitOn_decimals, List.mem_append, List.mem_cons, not_or, not_or]
      exact ⟨⟨hhyphen major, by decide, hhyphen minor⟩, le_rfl⟩

theorem stableMatch_length {version : List Char} (h : (stableMatch version).isSome = true) :
    (version.splitOn '.').length = 3 := by
  rw [stableMatch] at h
  split at h
  · rename_i major minor patch hparts
    rw [hparts]
    rfl
  · cases h

/-- No version is an alias of an image. -/
theorem not_imageAlias_of_versionMatches {name : List Char} {version : Nat × Nat × Nat}
    (h : versionMatches name = true) : name ∉ aliasNames .image version := by
  intro hmem
  have ⟨hhyphen, hlength⟩ := imageAlias_splitOn hmem
  have hwhole : name.takeWhile (· ≠ '-') = name := by
    apply List.takeWhile_eq_self_iff.mpr
    intro c hc
    exact decide_eq_true fun heq => hhyphen (heq ▸ hc)
  rw [versionMatches, Bool.and_eq_true, hwhole] at h
  have hthree := stableMatch_length h.1
  omega

theorem imageAlias_head {name : List Char} {version : Nat × Nat × Nat}
    (h : name ∈ aliasNames .image version) : name.head? ≠ some 's' ∧ name ≠ "nightly".toList := by
  have ⟨major, minor, patch⟩ := version
  have hdigits : ∀ (n : Nat) (tail : List Char),
      (decimal n ++ tail).head? ≠ some 's' ∧ decimal n ++ tail ≠ "nightly".toList := by
    intro n tail
    cases hfirst : decimal n with
    | nil => exact absurd hfirst Nat.toDigits_ne_nil
    | cons first rest =>
      have hdigit : first.isDigit = true :=
        isDigit_of_mem_decimal (hfirst ▸ List.mem_cons_self)
      constructor
      · intro heq
        rw [Option.some.inj heq] at hdigit
        exact absurd hdigit (by decide)
      · intro heq
        rw [(List.cons.inj heq).1] at hdigit
        exact absurd hdigit (by decide)
  rw [aliasNames, List.mem_cons, List.mem_cons, List.mem_singleton] at h
  cases h with
  | inl hlatest =>
    rw [hlatest]
    decide
  | inr hother =>
    cases hother with
    | inl hmajor =>
      rw [hmajor, ← List.append_nil (decimal major)]
      exact hdigits major []
    | inr hminor =>
      rw [hminor]
      exact hdigits major ('.' :: decimal minor)

theorem packageAlias_head {name : List Char} {version : Nat × Nat × Nat}
    (h : name ∈ aliasNames .package version) : name.head? ≠ some 'v' := by
  have ⟨major, minor, patch⟩ := version
  rw [aliasNames, List.mem_cons, List.mem_cons, List.mem_singleton] at h
  cases h with
  | inl hlatest =>
    rw [hlatest]
    decide
  | inr hother =>
    cases hother with
    | inl hmajor =>
      rw [hmajor]
      exact fun heq => absurd (Option.some.inj heq) (by decide)
    | inr hminor =>
      rw [hminor]
      exact fun heq => absurd (Option.some.inj heq) (by decide)

end Wallow.Publication
