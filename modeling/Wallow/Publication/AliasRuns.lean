import Wallow.Lib.ForwardNames
import Wallow.Publication.Releases
import Mathlib.Data.Set.Finite.Lemmas
import Mathlib.Data.Set.Finite.List

/-!
# Runs that publish aliases

`publish_images` and `publish`, as far as they write tags.  The workflow lets one run go at a time;
a run reads the listing when it begins, and it may end before any of its writes.
-/

namespace Wallow.Publication

open Relation

/-- What holds tags: the repository of an image, or the package of a component. -/
inductive Place
  | image (repository : List Char)
  | package (component : List Char)
  deriving DecidableEq

def Place.kind : Place → Kind
  | .image _ => .image
  | .package _ => .package

/-- Where a release is published: the images are those of the platform. -/
def places (catalog : Catalog) (kind : Kind) (component : List Char) : List Place :=
  match kind with
  | .image => if component = "platform".toList then catalog.images.map .image else []
  | .package =>
    (catalog.components.filter fun candidate =>
      candidate.package ∧ candidate.id = component).map fun candidate => .package candidate.id

/-- The tags that a run writes besides the aliases: those of the commit, of the version and of the
last build for an image, and the staging tag for a package. -/
def OtherTag : Kind → Release → List Char → Prop
  | .image, release, tag =>
    (∃ source, tag = "sha-".toList ++ source) ∨ tag = release.version ∨ tag = "nightly".toList
  | .package, _, tag => ∃ sha256, tag = "validated-".toList ++ sha256

/-- `replace_release_alias`, and for a package the comparison and `replace_dist_tag`: `none` raises,
`some none` leaves the alias as it is. -/
def replaceAlias (kind : Kind) (release : Release) (name : List Char)
    (previous : Option (List Char)) : Option (Option (List Char)) :=
  match kind with
  | .image => if aliasMatches .image name then some (some release.version) else none
  | .package =>
    let replaced : Option (Option (List Char)) :=
      if aliasMatches .package name then some (some release.version) else none
    match previous with
    | none => replaced
    | some previous =>
      (stableVersion previous false).bind fun before =>
        (stableVersion release.version release.prerelease).bind fun own =>
          if before.any fun before => own.any fun own => order own < order before then some none
          else replaced

/-- The aliases a run has to replace, in their order; nothing is read where there is no place. -/
def aliasTodo (catalog : Catalog) (kind : Kind) (release : Release) (history : List Release) :
    Option (List (Place × List Char)) :=
  if places catalog kind release.component = [] then some []
  else
    (currentAliases kind release history).map fun names =>
      (places catalog kind release.component).flatMap fun place =>
        names.map fun name => (place, name)

structure Run where
  kind : Kind
  release : Release
  todo : List (Place × List Char)

/-- A tag has the version of the release in whose run it was written. -/
structure World where
  listing : List ApiRelease
  tags : Place → List Char → Option (List Char)
  running : Option Run
  done : Set (Kind × Release)

def World.fresh (listing : List ApiRelease) : World :=
  ⟨listing, fun _ _ => none, none, ∅⟩

def setTag (tags : Place → List Char → Option (List Char)) (place : Place) (tag value : List Char) :
    Place → List Char → Option (List Char) :=
  fun other name => if other = place ∧ name = tag then some value else tags other name

inductive Step (catalog : Catalog) : World → World → Prop
  | grow (w : World) (listing : List ApiRelease)
    (hgrow : ∀ raw ∈ w.listing, raw.draft = false → raw ∈ listing) :
    Step catalog w { w with listing }
  | start (w : World) (kind : Kind) (release : Release) (history : List Release)
    (todo : List (Place × List Char)) (tagCommit : List Char → Option (List Char))
    (source : List Char) (releaseId : Nat) (hidle : w.running = none)
    (hhistory : releases catalog w.listing = some history)
    (hselected : selectedReleases tagCommit source (some releaseId) history = some [release])
    (htodo : aliasTodo catalog kind release history = some todo) :
    Step catalog w { w with running := some ⟨kind, release, todo⟩ }
  | write (w : World) (run : Run) (place : Place) (tag value : List Char)
    (hrunning : w.running = some run) (hplace : place.kind = run.kind)
    (htag : OtherTag run.kind run.release tag) :
    Step catalog w { w with tags := setTag w.tags place tag value }
  | replace (w : World) (run : Run) (place : Place) (name value : List Char)
    (todo : List (Place × List Char)) (hrunning : w.running = some run)
    (htodo : run.todo = (place, name) :: todo)
    (hvalue : replaceAlias run.kind run.release name (w.tags place name) = some (some value)) :
    Step catalog w
      { w with tags := setTag w.tags place name value, running := some { run with todo } }
  | skip (w : World) (run : Run) (place : Place) (name : List Char)
    (todo : List (Place × List Char)) (hrunning : w.running = some run)
    (htodo : run.todo = (place, name) :: todo)
    (hskip : replaceAlias run.kind run.release name (w.tags place name) = some none) :
    Step catalog w { w with running := some { run with todo } }
  | stop (w : World) : Step catalog w { w with running := none }
  | finish (w : World) (run : Run) (hrunning : w.running = some run) (htodo : run.todo = []) :
    Step catalog w { w with running := none, done := insert (run.kind, run.release) w.done }

/-! ## As names that move forward -/

variable {catalog : Catalog} {w w' : World}

/-- The releases that are listed. -/
def Listed (catalog : Catalog) (w : World) (release : Release) : Prop :=
  release ∈ w.listing.flatMap (entries catalog)

/-- The place takes the alias from the release. -/
def CoversAt (catalog : Catalog) (kind : Kind) (release : Release) (place : Place)
    (name : List Char) : Prop :=
  place ∈ places catalog kind release.component ∧ Covers kind release name

/-- Where the text of a version stands in the order. -/
def rankOf (version : List Char) : Version :=
  order (((stableVersion version false).getD none).getD (0, 0, 0))

def versions (catalog : Catalog) :
    ForwardNames.Versions (Kind × Release) (Place × List Char) Version where
  covers item tag := CoversAt catalog item.1 item.2 tag.1 tag.2
  version item := rank item.2

/-- The names are the tags that some release covers. -/
noncomputable def names (catalog : Catalog) (w : World) (tag : Place × List Char) :
    Option Version :=
  open Classical in
  if ∃ item : Kind × Release, CoversAt catalog item.1 item.2 tag.1 tag.2 then
    (w.tags tag.1 tag.2).map rankOf
  else none

noncomputable def view (catalog : Catalog) (w : World) :
    ForwardNames.State (Kind × Release) (Place × List Char) Version where
  listing := { item | Listed catalog w item.2 }
  names := names catalog w
  running := w.running.map fun run => ((run.kind, run.release), run.todo)
  done := w.done

theorem names_of_covers {kind : Kind} {release : Release} {place : Place} {name : List Char}
    (h : CoversAt catalog kind release place name) :
    names catalog w (place, name) = (w.tags place name).map rankOf :=
  if_pos ⟨(kind, release), h⟩

theorem rankOf_eq {kind : Kind} {release : Release} {name : List Char}
    (h : Covers kind release name) : rankOf release.version = rank release := by
  have ⟨version, hstable, _⟩ := h
  have hfalse : release.prerelease = false := by
    cases hprerelease : release.prerelease with
    | false => rfl
    | true =>
      rw [hprerelease, stableVersion, Bool.true_or, if_pos rfl] at hstable
      split at hstable <;> cases hstable
  rw [rank, hfalse, rankOf]

theorem place_kind {kind : Kind} {component : List Char} {place : Place}
    (h : place ∈ places catalog kind component) : place.kind = kind := by
  cases kind with
  | image =>
    rw [places] at h
    split at h
    · have ⟨repository, _, hplace⟩ := List.mem_map.mp h
      rw [← hplace]
      rfl
    · exact absurd h List.not_mem_nil
  | package =>
    have ⟨candidate, _, hplace⟩ := List.mem_map.mp h
    rw [← hplace]
    rfl

/-- A place belongs to one component. -/
theorem place_component {kind kind' : Kind} {component component' : List Char} {place : Place}
    (h : place ∈ places catalog kind component) (h' : place ∈ places catalog kind' component') :
    kind' = kind ∧ component' = component := by
  have hkind : kind' = kind := (place_kind h').symm.trans (place_kind h)
  apply And.intro hkind
  rw [hkind] at h'
  cases kind with
  | image =>
    rw [places] at h h'
    split at h
    · rename_i hcomponent
      split at h'
      · rename_i hcomponent'
        exact hcomponent'.trans hcomponent.symm
      · exact absurd h' List.not_mem_nil
    · exact absurd h List.not_mem_nil
  | package =>
    have ⟨candidate, hmem, hplace⟩ := List.mem_map.mp h
    have ⟨candidate', hmem', hplace'⟩ := List.mem_map.mp h'
    have hid := Place.package.inj (hplace'.trans hplace.symm)
    have hown := of_decide_eq_true (List.mem_filter.mp hmem).2
    have hown' := of_decide_eq_true (List.mem_filter.mp hmem').2
    rw [← hown.2, ← hown'.2, hid]

/-- The other tags of a run are no aliases. -/
theorem otherTag_not_covered {kind : Kind} {release : Release} {tag : List Char}
    (h : OtherTag kind release tag) (hmatches : versionMatches release.version = true)
    {place : Place} (hplace : place.kind = kind) :
    ¬∃ item : Kind × Release, CoversAt catalog item.1 item.2 place tag := by
  intro hcovered
  have ⟨item, hin, version, _, hname⟩ := hcovered
  have hkind : item.1 = kind := (place_kind hin).symm.trans hplace
  rw [hkind] at hname
  cases kind with
  | image =>
    cases h with
    | inl hcommit =>
      have ⟨source, htag⟩ := hcommit
      rw [htag] at hname
      exact (imageAlias_head hname).1 rfl
    | inr hother =>
      cases hother with
      | inl hversion =>
        rw [hversion] at hname
        exact not_imageAlias_of_versionMatches hmatches hname
      | inr hnightly => exact (imageAlias_head hname).2 hnightly
  | package =>
    have ⟨sha256, htag⟩ := h
    rw [htag] at hname
    exact packageAlias_head hname rfl

/-- The aliases that a run begins with are its own in the listing that it reads. -/
theorem owned_of_todo {kind : Kind} {release : Release} {history : List Release}
    {todo : List (Place × List Char)} (hhistory : releases catalog w.listing = some history)
    (h : aliasTodo catalog kind release history = some todo) :
    ForwardNames.Owned (versions catalog) (view catalog w).listing (kind, release) todo := by
  intro tag
  have ⟨place, name⟩ := tag
  have hlisted : ∀ other, Listed catalog w other ↔ other ∈ history := by
    intro other
    rw [Listed, ← releases_eq hhistory]
  have houtranked : place ∈ places catalog kind release.component →
      (ForwardNames.Outranked (versions catalog) (view catalog w).listing (kind, release)
        (place, name) ↔ ∃ other ∈ history, other.component = release.component ∧
          Covers kind other name ∧ rank release < rank other) := by
    intro hplace
    constructor
    · intro hout
      have ⟨other, hother, hcovers, hlt⟩ := hout
      have ⟨hkind, hcomponent⟩ := place_component hplace hcovers.1
      exact ⟨other.2, (hlisted other.2).mp hother, hcomponent, hkind ▸ hcovers.2, hlt⟩
    · intro hout
      have ⟨other, hother, hcomponent, hcovers, hlt⟩ := hout
      exact ⟨(kind, other), (hlisted other).mpr hother, ⟨hcomponent.symm ▸ hplace, hcovers⟩, hlt⟩
  rw [aliasTodo] at h
  split at h
  · rename_i hempty
    cases h
    apply iff_of_false List.not_mem_nil
    intro hboth
    have hplace : place ∈ places catalog kind release.component := hboth.1.1
    rw [hempty] at hplace
    exact absurd hplace List.not_mem_nil
  · have ⟨own, hown, htodo⟩ := Option.map_eq_some_iff.mp h
    have hmem : (place, name) ∈ todo ↔
        place ∈ places catalog kind release.component ∧ name ∈ own := by
      rw [← htodo, List.mem_flatMap]
      constructor
      · intro hpair
        have ⟨other, hplace, hin⟩ := hpair
        have ⟨own', hname, heq⟩ := List.mem_map.mp hin
        rw [← (Prod.mk.inj heq).1, ← (Prod.mk.inj heq).2]
        exact ⟨hplace, hname⟩
      · exact fun hboth => ⟨place, hboth.1, List.mem_map.mpr ⟨name, hboth.2, rfl⟩⟩
    rw [hmem, mem_currentAliases hown]
    constructor
    · intro hboth
      exact ⟨⟨hboth.1, hboth.2.1⟩, fun hout => hboth.2.2 ((houtranked hboth.1).mp hout)⟩
    · intro hboth
      exact ⟨hboth.1.1, hboth.1.2, fun hout => hboth.2 ((houtranked hboth.1.1).mpr hout)⟩

/-- What is kept: the names move forward, and an alias has the version of a release that covers
it. -/
structure Kept (catalog : Catalog) (w : World) : Prop where
  forward : ForwardNames.Invariant (versions catalog) (view catalog w)
  sound : ∀ kind release place name value, CoversAt catalog kind release place name →
    w.tags place name = some value → ∃ other, Listed catalog w other ∧
      CoversAt catalog kind other place name ∧ other.version = value

theorem kept_fresh (listing : List ApiRelease) : Kept catalog (World.fresh listing) := by
  constructor
  · apply ForwardNames.invariant_of_fresh
    · intro name
      show names catalog (World.fresh listing) name = none
      rw [names]
      split <;> rfl
    · rfl
    · rfl
  · intro kind release place name value _ htag
    cases htag

theorem replaceAlias_value {kind : Kind} {release : Release} {name value : List Char}
    {previous : Option (List Char)}
    (h : replaceAlias kind release name previous = some (some value)) :
    value = release.version := by
  have hguard : ∀ matched : Bool, (if matched = true then some (some release.version) else none) =
      some (some value) → value = release.version := by
    intro matched heq
    split at heq
    · cases heq
      rfl
    · cases heq
  cases kind with
  | image => exact hguard _ h
  | package =>
    cases previous with
    | none => exact hguard _ h
    | some previous =>
      have ⟨before, _, hrest⟩ := Option.bind_eq_some_iff.mp h
      have ⟨own, _, hreplaced⟩ := Option.bind_eq_some_iff.mp hrest
      split at hreplaced
      · cases hreplaced
      · exact hguard _ hreplaced

/-- An alias is left as it is where it has a later version. -/
theorem replaceAlias_skip {kind : Kind} {release : Release} {name : List Char}
    {previous : Option (List Char)} (h : replaceAlias kind release name previous = some none) :
    ∃ text, previous = some text ∧ rank release < rankOf text := by
  have hguard : ∀ matched : Bool, (if matched = true then some (some release.version) else none) ≠
      some none := by
    intro matched heq
    split at heq <;> cases heq
  cases kind with
  | image => exact absurd h (hguard _)
  | package =>
    cases previous with
    | none => exact absurd h (hguard _)
    | some previous =>
      have ⟨before, hbefore, hrest⟩ := Option.bind_eq_some_iff.mp h
      have ⟨own, hown, hskip⟩ := Option.bind_eq_some_iff.mp hrest
      split at hskip
      · rename_i hlater
        have ⟨earlier, hearlier, hthen⟩ := (Option.any_eq_true _ _).mp hlater
        have ⟨release', hrelease, hlt⟩ := (Option.any_eq_true _ _).mp hthen
        apply Exists.intro previous
        rw [rank, rankOf, hbefore, hown, hearlier, hrelease]
        exact ⟨rfl, of_decide_eq_true hlt⟩
      · exact absurd hskip (hguard _)

theorem names_setTag_self {kind : Kind} {release : Release} {place : Place} {name : List Char}
    (h : CoversAt catalog kind release place name) (value : List Char) :
    names catalog { w with tags := setTag w.tags place name value } (place, name) =
      some (rankOf value) := by
  rw [names_of_covers h]
  show Option.map rankOf (setTag w.tags place name value place name) = _
  rw [setTag, if_pos ⟨rfl, rfl⟩]
  rfl

theorem names_setTag_of_ne {place : Place} {name value : List Char} {other : Place × List Char}
    (h : other ≠ (place, name)) :
    names catalog { w with tags := setTag w.tags place name value } other =
      names catalog w other := by
  have htag : setTag w.tags place name value other.1 other.2 = w.tags other.1 other.2 :=
    if_neg fun heq => h (Prod.ext heq.1 heq.2)
  by_cases hcovered : ∃ item : Kind × Release, CoversAt catalog item.1 item.2 other.1 other.2
  · rw [names, names, if_pos hcovered, if_pos hcovered]
    show Option.map rankOf (setTag w.tags place name value other.1 other.2) = _
    rw [htag]
  · rw [names, names, if_neg hcovered, if_neg hcovered]

theorem names_setTag_of_not_covered {place : Place} {name value : List Char}
    (h : ¬∃ item : Kind × Release, CoversAt catalog item.1 item.2 place name) :
    names catalog { w with tags := setTag w.tags place name value } = names catalog w := by
  funext other
  by_cases heq : other = (place, name)
  · rw [heq, names, names, if_neg h, if_neg h]
  · exact names_setTag_of_ne heq

/-- The release of a run is listed, and its run has still to replace aliases that it covers. -/
theorem Kept.running {run : Run} (hkept : Kept catalog w) (hrunning : w.running = some run) :
    Listed catalog w run.release ∧ ∀ tag ∈ run.todo,
      CoversAt catalog run.kind run.release tag.1 tag.2 := by
  have hview : (view catalog w).running = some ((run.kind, run.release), run.todo) := by
    show Option.map _ w.running = _
    rw [hrunning]
    rfl
  have ⟨hlisted, htodo⟩ := hkept.forward.ahead _ _ hview
  exact ⟨hlisted, fun tag hmem => (htodo tag hmem).1⟩

theorem listed_matches {release : Release} (h : Listed catalog w release) :
    versionMatches release.version = true := by
  have ⟨raw, _, hentry⟩ := List.mem_flatMap.mp h
  exact entries_matches hentry

theorem Step.listed {release : Release} (h : Step catalog w w')
    (hlisted : Listed catalog w release) : Listed catalog w' release := by
  cases h with
  | grow listing hgrow =>
    have ⟨raw, hraw, hentry⟩ := List.mem_flatMap.mp hlisted
    exact List.mem_flatMap.mpr ⟨raw, hgrow raw hraw (entries_draft hentry), hentry⟩
  | start kind release history todo tagCommit source releaseId hidle hhistory hselected htodo =>
    exact hlisted
  | write run place tag value hrunning hplace htag => exact hlisted
  | replace run place name value todo hrunning htodo hvalue => exact hlisted
  | skip run place name todo hrunning htodo hskip => exact hlisted
  | stop => exact hlisted
  | finish run hrunning htodo => exact hlisted

/-- Each step is one of names that move forward, or leaves the names as they are. -/
theorem Step.simulates (h : Step catalog w w') (hkept : Kept catalog w) :
    ForwardNames.Step (versions catalog) (view catalog w) (view catalog w') ∨
      view catalog w' = view catalog w := by
  have hrun : ∀ {run : Run}, w.running = some run →
      (view catalog w).running = some ((run.kind, run.release), run.todo) := by
    intro run hrunning
    show Option.map _ w.running = _
    rw [hrunning]
    rfl
  have hgrown : ∀ release, Listed catalog w release → Listed catalog w' release :=
    fun release hlisted => h.listed hlisted
  cases h with
  | grow listing hgrow =>
    exact Or.inl (ForwardNames.Step.grow (view catalog w) _ fun item hitem => hgrown item.2 hitem)
  | start kind release history todo tagCommit source releaseId hidle hhistory hselected htodo =>
    have hlisted : Listed catalog w release := by
      rw [Listed, ← releases_eq hhistory]
      exact selectedReleases_subset hselected (List.mem_singleton_self release)
    have hnone : (view catalog w).running = none := by
      show Option.map _ w.running = _
      rw [hidle]
      rfl
    exact Or.inl (ForwardNames.Step.start (view catalog w) (kind, release) todo hnone hlisted
      (owned_of_todo hhistory htodo))
  | write run place tag value hrunning hplace htag =>
    have hmatches := listed_matches (hkept.running hrunning).1
    have hnames : names catalog { w with tags := setTag w.tags place tag value } =
        names catalog w :=
      names_setTag_of_not_covered (otherTag_not_covered htag hmatches hplace)
    apply Or.inr
    rw [view, hnames]
    rfl
  | replace run place name value todo hrunning htodo hvalue =>
    have hcovers := (hkept.running hrunning).2 (place, name) (htodo ▸ List.mem_cons_self)
    have hversion := replaceAlias_value hvalue
    have hname : names catalog { w with tags := setTag w.tags place name value } (place, name) =
        some (rank run.release) := by
      rw [names_setTag_self hcovers, hversion, rankOf_eq hcovers.2]
    exact Or.inl (ForwardNames.Step.point (view catalog w) (run.kind, run.release) (place, name)
      todo (names catalog { w with tags := setTag w.tags place name value })
      (htodo ▸ hrun hrunning) hname fun other hne => names_setTag_of_ne hne)
  | skip run place name todo hrunning htodo hskip =>
    have hcovers := (hkept.running hrunning).2 (place, name) (htodo ▸ List.mem_cons_self)
    have ⟨text, htag, hlt⟩ := replaceAlias_skip hskip
    have hname : names catalog w (place, name) = some (rankOf text) := by
      rw [names_of_covers hcovers, htag]
      rfl
    exact Or.inl (ForwardNames.Step.pass (view catalog w) (run.kind, run.release) (place, name)
      todo (rankOf text) (htodo ▸ hrun hrunning) hname hlt)
  | stop => exact Or.inl (ForwardNames.Step.stop (view catalog w))
  | finish run hrunning htodo =>
    exact Or.inl (ForwardNames.Step.finish (view catalog w) (run.kind, run.release)
      (htodo ▸ hrun hrunning))

theorem Kept.sound_step (hkept : Kept catalog w) (h : Step catalog w w') {kind : Kind}
    {release : Release} {place : Place} {name value : List Char}
    (hcovers : CoversAt catalog kind release place name) (htag : w'.tags place name = some value) :
    ∃ other, Listed catalog w' other ∧ CoversAt catalog kind other place name ∧
      other.version = value := by
  have hold : w.tags place name = some value → ∃ other, Listed catalog w' other ∧
      CoversAt catalog kind other place name ∧ other.version = value := by
    intro hbefore
    have ⟨other, hlisted, hother⟩ := hkept.sound kind release place name value hcovers hbefore
    exact ⟨other, h.listed hlisted, hother⟩
  cases h with
  | grow listing hgrow => exact hold htag
  | start kind release history todo tagCommit source releaseId hidle hhistory hselected htodo =>
    exact hold htag
  | write run written tag text hrunning hplace hother =>
    have hmatches := listed_matches (hkept.running hrunning).1
    have hnot : ¬(place = written ∧ name = tag) := by
      intro heq
      apply otherTag_not_covered hother hmatches hplace
      exact ⟨(kind, release), heq.1 ▸ heq.2 ▸ hcovers⟩
    have hsame : setTag w.tags written tag text place name = w.tags place name := if_neg hnot
    exact hold (hsame ▸ htag)
  | replace run written pointed text todo hrunning htodo hvalue =>
    by_cases heq : place = written ∧ name = pointed
    · have ⟨hlisted, hall⟩ := hkept.running hrunning
      have hown := hall (written, pointed) (htodo ▸ List.mem_cons_self)
      have hset : setTag w.tags written pointed text place name = some text := if_pos heq
      have hkind := (place_component hcovers.1 (heq.1 ▸ hown.1)).1
      apply Exists.intro run.release
      apply And.intro hlisted
      constructor
      · rw [heq.1, heq.2, ← hkind]
        exact hown
      · rw [← replaceAlias_value hvalue]
        exact Option.some.inj (hset.symm.trans htag)
    · have hsame : setTag w.tags written pointed text place name = w.tags place name := if_neg heq
      exact hold (hsame ▸ htag)
  | skip run written pointed todo hrunning htodo hskip => exact hold htag
  | stop => exact hold htag
  | finish run hrunning htodo => exact hold htag

theorem Kept.step (hkept : Kept catalog w) (h : Step catalog w w') : Kept catalog w' := by
  constructor
  · cases h.simulates hkept with
    | inl hstep => exact hkept.forward.step hstep
    | inr hsame => exact hsame ▸ hkept.forward
  · exact fun kind release place name value hcovers htag => hkept.sound_step h hcovers htag

theorem kept_of_reachable {listing : List ApiRelease}
    (h : ReflTransGen (Step catalog) (World.fresh listing) w) : Kept catalog w := by
  induction h with
  | refl => exact kept_fresh listing
  | tail _ hstep ih => exact ih.step hstep

/-! ## The runs -/

/-- An alias that has a version has one that is no lower after a step. -/
theorem Kept.forward_step (hkept : Kept catalog w) (h : Step catalog w w') {kind : Kind}
    {release : Release} {place : Place} {name value : List Char}
    (hcovers : CoversAt catalog kind release place name) (htag : w.tags place name = some value) :
    ∃ value', w'.tags place name = some value' ∧ rankOf value ≤ rankOf value' := by
  have hname : (view catalog w).names (place, name) = some (rankOf value) := by
    show names catalog w (place, name) = _
    rw [names_of_covers hcovers, htag]
    rfl
  have hlater : ∃ later, (view catalog w').names (place, name) = some later ∧
      rankOf value ≤ later := by
    cases h.simulates hkept with
    | inl hstep => exact hstep.forward hkept.forward hname
    | inr hsame => exact ⟨rankOf value, hsame ▸ hname, le_rfl⟩
  have ⟨later, hlater, hle⟩ := hlater
  have htags : (w'.tags place name).map rankOf = some later :=
    (names_of_covers hcovers).symm.trans hlater
  have ⟨value', htag', hrank⟩ := Option.map_eq_some_iff.mp htags
  exact ⟨value', htag', hrank ▸ hle⟩

theorem Kept.forward_run (hkept : Kept catalog w) (h : ReflTransGen (Step catalog) w w')
    {kind : Kind} {release : Release} {place : Place} {name value : List Char}
    (hcovers : CoversAt catalog kind release place name) (htag : w.tags place name = some value) :
    Kept catalog w' ∧ ∃ value', w'.tags place name = some value' ∧
      rankOf value ≤ rankOf value' := by
  induction h with
  | refl => exact ⟨hkept, value, htag, le_rfl⟩
  | tail _ hstep ih =>
    have ⟨hbefore, value', htag', hle⟩ := ih
    have ⟨value'', htag'', hle'⟩ := hbefore.forward_step hstep hcovers htag'
    exact ⟨hbefore.step hstep, value'', htag'', hle.trans hle'⟩

/-- Where all stable releases are done, an alias has the highest version that it covers. -/
theorem Kept.highest (hkept : Kept catalog w) {kind : Kind}
    (hdone : ∀ release, Listed catalog w release →
      (∃ place name, CoversAt catalog kind release place name) → (kind, release) ∈ w.done)
    {release : Release} (hlisted : Listed catalog w release) {place : Place} {name : List Char}
    (hcovers : CoversAt catalog kind release place name) :
    ∃ top, Listed catalog w top ∧ CoversAt catalog kind top place name ∧
      w.tags place name = some top.version ∧ ∀ other, Listed catalog w other →
        CoversAt catalog kind other place name → rank other ≤ rank top := by
  have hfinite : { other | other ∈ w.listing.flatMap (entries catalog) ∧
      CoversAt catalog kind other place name }.Finite :=
    (List.finite_toSet _).subset fun other hother => hother.1
  have ⟨highest, hhighest, htop⟩ := Set.exists_max_image _ rank hfinite ⟨release, hlisted, hcovers⟩
  have hhighest' : ((kind, highest) : Kind × Release) ∈ (view catalog w).done :=
    hdone highest hhighest.1 ⟨place, name, hhighest.2⟩
  have hothers : ∀ other ∈ (view catalog w).listing, (versions catalog).covers other (place, name) →
      (versions catalog).version other ≤ (versions catalog).version (kind, highest) := by
    intro other hother hcovers'
    have hkind : other.1 = kind := (place_component hcovers.1 hcovers'.1).1
    exact htop other.2 ⟨hother, hkind ▸ hcovers'.1, hkind ▸ hcovers'.2⟩
  have hname : (view catalog w).names (place, name) = some (rank highest) :=
    hkept.forward.highest hhighest' hhighest.2 hothers
  have htags : (w.tags place name).map rankOf = some (rank highest) :=
    (names_of_covers hcovers).symm.trans hname
  have ⟨value, htag, hrank⟩ := Option.map_eq_some_iff.mp htags
  have ⟨top, hlisted', hcovers', hversion⟩ := hkept.sound kind release place name value hcovers htag
  have hsame : rank top = rank highest := by
    rw [← rankOf_eq hcovers'.2, hversion, hrank]
  exact ⟨top, hlisted', hcovers', hversion ▸ htag, fun other hother hcovering =>
    hsame ▸ htop other ⟨hother, hcovering⟩⟩

/-- The aliases of a component never move to a lower version, and have no other versions than the
stable ones of releases that are listed and cover them.  Where there has been a run to its end for
each of these, every alias has the highest version that it covers. -/
theorem aliases_move_forward (catalog : Catalog) (listing : List ApiRelease) (w : World)
    (h : ReflTransGen (Step catalog) (World.fresh listing) w) :
    (∀ w', ReflTransGen (Step catalog) w w' → ∀ kind release place name value,
        CoversAt catalog kind release place name → w.tags place name = some value →
        ∃ value', w'.tags place name = some value' ∧ rankOf value ≤ rankOf value') ∧
      (∀ kind release place name value, CoversAt catalog kind release place name →
        w.tags place name = some value → ∃ other, Listed catalog w other ∧
          CoversAt catalog kind other place name ∧ other.version = value) ∧
      ∀ kind, (∀ release, Listed catalog w release →
          (∃ place name, CoversAt catalog kind release place name) → (kind, release) ∈ w.done) →
        ∀ release, Listed catalog w release → ∀ place name,
          CoversAt catalog kind release place name →
          ∃ top, Listed catalog w top ∧ CoversAt catalog kind top place name ∧
            w.tags place name = some top.version ∧ ∀ other, Listed catalog w other →
              CoversAt catalog kind other place name → rank other ≤ rank top := by
  have hkept := kept_of_reachable h
  constructor
  · exact fun w' hrun kind release place name value hcovers htag =>
      (hkept.forward_run hrun hcovers htag).2
  · constructor
    · exact hkept.sound
    · exact fun kind hdone release hlisted place name hcovers =>
        hkept.highest hdone hlisted hcovers

/-- A catalog of one image, and its first release. -/
def oneImage : Catalog := ⟨[⟨"platform".toList, "v".toList, false⟩], ["wallow".toList]⟩

def firstListed : ApiRelease := ⟨7, false, "v1.2.0".toList, "main".toList, false⟩

def firstRelease : Release :=
  ⟨7, "platform".toList, "1.2.0".toList, "v1.2.0".toList, "main".toList, false⟩

/-- In the middle of the run for it. -/
def inRun (tags : Place → List Char → Option (List Char)) (todo : List (Place × List Char)) :
    World :=
  ⟨[firstListed], tags, some ⟨.image, firstRelease, todo⟩, ∅⟩

theorem step_inRun (tags : Place → List Char → Option (List Char)) (place : Place)
    (name : List Char) (todo : List (Place × List Char)) (h : aliasMatches .image name = true) :
    Step oneImage (inRun tags ((place, name) :: todo))
      (inRun (setTag tags place name "1.2.0".toList) todo) :=
  .replace (inRun tags ((place, name) :: todo)) ⟨.image, firstRelease, (place, name) :: todo⟩
    place name "1.2.0".toList todo rfl rfl (if_pos h)

theorem aliases_move_forward_of_one_release : ∃ w,
    ReflTransGen (Step oneImage) (World.fresh [firstListed]) w ∧
      ∃ top, Listed oneImage w top ∧
        w.tags (.image "wallow".toList) "latest".toList = some top.version := by
  have hstart : Step oneImage (World.fresh [firstListed]) (inRun (fun _ _ => none)
      [(.image "wallow".toList, "latest".toList), (.image "wallow".toList, "1".toList),
        (.image "wallow".toList, "1.2".toList)]) :=
    .start (World.fresh [firstListed]) .image firstRelease [firstRelease] _
      (fun _ => some "main".toList) "main".toList 7 rfl (by decide) (by decide) (by decide)
  have hlatest := step_inRun (fun _ _ => none) (.image "wallow".toList) "latest".toList
    [(.image "wallow".toList, "1".toList), (.image "wallow".toList, "1.2".toList)] (by decide)
  let tagged := setTag (fun _ _ => none) (.image "wallow".toList) "latest".toList "1.2.0".toList
  have hmajor := step_inRun tagged (.image "wallow".toList) "1".toList
    [(.image "wallow".toList, "1.2".toList)] (by decide)
  let tagged' := setTag tagged (.image "wallow".toList) "1".toList "1.2.0".toList
  have hminor := step_inRun tagged' (.image "wallow".toList) "1.2".toList [] (by decide)
  have hreach := (((ReflTransGen.single hstart).tail hlatest).tail hmajor).tail hminor |>.tail
    (Step.finish _ ⟨.image, firstRelease, []⟩ rfl rfl)
  have hall : [firstListed].flatMap (entries oneImage) = [firstRelease] := by decide
  have hlisted : ∀ release, release ∈ [firstListed].flatMap (entries oneImage) →
      release = firstRelease := fun release hmem => List.mem_singleton.mp (hall ▸ hmem)
  have hmem : firstRelease ∈ [firstListed].flatMap (entries oneImage) := by decide
  have hcovers : CoversAt oneImage .image firstRelease (.image "wallow".toList)
      "latest".toList := ⟨by decide, (1, 2, 0), by decide, by decide⟩
  have ⟨top, htop, _, htag, _⟩ := (aliases_move_forward oneImage [firstListed] _ hreach).2.2 .image
    (fun release hmem _ => Or.inl (by rw [hlisted release hmem])) firstRelease
    hmem _ _ hcovers
  exact ⟨_, hreach, top, htop, htag⟩

end Wallow.Publication
