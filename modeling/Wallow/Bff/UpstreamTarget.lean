import Wallow.Bff.ReturnUrls
import Wallow.Lib.WebUrlPaths

/-!
# Where the proxy sends a request

`strippedApiPath` and `upstreamTarget` of `proxy.ts`: the path of a request without its `/api`
segment, joined onto the API's base URL, to which the session's token is then attached.
-/

namespace Wallow.Bff

open WebUrl SplitText

def API_PREFIX : List Char := "/api".toList
def ROOT_PATH : List Char := "/".toList
def PARENT_SEGMENT : List Char := "..".toList

/-- `replaceAll(/\/{2,}/gu, "/")`. -/
def collapseSlashes : List Char → List Char
  | '/' :: '/' :: rest => collapseSlashes ('/' :: rest)
  | c :: rest => c :: collapseSlashes rest
  | [] => []

def strippedApiPath (pathname : List Char) : Option (List Char) :=
  if pathname ≠ API_PREFIX ∧ ¬API_PREFIX ++ ROOT_PATH <+: pathname then none
  else
    let stripped := collapseSlashes (pathname.drop API_PREFIX.length)
    if stripped = [] then some ROOT_PATH
    else if PARENT_SEGMENT ∈ split '/' stripped then none
    else some stripped

/-- `replace(/\/$/u, "")`. -/
def dropTrailingSlash (text : List Char) : List Char :=
  if text.getLast? = some '/' then text.dropLast else text

/-- The answer, `some none` for its `null`; `none` where `new URL` throws. -/
def upstreamTarget (hosts : HostParser) (apiBaseUrl path search : List Char) :
    Option (Option (List Char)) :=
  (parse hosts apiBaseUrl none).bind fun base =>
    let basePath := dropTrailingSlash base.pathname
    (parse hosts (base.originText ++ basePath ++ path ++ search) none).map fun target =>
      if target.originText ≠ base.originText ∨ ¬basePath <+: target.pathname then none
      else some target.href

/-- What `proxyRequest` makes of a URL: `some none` is its 404. -/
def proxyTarget (hosts : HostParser) (apiBaseUrl pathname search : List Char) :
    Option (Option (List Char)) :=
  match strippedApiPath pathname with
  | none => some none
  | some path => upstreamTarget hosts apiBaseUrl path search

/-! ## Segments -/

/-- The text of a path. -/
def pathText (segments : List (List Char)) : List Char := segments.flatMap ('/' :: ·)

/-- The segments without the empty ones in between; the last one may be empty. -/
def collapsedSegments : List (List Char) → List (List Char)
  | [] => [[]]
  | [last] => [last]
  | segment :: rest =>
    if segment = [] then collapsedSegments rest else segment :: collapsedSegments rest

/-- The segments of a base path, a trailing slash left out. -/
def baseSegments (path : List (List Char)) : List (List Char) :=
  if path.getLast? = some [] then path.dropLast else path

theorem pathText_cons (segment : List Char) (rest : List (List Char)) :
    pathText (segment :: rest) = '/' :: (segment ++ pathText rest) := rfl

theorem pathText_append (xs ys : List (List Char)) :
    pathText (xs ++ ys) = pathText xs ++ pathText ys := List.flatMap_append

theorem collapseSlashes_cons {c : Char} (hc : c ≠ '/') (rest : List Char) :
    collapseSlashes (c :: rest) = c :: collapseSlashes rest := by
  rw [collapseSlashes]
  intro rest' heq
  exact absurd heq hc

theorem collapseSlashes_append {chunk : List Char} (h : '/' ∉ chunk) (rest : List Char) :
    collapseSlashes (chunk ++ rest) = chunk ++ collapseSlashes rest := by
  induction chunk with
  | nil => rfl
  | cons c chunk ih =>
    rw [List.mem_cons, not_or] at h
    rw [List.cons_append, collapseSlashes_cons (Ne.symm h.1), ih h.2, List.cons_append]

/-- A slash that no other follows stays. -/
theorem collapseSlashes_slash {text : List Char} (h : text.head? ≠ some '/') :
    collapseSlashes ('/' :: text) = '/' :: collapseSlashes text := by
  rw [collapseSlashes]
  rintro rest - rfl
  exact h rfl

/-- Collapsing the slashes of a path leaves its empty segments out. -/
theorem collapseSlashes_pathText {segments : List (List Char)} (hne : segments ≠ [])
    (h : ∀ s ∈ segments, '/' ∉ s) :
    collapseSlashes (pathText segments) = pathText (collapsedSegments segments) := by
  have hsegment : ∀ {segment rest : List Char}, '/' ∉ segment → segment ≠ [] →
      collapseSlashes ('/' :: (segment ++ rest)) = '/' :: (segment ++ collapseSlashes rest) := by
    intro segment rest hslash hsegment
    obtain ⟨c, others, rfl⟩ := List.exists_cons_of_ne_nil hsegment
    have hhead : (c :: others ++ rest).head? ≠ some '/' := by
      intro heq
      exact hslash ((Option.some.inj heq) ▸ List.mem_cons_self)
    rw [collapseSlashes_slash hhead, collapseSlashes_append hslash]
  induction segments using collapsedSegments.induct with
  | case1 => exact absurd rfl hne
  | case2 last =>
    rw [collapsedSegments, pathText_cons]
    by_cases hlast : last = []
    · rw [hlast]
      rfl
    · rw [hsegment (h last List.mem_cons_self) hlast]
      rfl
  | case3 rest hrest ih =>
    obtain ⟨next, others, rfl⟩ := List.exists_cons_of_ne_nil (fun hnil => hrest hnil)
    have hcollapsed : collapsedSegments ([] :: next :: others) =
        collapsedSegments (next :: others) := by
      rw [collapsedSegments, if_pos rfl]
      exact hrest
    rw [hcollapsed]
    exact ih (List.cons_ne_nil _ _) fun s hs => h s (List.mem_cons_of_mem _ hs)
  | case4 segment rest hrest hfull ih =>
    rw [collapsedSegments, if_neg hfull, pathText_cons, pathText_cons,
      hsegment (h segment List.mem_cons_self) hfull,
      ih (fun hnil => hrest hnil) fun s hs => h s (List.mem_cons_of_mem _ hs)]
    exact hrest

theorem dropTrailingSlash_pathText {path : List (List Char)} (h : CleanPath path) :
    dropTrailingSlash (pathText path) = pathText (baseSegments path) := by
  obtain ⟨init, last, rfl⟩ : ∃ init last, path = init ++ [last] :=
    ⟨path.dropLast, path.getLast h.ne_nil, (List.dropLast_append_getLast h.ne_nil).symm⟩
  have hsegments : baseSegments (init ++ [last]) =
      if last = [] then init else init ++ [last] := by
    unfold baseSegments
    rw [List.getLast?_concat, List.dropLast_concat]
    simp only [Option.some.injEq]
  have htext : pathText (init ++ [last]) = pathText init ++ '/' :: last := by
    rw [pathText_append, pathText_cons]
    exact congrArg _ (congrArg _ (List.append_nil last))
  rw [hsegments, htext]
  unfold dropTrailingSlash
  by_cases hlast : last = []
  · rw [hlast, if_pos rfl, List.getLast?_concat, if_pos rfl, List.dropLast_concat]
  · obtain ⟨front, c, rfl⟩ : ∃ front c, last = front ++ [c] :=
      ⟨last.dropLast, last.getLast hlast, (List.dropLast_append_getLast hlast).symm⟩
    have hclean := h.segments (front ++ [c]) (List.mem_append_right _ List.mem_cons_self)
    have hc : c ≠ '/' := fun heq =>
      hclean.slash_not_mem (heq ▸ List.mem_append_right _ List.mem_cons_self)
    have hend : (pathText init ++ '/' :: (front ++ [c])).getLast? = some c := by
      rw [← List.cons_append, ← List.append_assoc, List.getLast?_concat]
    rw [if_neg hlast, hend, if_neg fun heq => hc (Option.some.inj heq), htext]

theorem split_pathText {segments : List (List Char)} (h : ∀ s ∈ segments, '/' ∉ s) :
    split '/' (pathText segments) = [] :: segments := by
  have hfrom : ∀ {first : List Char}, '/' ∉ first →
      split '/' (first ++ pathText segments) = first :: segments := by
    induction segments with
    | nil =>
      intro first hfirst
      rw [show pathText [] = [] from rfl, List.append_nil, split_of_not_mem hfirst]
    | cons next others ih =>
      intro first hfirst
      rw [pathText_cons, split_append, split_of_not_mem hfirst,
        ih (fun s hs => h s (List.mem_cons_of_mem _ hs)) (h next List.mem_cons_self)]
      rfl
  exact hfrom List.not_mem_nil

theorem collapsedSegments_ne_nil (segments : List (List Char)) :
    collapsedSegments segments ≠ [] := by
  induction segments using collapsedSegments.induct with
  | case1 => exact List.cons_ne_nil _ _
  | case2 last => exact List.cons_ne_nil _ _
  | case3 rest hrest ih =>
    rw [collapsedSegments, if_pos rfl]
    · exact ih
    · exact hrest
  | case4 segment rest hrest hfull ih =>
    rw [collapsedSegments, if_neg hfull]
    · exact List.cons_ne_nil _ _
    · exact hrest

theorem mem_collapsedSegments {segments : List (List Char)} :
    ∀ s ∈ collapsedSegments segments, s = [] ∨ s ∈ segments := by
  induction segments using collapsedSegments.induct with
  | case1 =>
    intro s hs
    exact .inl (List.mem_singleton.mp hs)
  | case2 last => exact fun s hs => .inr hs
  | case3 rest hrest ih =>
    intro s hs
    rw [collapsedSegments, if_pos rfl] at hs
    · exact (ih s hs).imp_right (List.mem_cons_of_mem _)
    · exact hrest
  | case4 segment rest hrest hfull ih =>
    intro s hs
    rw [collapsedSegments, if_neg hfull] at hs
    · rcases List.mem_cons.mp hs with rfl | hlater
      · exact .inr List.mem_cons_self
      · exact (ih s hlater).imp_right (List.mem_cons_of_mem _)
    · exact hrest

/-! ## What is served -/

/-- A request whose first segment is not `api`. -/
theorem strippedApiPath_of_foreign {path : List (List Char)} (h : CleanPath path)
    (hapi : path.head? ≠ some "api".toList) : strippedApiPath (pathText path) = none := by
  obtain ⟨first, rest, rfl⟩ := List.exists_cons_of_ne_nil h.ne_nil
  have hfirst : '/' ∉ first := (h.segments first List.mem_cons_self).slash_not_mem
  have hne : first ≠ "api".toList := fun heq => hapi (congrArg some heq)
  have hprefix : ∀ after, pathText (first :: rest) ≠ API_PREFIX ++ '/' :: after := by
    intro after heq
    have htail : first ++ pathText rest = "api".toList ++ '/' :: after :=
      (List.cons.inj heq).2
    cases rest with
    | nil =>
      rw [show pathText [] = [] from rfl, List.append_nil] at htail
      exact hfirst (htail ▸ List.mem_append_right _ List.mem_cons_self)
    | cons next others =>
      rw [pathText_cons] at htail
      exact hne (append_sep_inj hfirst (by decide) htail).1
  have hexact : pathText (first :: rest) ≠ API_PREFIX := by
    intro heq
    have htail : first ++ pathText rest = "api".toList := (List.cons.inj heq).2
    cases rest with
    | nil =>
      rw [show pathText [] = [] from rfl, List.append_nil] at htail
      exact hne htail
    | cons next others =>
      have hslash : '/' ∈ "api".toList := by
        rw [← htail, pathText_cons]
        exact List.mem_append_right _ List.mem_cons_self
      exact absurd hslash (by decide)
  unfold strippedApiPath
  refine if_pos ⟨hexact, ?_⟩
  rintro ⟨after, heq⟩
  refine hprefix after ?_
  rw [← heq, List.append_assoc]
  rfl

/-- A request whose first segment is `api`. -/
theorem strippedApiPath_of_api {rest : List (List Char)}
    (h : CleanPath ("api".toList :: rest)) :
    strippedApiPath (pathText ("api".toList :: rest)) =
      some (pathText (collapsedSegments rest)) := by
  have hslash : ∀ s ∈ rest, '/' ∉ s := fun s hs =>
    (h.segments s (List.mem_cons_of_mem _ hs)).slash_not_mem
  cases rest with
  | nil => rfl
  | cons next others =>
    have htext : pathText ("api".toList :: next :: others) =
        API_PREFIX ++ pathText (next :: others) := rfl
    have hserved : ¬(pathText ("api".toList :: next :: others) ≠ API_PREFIX ∧
        ¬API_PREFIX ++ ROOT_PATH <+: pathText ("api".toList :: next :: others)) := by
      rintro ⟨-, hprefix⟩
      exact hprefix ⟨next ++ pathText others, rfl⟩
    have hcollapsed : ∀ s ∈ collapsedSegments (next :: others), '/' ∉ s := by
      intro s hs
      rcases mem_collapsedSegments s hs with rfl | hmem
      · exact List.not_mem_nil
      · exact hslash s hmem
    have hparent : PARENT_SEGMENT ∉ split '/' (pathText (collapsedSegments (next :: others))) := by
      rw [split_pathText hcollapsed, List.mem_cons, not_or]
      refine ⟨by decide, fun hmem => ?_⟩
      rcases mem_collapsedSegments _ hmem with hnil | hsegment
      · exact absurd hnil (by decide)
      · have hdots := (h.segments PARENT_SEGMENT (List.mem_cons_of_mem _ hsegment)).doubleDot
        exact absurd hdots (by decide)
    have hne : pathText (collapsedSegments (next :: others)) ≠ [] := by
      obtain ⟨s, more, hs⟩ := List.exists_cons_of_ne_nil
        (collapsedSegments_ne_nil (next :: others))
      rw [hs]
      exact List.cons_ne_nil _ _
    unfold strippedApiPath
    rw [if_neg hserved, htext, List.drop_left]
    dsimp only
    rw [collapseSlashes_pathText (List.cons_ne_nil _ _) hslash, if_neg hne, if_neg hparent]

/-! ## Where it goes -/

theorem baseSegments_subset (path : List (List Char)) : ∀ s ∈ baseSegments path, s ∈ path := by
  intro s hs
  unfold baseSegments at hs
  split at hs
  · exact List.mem_of_mem_dropLast hs
  · exact hs

/-- The base path and the collapsed one together are clean. -/
theorem cleanPath_joined {base path : List (List Char)} (hbase : CleanPath base)
    (hpath : ∀ s ∈ path, CleanSegment s) :
    CleanPath (baseSegments base ++ collapsedSegments path) where
  ne_nil := List.append_ne_nil_of_right_ne_nil _ (collapsedSegments_ne_nil path)
  segments := by
    intro s hs
    rcases List.mem_append.mp hs with hfront | hlater
    · exact hbase.segments s (baseSegments_subset base s hfront)
    · rcases mem_collapsedSegments s hlater with rfl | hmem
      · exact cleanSegment_nil
      · exact hpath s hmem

/-- The query of a URL is one the joined text can end with. -/
theorem search_endsPath (url : Url) : EndsPath url.search := by
  unfold Url.search
  cases url.query with
  | none => exact .inl rfl
  | some query =>
    dsimp only
    split
    · exact .inl rfl
    · exact .inr ⟨'?', query, rfl, .inl rfl⟩

/-- For every request URL, base URL and query.  A path whose first segment is not `api` is not
served; any other goes to the base URL's origin, under the base path, with its own slashes
collapsed, and the URL it goes to has no dot segments at all. -/
theorem proxyTarget_within_base (hosts : HostParser) (requestUrl apiBaseUrl search : List Char) :
    ∀ url base, parse hosts requestUrl none = some url → parse hosts apiBaseUrl none = some base →
      EndsPath search →
      (url.path.head? ≠ some "api".toList →
        proxyTarget hosts apiBaseUrl url.pathname search = some none) ∧
      ∀ rest, url.path = "api".toList :: rest → ∃ href target,
        proxyTarget hosts apiBaseUrl url.pathname search = some (some href) ∧
        parse hosts href none = some target ∧ target.origin = base.origin ∧
        target.pathname =
          dropTrailingSlash base.pathname ++ pathText (collapsedSegments rest) ∧
        ∀ segment ∈ target.path, isSingleDot segment = false ∧ isDoubleDot segment = false := by
  intro url base hurl hbase hsearch
  have hrequest := settled_of_parse hurl
  have hsettled := settled_of_parse hbase
  refine ⟨fun hforeign => ?_, fun rest hapi => ?_⟩
  · unfold proxyTarget
    rw [show url.pathname = pathText url.path from rfl,
      strippedApiPath_of_foreign hrequest.path hforeign]
  · have hclean : CleanPath ("api".toList :: rest) := hapi ▸ hrequest.path
    have hjoined := cleanPath_joined hsettled.path fun s hs =>
      hclean.segments s (List.mem_cons_of_mem _ hs)
    have hbasePath : dropTrailingSlash base.pathname = pathText (baseSegments base.path) :=
      dropTrailingSlash_pathText hsettled.path
    obtain ⟨joined, hparse, horigin, hpath, hname, hword⟩ :=
      parse_originText hsettled hjoined hsearch
    have hpathname : joined.pathname =
        pathText (baseSegments base.path) ++ pathText (collapsedSegments rest) := by
      rw [← pathText_append, ← hpath]
      rfl
    have htext : joined.originText = base.originText := by
      unfold Url.originText Url.portText
      obtain ⟨hscheme, hrest⟩ := Prod.mk.inj horigin
      obtain ⟨hhost, hport⟩ := Prod.mk.inj hrest
      rw [hscheme, hhost, hport]
    have htarget : proxyTarget hosts apiBaseUrl url.pathname search = some (some joined.href) := by
      have hjoin : base.originText ++ pathText (baseSegments base.path) ++
          pathText (collapsedSegments rest) ++ search = base.originText ++
            (baseSegments base.path ++ collapsedSegments rest).flatMap ('/' :: ·) ++ search := by
        rw [List.append_assoc base.originText, ← pathText_append]
        rfl
      have hinside : ¬(joined.originText ≠ base.originText ∨
          ¬pathText (baseSegments base.path) <+: joined.pathname) := by
        rw [htext, hpathname]
        rintro (hne | hprefix)
        · exact hne rfl
        · exact hprefix (List.prefix_append _ _)
      unfold proxyTarget
      rw [show url.pathname = pathText url.path from rfl, hapi, strippedApiPath_of_api hclean]
      dsimp only
      unfold upstreamTarget
      rw [hbase, Option.bind_some]
      dsimp only
      rw [hbasePath, hjoin, hparse, Option.map_some, if_neg hinside]
    obtain ⟨target, hread, hsame, hsegments⟩ :=
      parse_href (settled_of_parse hparse) hname hword
    refine ⟨joined.href, target, htarget, hread, hsame.trans horigin, ?_, ?_⟩
    · rw [hbasePath, ← hpathname]
      exact congrArg pathText hsegments
    · intro segment hsegment
      rw [hsegments, hpath] at hsegment
      exact ⟨(hjoined.segments segment hsegment).singleDot,
        (hjoined.segments segment hsegment).doubleDot⟩

/-- What would name another host, and encoded dots. -/
theorem proxyTarget_within_base_example :
    ∃ url base href target,
      parse lowerCaseNames "http://app/api/\\/evil/%2E%2e/x%2e?q=1".toList none = some url ∧
      parse lowerCaseNames "https://backend:8443/v/".toList none = some base ∧
      proxyTarget lowerCaseNames "https://backend:8443/v/".toList url.pathname url.search =
        some (some href) ∧
      parse lowerCaseNames href none = some target ∧ target.origin = base.origin ∧
      target.pathname = "/v/x%2e".toList := by
  refine ⟨⟨.http, [], [], "app".toList, none,
    ["api".toList, [], [], "x%2e".toList], some "q=1".toList, none⟩,
    ⟨.https, [], [], "backend".toList, some 8443, ["v".toList, []], none, none⟩, ?_⟩
  have hurl : parse lowerCaseNames "http://app/api/\\/evil/%2E%2e/x%2e?q=1".toList none = some
      ⟨.http, [], [], "app".toList, none,
        ["api".toList, [], [], "x%2e".toList], some "q=1".toList, none⟩ := by decide +kernel
  have hbase : parse lowerCaseNames "https://backend:8443/v/".toList none = some
      ⟨.https, [], [], "backend".toList, some 8443, ["v".toList, []], none, none⟩ := by
    decide +kernel
  obtain ⟨href, target, htarget, hparse, horigin, hpath, -⟩ :=
    (proxyTarget_within_base lowerCaseNames _ _ _ _ _ hurl hbase (search_endsPath _)).2 _ rfl
  exact ⟨href, target, hurl, hbase, htarget, hparse, horigin,
    hpath.trans (by decide +kernel)⟩

end Wallow.Bff
