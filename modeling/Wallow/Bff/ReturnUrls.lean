import Wallow.Bff.ClientAddress
import Wallow.Lib.WebUrl
import Mathlib.Data.List.TakeWhile

/-!
# Return URLs

`isSafeReturnUrl` of `auth-oidc.ts`, and where a browser is sent by a value it accepts.
-/

namespace Wallow.Bff

open WebUrl

/-- `replaceAll(/%5c/giu, "\\")`. -/
def decodeBackslashes : List Char → List Char
  | '%' :: '5' :: 'c' :: rest => '\\' :: decodeBackslashes rest
  | '%' :: '5' :: 'C' :: rest => '\\' :: decodeBackslashes rest
  | c :: rest => c :: decodeBackslashes rest
  | [] => []

/-- The text the check is made on. -/
def normalizeReturnUrl (url : List Char) : List Char :=
  (decodeBackslashes (url.filter fun c => !isTabOrNewline c)).map fun c =>
    if c = '\\' then '/' else c

def isSafeReturnUrl (url : Option (List Char)) : Bool :=
  match url with
  | none => false
  | some url =>
    if trimSpace url = [] then false
    else
      let normalized := normalizeReturnUrl url
      "/".toList.isPrefixOf normalized && !"//".toList.isPrefixOf normalized

def SAFE_RETURN_TO : List Char := "/".toList

/-- `safeReturnTo` of `handlers.ts`. -/
def safeReturnTo (returnTo : Option (List Char)) : List Char :=
  if isSafeReturnUrl returnTo then returnTo.getD SAFE_RETURN_TO else SAFE_RETURN_TO

/-! ## What is accepted -/

/-- The first character is a slash that no other follows, or the percent sign of an encoded
backslash. -/
theorem head_of_isSafeReturnUrl {url : List Char} (h : isSafeReturnUrl (some url) = true) :
    ∃ c rest, url.filter (fun c => !isTabOrNewline c) = c :: rest ∧
      (c = '%' ∨ isSlash c = true ∧ ∀ d rest', rest = d :: rest' → isSlash d = false) := by
  unfold isSafeReturnUrl at h
  dsimp only at h
  rw [Bool.if_false_left, Bool.and_eq_true, Bool.and_eq_true, Bool.not_eq_true'] at h
  obtain ⟨-, hone, htwo⟩ := h
  unfold normalizeReturnUrl at hone htwo
  generalize url.filter (fun c => !isTabOrNewline c) = text at hone htwo
  cases text with
  | nil => cases hone
  | cons c rest =>
    refine ⟨c, rest, rfl, ?_⟩
    by_cases hpercent : c = '%'
    · exact .inl hpercent
    · have hkeep : ∀ d rest', d ≠ '%' → decodeBackslashes (d :: rest') =
          d :: decodeBackslashes rest' := by
        intro d rest' hd
        rw [decodeBackslashes] <;> simp [hd]
      rw [hkeep c rest hpercent, List.map_cons] at hone htwo
      have hslash : isSlash c = true := by
        by_cases hback : c = '\\'
        · rw [hback]
          rfl
        · rw [if_neg hback] at hone
          have hc : '/' = c := by simpa [List.isPrefixOf] using hone
          rw [← hc]
          rfl
      refine .inr ⟨hslash, ?_⟩
      rintro d rest' rfl
      cases hd : isSlash d with
      | false => rfl
      | true =>
        have hslashed : ∀ e, isSlash e = true → e ≠ '%' ∧ (if e = '\\' then '/' else e) = '/' := by
          intro e he
          rw [isSlash, Bool.or_eq_true, decide_eq_true_iff, decide_eq_true_iff] at he
          rcases he with rfl | rfl <;> decide
        rw [hkeep d rest' (hslashed d hd).1, List.map_cons, (hslashed c hslash).2,
          (hslashed d hd).2] at htwo
        cases htwo

/-! ## What a browser makes of it -/

/-- In front of the first character that stays, only tabs and line ends are dropped. -/
theorem filter_dropWhile {url rest : List Char} {c : Char} (hc : isControlOrSpace c = false)
    (h : url.filter (fun c => !isTabOrNewline c) = c :: rest) :
    (url.dropWhile isControlOrSpace).filter (fun c => !isTabOrNewline c) = c :: rest := by
  induction url with
  | nil => cases h
  | cons d url ih =>
    cases hd : isTabOrNewline d with
    | true =>
      rw [List.filter_cons_of_neg (by rw [hd]; exact Bool.false_ne_true)] at h
      rw [List.dropWhile_cons_of_pos (isControl_of_isTabOrNewline hd)]
      exact ih h
    | false =>
      have hkeep : (!isTabOrNewline d) = true := by
        rw [hd]
        rfl
      have hsame := h
      rw [List.filter_cons_of_pos (p := fun c => !isTabOrNewline c) hkeep] at h
      obtain ⟨rfl, -⟩ := List.cons.inj h
      rw [List.dropWhile_cons_of_neg (by rw [hc]; exact Bool.false_ne_true)]
      exact hsame

/-- At the end, nothing is dropped from in front of a character that is no control. -/
theorem filter_rdropWhile {text rest : List Char} {c : Char} (hc : isControlOrSpace c = false)
    (h : text.filter (fun c => !isTabOrNewline c) = c :: rest) :
    ∃ rest', rest' <+: rest ∧
      ((text.reverse.dropWhile isControlOrSpace).reverse).filter (fun c => !isTabOrNewline c) =
        c :: rest' := by
  have hsplit : text = (text.reverse.dropWhile isControlOrSpace).reverse ++
      (text.reverse.takeWhile isControlOrSpace).reverse := by
    rw [← List.reverse_append, List.takeWhile_append_dropWhile, List.reverse_reverse]
  generalize (text.reverse.dropWhile isControlOrSpace).reverse = kept at hsplit ⊢
  have hdropped : ∀ d ∈ (text.reverse.takeWhile isControlOrSpace).reverse,
      isControlOrSpace d = true := fun d hd =>
    List.mem_takeWhile_imp (List.mem_reverse.mp hd)
  generalize (text.reverse.takeWhile isControlOrSpace).reverse = dropped at hsplit hdropped
  rw [hsplit, List.filter_append] at h
  cases hkept : kept.filter (fun c => !isTabOrNewline c) with
  | nil =>
    rw [hkept, List.nil_append] at h
    have hmem : c ∈ dropped := List.mem_of_mem_filter (h ▸ List.mem_cons_self)
    rw [hdropped c hmem] at hc
    cases hc
  | cons d rest' =>
    rw [hkept, List.cons_append] at h
    obtain ⟨rfl, hrest⟩ := List.cons.inj h
    exact ⟨rest', ⟨_, hrest⟩, rfl⟩

theorem strip_of_filter {url rest : List Char} {c : Char} (hc : isControlOrSpace c = false)
    (h : url.filter (fun c => !isTabOrNewline c) = c :: rest) :
    ∃ rest', rest' <+: rest ∧ strip url = c :: rest' :=
  filter_rdropWhile hc (filter_dropWhile hc h)

/-- A text that begins with neither a letter nor a colon names no scheme. -/
theorem parse_of_no_scheme {hosts : HostParser} {base : Url} {url rest : List Char} {c : Char}
    (hscheme : isSchemeChar c = false) (hcolon : c ≠ ':') (h : strip url = c :: rest) :
    parse hosts url (some base) = relativeState hosts base (c :: rest) := by
  have hnone : scheme? (c :: rest) = none := by
    unfold scheme?
    rw [List.dropWhile_cons_of_neg (by rw [hscheme]; exact Bool.false_ne_true)]
    split
    · rename_i heq
      exact absurd (List.cons.inj heq).1 hcolon
    · rfl
  unfold parse
  dsimp only
  rw [h, hnone]
  rfl

/-- An accepted value keeps a browser on the origin it is on. -/
theorem parse_of_isSafeReturnUrl (hosts : HostParser) (base : Url) {url : List Char}
    (h : isSafeReturnUrl (some url) = true) :
    ∃ target, parse hosts url (some base) = some target ∧ target.origin = base.origin := by
  obtain ⟨c, rest, hfilter, hhead⟩ := head_of_isSafeReturnUrl h
  rcases hhead with rfl | ⟨hslash, hnext⟩
  · obtain ⟨rest', -, hstrip⟩ := strip_of_filter (by decide) hfilter
    rw [parse_of_no_scheme (by decide) (by decide) hstrip]
    exact ⟨_, rfl, rfl⟩
  · have hc : isControlOrSpace c = false ∧ isSchemeChar c = false ∧ c ≠ ':' := by
      rw [isSlash, Bool.or_eq_true, decide_eq_true_iff, decide_eq_true_iff] at hslash
      rcases hslash with rfl | rfl <;> decide
    obtain ⟨rest', hprefix, hstrip⟩ := strip_of_filter hc.1 hfilter
    rw [parse_of_no_scheme hc.2.1 hc.2.2 hstrip]
    unfold relativeState
    dsimp only
    rw [if_pos hslash]
    cases rest' with
    | nil => exact ⟨_, rfl, rfl⟩
    | cons d rest'' =>
      -- no second slash: the authority stays the base's
      obtain ⟨after, hrest⟩ := hprefix
      have hd : ¬isSlash d = true := by
        rw [hnext d (rest'' ++ after) hrest.symm]
        exact Bool.false_ne_true
      dsimp only
      rw [if_neg hd]
      exact ⟨_, rfl, rfl⟩

/-- Whatever the value, the browser is sent to the origin it is on; an accepted one by itself. -/
theorem isSafeReturnUrl_sameOrigin (hosts : HostParser) (base : Url) :
    (∀ url, isSafeReturnUrl (some url) = true →
      ∃ target, parse hosts url (some base) = some target ∧ target.origin = base.origin) ∧
    ∀ returnTo, ∃ target, parse hosts (safeReturnTo returnTo) (some base) = some target ∧
      target.origin = base.origin := by
  refine ⟨fun url h => parse_of_isSafeReturnUrl hosts base h, fun returnTo => ?_⟩
  unfold safeReturnTo
  by_cases h : isSafeReturnUrl returnTo = true
  · rw [if_pos h]
    cases returnTo with
    | none => cases h
    | some url => exact parse_of_isSafeReturnUrl hosts base h
  · rw [if_neg h]
    exact parse_of_isSafeReturnUrl hosts base (by decide)

/-- Names of lower-case letters, which are hosts as they stand. -/
def lowerCaseNames : HostParser where
  parse text :=
    if text ≠ [] ∧ text.all (fun c => c.isLower && !isForbidden c) then some text else none
  isHost text host h := by
    rw [Option.ite_none_right_eq_some, Option.some.injEq] at h
    obtain ⟨⟨hne, hchars⟩, rfl⟩ := h
    refine .name hne fun c hc => ?_
    have hboth := Bool.and_eq_true_iff.mp (List.all_eq_true.mp hchars c hc)
    simpa only [Bool.not_eq_true'] using hboth.2
  idempotent text host h := by
    have hsame := h
    rw [Option.ite_none_right_eq_some, Option.some.injEq] at h
    obtain ⟨-, rfl⟩ := h
    exact hsame

/-- Tabs, a line end and an encoded backslash, and where they lead. -/
theorem isSafeReturnUrl_sameOrigin_example :
    isSafeReturnUrl (some "\t/\nsettings/%5c..\\a b?x".toList) = true ∧
      ∃ target, parse lowerCaseNames "\t/\nsettings/%5c..\\a b?x".toList
          (some ⟨.https, [], [], "localhost".toList, none, [[]], none, none⟩) = some target ∧
        target.origin = (.https, "localhost".toList, none) :=
  ⟨by decide +kernel, (isSafeReturnUrl_sameOrigin lowerCaseNames
    ⟨.https, [], [], "localhost".toList, none, [[]], none, none⟩).1 _ (by decide +kernel)⟩

end Wallow.Bff
