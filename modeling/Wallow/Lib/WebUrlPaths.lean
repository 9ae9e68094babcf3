import Wallow.Lib.WebUrl
import Mathlib.Data.List.TakeWhile

/-!
# What the parser has parsed

The paths and authorities that the parser of web URLs yields, and that it reads them back as they
are written.
-/

namespace WebUrl

open SplitText

/-! ## Clean segments -/

/-- A character that the parser copies into a segment. -/
def IsClean (c : Char) : Prop :=
  isSlash c = false ∧ c ≠ '?' ∧ c ≠ '#' ∧ pathSet c = false

/-- A segment that the parser leaves as it is. -/
structure CleanSegment (segment : List Char) : Prop where
  chars : ∀ c ∈ segment, IsClean c
  singleDot : isSingleDot segment = false
  doubleDot : isDoubleDot segment = false

/-- A path that the parser leaves as it is. -/
structure CleanPath (path : List (List Char)) : Prop where
  ne_nil : path ≠ []
  segments : ∀ segment ∈ path, CleanSegment segment

theorem cleanSegment_nil : CleanSegment [] where
  chars := fun _ h => absurd h List.not_mem_nil
  singleDot := rfl
  doubleDot := rfl

theorem CleanSegment.slash_not_mem {segment : List Char} (h : CleanSegment segment) :
    '/' ∉ segment := fun hmem => absurd (h.chars '/' hmem).1 (by decide)

theorem isClean_percentByte (byte : UInt8) : ∀ c ∈ percentByte byte, IsClean c := by
  have hdigit : ∀ n : Fin 16, IsClean (Nat.digitChar n.val).toUpper := by
    unfold IsClean
    decide
  have hpercent : IsClean '%' := by
    unfold IsClean
    decide
  have hlt := byte.toNat_lt
  intro c hc
  rw [percentByte, List.mem_cons, List.mem_cons, List.mem_singleton] at hc
  rcases hc with rfl | rfl | rfl
  · exact hpercent
  · exact hdigit ⟨byte.toNat / 16, by omega⟩
  · exact hdigit ⟨byte.toNat % 16, Nat.mod_lt _ (by decide)⟩

/-- What is encoded is clean, if it does not end the segment. -/
theorem isClean_encode {c : Char} (hslash : isSlash c = false) (hquestion : c ≠ '?')
    (hhash : c ≠ '#') : ∀ d ∈ encode pathSet c, IsClean d := by
  intro d hd
  unfold encode at hd
  cases hset : pathSet c with
  | false =>
    rw [hset, if_neg Bool.false_ne_true, List.mem_singleton] at hd
    rw [hd]
    exact ⟨hslash, hquestion, hhash, hset⟩
  | true =>
    rw [hset, if_pos rfl] at hd
    obtain ⟨byte, -, hmem⟩ := List.mem_flatMap.mp hd
    exact isClean_percentByte byte d hmem

theorem encode_of_clean {c : Char} (h : IsClean c) : encode pathSet c = [c] := by
  unfold encode
  rw [h.2.2.2, if_neg Bool.false_ne_true]

/-! ## What the parser yields -/

theorem endSegment_clean {path : List (List Char)} {segment : List Char} (slash : Bool)
    (hpath : ∀ s ∈ path, CleanSegment s) (hsegment : ∀ c ∈ segment, IsClean c) :
    ∀ s ∈ endSegment path segment slash, CleanSegment s := by
  have hempty : ∀ s ∈ (if slash then [] else [([] : List Char)]), CleanSegment s := by
    intro s hs
    cases slash with
    | true => exact absurd hs List.not_mem_nil
    | false =>
      rw [List.mem_singleton.mp hs]
      exact cleanSegment_nil
  intro s hs
  unfold endSegment at hs
  by_cases hdouble : isDoubleDot segment = true
  · rw [if_pos hdouble, List.mem_append] at hs
    rcases hs with hinit | hlast
    · exact hpath s (List.mem_of_mem_dropLast hinit)
    · exact hempty s hlast
  · rw [if_neg hdouble] at hs
    by_cases hsingle : isSingleDot segment = true
    · rw [if_pos hsingle, List.mem_append] at hs
      exact hs.elim (hpath s) (hempty s)
    · rw [if_neg hsingle, List.mem_append, List.mem_singleton] at hs
      rcases hs with hinit | rfl
      · exact hpath s hinit
      · exact ⟨hsegment, Bool.eq_false_iff.mpr hsingle, Bool.eq_false_iff.mpr hdouble⟩

/-- The last segment stays, if only as an empty one. -/
theorem endSegment_ne_nil (path : List (List Char)) (segment : List Char) :
    endSegment path segment false ≠ [] := by
  unfold endSegment
  split
  · exact List.append_ne_nil_of_right_ne_nil _ (List.cons_ne_nil _ _)
  · split <;> exact List.append_ne_nil_of_right_ne_nil _ (List.cons_ne_nil _ _)

theorem pathState_clean (text : List Char) {path : List (List Char)} {segment : List Char}
    (hpath : ∀ s ∈ path, CleanSegment s) (hsegment : ∀ c ∈ segment, IsClean c) :
    CleanPath (pathState path segment text).1 := by
  have hend : CleanPath (endSegment path segment false) :=
    ⟨endSegment_ne_nil path segment, endSegment_clean false hpath hsegment⟩
  induction text generalizing path segment with
  | nil => exact hend
  | cons c rest ih =>
    rw [pathState]
    split
    · have hnext : ∀ s ∈ endSegment path segment true, CleanSegment s :=
        endSegment_clean true hpath hsegment
      have hnil : ∀ d ∈ ([] : List Char), IsClean d := fun _ h => absurd h List.not_mem_nil
      exact ih hnext hnil ⟨endSegment_ne_nil _ _, endSegment_clean false hnext hnil⟩
    · rename_i hslash
      split
      · exact hend
      · rename_i hquestion
        split
        · exact hend
        · rename_i hhash
          have hnext : ∀ d ∈ segment ++ encode pathSet c, IsClean d := by
            intro d hd
            rcases List.mem_append.mp hd with hold | hnew
            · exact hsegment d hold
            · exact isClean_encode (Bool.eq_false_iff.mpr hslash) hquestion hhash d hnew
          exact ih hpath hnext ⟨endSegment_ne_nil _ _, endSegment_clean false hpath hnext⟩

theorem pathStart_clean (text : List Char) : CleanPath (pathStart text).1 := by
  have hpath : ∀ s ∈ ([] : List (List Char)), CleanSegment s := fun _ h =>
    absurd h List.not_mem_nil
  have hsegment : ∀ c ∈ ([] : List Char), IsClean c := fun _ h => absurd h List.not_mem_nil
  unfold pathStart
  split
  · exact pathState_clean [] hpath hsegment
  · split
    · exact pathState_clean _ hpath hsegment
    · exact pathState_clean _ hpath hsegment

/-! ## Paths read back -/

/-- What may follow a path: nothing, or a query or a fragment. -/
def EndsPath (tail : List Char) : Prop :=
  tail = [] ∨ ∃ c rest, tail = c :: rest ∧ (c = '?' ∨ c = '#')

/-- Clean characters are copied. -/
theorem pathState_copy {chunk : List Char} (h : ∀ c ∈ chunk, IsClean c)
    (path : List (List Char)) (segment rest : List Char) :
    pathState path segment (chunk ++ rest) = pathState path (segment ++ chunk) rest := by
  induction chunk generalizing segment with
  | nil => rw [List.nil_append, List.append_nil]
  | cons c chunk ih =>
    have hc := h c List.mem_cons_self
    rw [List.cons_append, pathState, if_neg (by rw [hc.1]; exact Bool.false_ne_true),
      if_neg hc.2.1, if_neg hc.2.2.1, encode_of_clean hc,
      ih fun d hd => h d (List.mem_cons_of_mem _ hd), List.append_assoc]
    rfl

theorem endSegment_of_clean {segment : List Char} (h : CleanSegment segment)
    (path : List (List Char)) (slash : Bool) :
    endSegment path segment slash = path ++ [segment] := by
  unfold endSegment
  rw [h.doubleDot, h.singleDot, if_neg Bool.false_ne_true, if_neg Bool.false_ne_true]

theorem pathState_end {tail : List Char} (h : EndsPath tail) (path : List (List Char))
    (segment : List Char) : (pathState path segment tail).1 = endSegment path segment false := by
  obtain rfl | ⟨c, rest, rfl, rfl | rfl⟩ := h <;> rfl

/-- The segments of a clean path are read as they are. -/
theorem pathState_of_clean {first : List Char} {others : List (List Char)}
    (hfirst : CleanSegment first) (hothers : ∀ s ∈ others, CleanSegment s) {tail : List Char}
    (htail : EndsPath tail) (path : List (List Char)) :
    (pathState path [] (first ++ (others.flatMap ('/' :: ·) ++ tail))).1 =
      path ++ first :: others := by
  rw [pathState_copy hfirst.chars, List.nil_append]
  induction others generalizing path first with
  | nil => rw [List.flatMap_nil, List.nil_append, pathState_end htail, endSegment_of_clean hfirst]
  | cons next others ih =>
    have hnext := hothers next List.mem_cons_self
    have hrest := ih hnext (fun s hs => hothers s (List.mem_cons_of_mem _ hs)) (path ++ [first])
    rw [List.append_assoc, List.singleton_append] at hrest
    have hslash : isSlash '/' = true := rfl
    rw [List.flatMap_cons, List.cons_append, List.cons_append, pathState, if_pos hslash,
      endSegment_of_clean hfirst, List.append_assoc, pathState_copy hnext.chars, List.nil_append]
    exact hrest

/-- A path read back from its own text. -/
theorem pathStart_of_clean {path : List (List Char)} (h : CleanPath path) {tail : List Char}
    (htail : EndsPath tail) : (pathStart (path.flatMap ('/' :: ·) ++ tail)).1 = path := by
  obtain ⟨first, others, rfl⟩ := List.exists_cons_of_ne_nil h.ne_nil
  have hfirst := h.segments first List.mem_cons_self
  have hslash : isSlash '/' = true := rfl
  rw [List.flatMap_cons, List.cons_append, List.cons_append, List.append_assoc, pathStart,
    if_pos hslash, pathState_of_clean hfirst (fun s hs => h.segments s (List.mem_cons_of_mem _ hs))
      htail]
  rfl

/-! ## Authorities read back -/

/-- A port that is kept: not the default one, and in range. -/
def KeptPort (scheme : Scheme) (port : Option Nat) : Prop :=
  ∀ n, port = some n → n ≤ 65535 ∧ n ≠ scheme.defaultPort

theorem keptPort_of_portState {scheme : Scheme} {text : Option (List Char)} {port : Option Nat}
    (h : portState scheme text = some port) : KeptPort scheme port := by
  rintro n rfl
  unfold portState at h
  cases text with
  | none => cases h
  | some digits =>
    dsimp only at h
    rw [Option.ite_none_left_eq_some] at h
    obtain ⟨-, h⟩ := h
    split at h
    · cases h
    · rw [Option.ite_none_left_eq_some] at h
      obtain ⟨hmax, h⟩ := h
      split at h
      · cases h
      · rename_i hdefault
        cases h
        exact ⟨Nat.not_lt.mp hmax, hdefault⟩

theorem portState_of_kept {scheme : Scheme} {n : Nat} (h : KeptPort scheme (some n)) :
    portState scheme (some (Nat.toDigits 10 n)) = some (some n) := by
  obtain ⟨hmax, hdefault⟩ := h n rfl
  have hdigits : (Nat.toDigits 10 n).all Char.isDigit = true :=
    List.all_eq_true.mpr fun _ hc => Nat.isDigit_of_mem_toDigits (by decide) (by decide) hc
  have hvalue : decimal (Nat.toDigits 10 n) = n := Nat.ofDigitChars_ten_toDigits
  unfold portState
  dsimp only
  rw [hdigits, hvalue, Bool.not_true, if_neg Bool.false_ne_true, if_neg Nat.toDigits_ne_nil,
    if_neg (Nat.not_lt.mpr hmax), if_neg hdefault]

/-- What a host has no character of. -/
theorem IsHost.chars {host : List Char} (h : IsHost host) :
    ∀ c ∈ host, endsAuthority c = false ∧ c ≠ '@' ∧ isControlOrSpace c = false := by
  have hforbidden : ∀ c, isForbidden c = false →
      endsAuthority c = false ∧ c ≠ '@' ∧ isControlOrSpace c = false := by
    intro c hc
    unfold isForbidden at hc
    rw [Bool.or_eq_false_iff, Bool.or_eq_false_iff] at hc
    obtain ⟨⟨hcontrol, -⟩, hlist⟩ := hc
    have hne : ∀ d ∈ "#/:<>?@[\\]^|%".toList, c ≠ d := by
      rintro d hd rfl
      rw [List.contains_iff_mem.mpr hd] at hlist
      cases hlist
    refine ⟨?_, hne '@' (by decide), hcontrol⟩
    unfold endsAuthority isSlash
    simp only [hne '/' (by decide), hne '\\' (by decide), hne '?' (by decide),
      hne '#' (by decide), decide_false, Bool.or_false]
  cases h with
  | name hne h => exact fun c hc => hforbidden c (h c hc)
  | ipv6 h =>
    intro c hc
    rw [List.mem_cons, List.mem_append, List.mem_singleton] at hc
    rcases hc with rfl | hpiece | rfl
    · decide
    · rcases h c hpiece with rfl | hc
      · decide
      · exact hforbidden c hc
    · decide

theorem IsHost.ne_nil {host : List Char} (h : IsHost host) : host ≠ [] := by
  cases h with
  | name hne h => exact hne
  | ipv6 h => exact List.cons_ne_nil _ _

theorem splitPort_copy {inside : Bool} {chunk : List Char}
    (h : ∀ c ∈ chunk, (c ≠ ':' ∨ inside = true) ∧ c ≠ '[' ∧ c ≠ ']') (rest : List Char) :
    splitPort inside (chunk ++ rest) =
      (chunk ++ (splitPort inside rest).1, (splitPort inside rest).2) := by
  induction chunk with
  | nil => rfl
  | cons c chunk ih =>
    obtain ⟨hcolon, hopen, hclose⟩ := h c List.mem_cons_self
    have hstays : ¬(c = ':' ∧ inside = false) := by
      rintro ⟨heq, hinside⟩
      rcases hcolon with hne | hin
      · exact hne heq
      · rw [hinside] at hin
        cases hin
    rw [List.cons_append, splitPort, if_neg hstays]
    dsimp only
    rw [if_neg hopen, if_neg hclose, ih fun d hd => h d (List.mem_cons_of_mem _ hd)]
    rfl

/-- Colons in brackets do not end the host. -/
theorem splitPort_host {host : List Char} (h : IsHost host) (rest : List Char) :
    splitPort false (host ++ rest) =
      (host ++ (splitPort false rest).1, (splitPort false rest).2) := by
  have hplain : ∀ c, isForbidden c = false → c ≠ ':' ∧ c ≠ '[' ∧ c ≠ ']' := by
    rintro c hc
    refine ⟨?_, ?_, ?_⟩ <;> rintro rfl <;> exact absurd hc (by decide)
  cases h with
  | name hne h =>
    exact splitPort_copy (fun c hc => ⟨.inl (hplain c (h c hc)).1, (hplain c (h c hc)).2⟩) rest
  | @ipv6 pieces h =>
    have hinside : ∀ c ∈ pieces, (c ≠ ':' ∨ true = true) ∧ c ≠ '[' ∧ c ≠ ']' := by
      intro c hc
      rcases h c hc with rfl | hforbidden
      · decide
      · exact ⟨.inr rfl, (hplain c hforbidden).2⟩
    have hopen : ∀ text, splitPort false ('[' :: text) =
        ('[' :: (splitPort true text).1, (splitPort true text).2) := fun _ => rfl
    have hclose : ∀ text, splitPort true (']' :: text) =
        (']' :: (splitPort false text).1, (splitPort false text).2) := fun _ => rfl
    rw [List.cons_append, List.append_assoc, hopen, splitPort_copy hinside, List.singleton_append,
      hclose, List.cons_append, List.append_assoc, List.singleton_append]

/-! ## URLs read back -/

/-- What the parser yields without a base. -/
structure Settled (hosts : HostParser) (url : Url) : Prop where
  path : CleanPath url.path
  isHost : IsHost url.host
  host : hosts.parse url.host = some url.host
  port : KeptPort url.scheme url.port

theorem settled_of_authorityState {hosts : HostParser} {scheme : Scheme} {text : List Char}
    {url : Url} (h : authorityState hosts scheme text = some url) : Settled hosts url := by
  unfold authorityState at h
  dsimp only at h
  rw [Option.ite_none_left_eq_some] at h
  obtain ⟨-, h⟩ := h
  obtain ⟨host, hhost, h⟩ := Option.bind_eq_some_iff.mp h
  obtain ⟨port, hport, h⟩ := Option.bind_eq_some_iff.mp h
  cases h
  exact ⟨pathStart_clean _, hosts.isHost _ _ hhost, hosts.idempotent _ _ hhost,
    keptPort_of_portState hport⟩

theorem settled_of_parse {hosts : HostParser} {text : List Char} {url : Url}
    (h : parse hosts text none = some url) : Settled hosts url := by
  unfold parse at h
  dsimp only at h
  split at h
  · split at h
    · exact settled_of_authorityState h
    · split at h
      · exact settled_of_authorityState h
      · cases h
  · cases h

/-- The text of a port is a colon and digits. -/
theorem Url.mem_portText {url : Url} {c : Char} (hc : c ∈ url.portText) :
    c = ':' ∨ c.isDigit = true := by
  unfold Url.portText at hc
  cases hkept : url.port with
  | none =>
    rw [hkept] at hc
    exact absurd hc List.not_mem_nil
  | some n =>
    rw [hkept, List.mem_cons] at hc
    exact hc.imp_right (Nat.isDigit_of_mem_toDigits (by decide) (by decide))

/-- The authority of an origin, read back from its text. -/
theorem authorityState_of_settled {hosts : HostParser} {url : Url} (h : Settled hosts url)
    {rest : List Char} {c : Char} (hc : endsAuthority c = true) :
    ∃ target, authorityState hosts url.scheme
        ("//".toList ++ url.host ++ url.portText ++ c :: rest) = some target ∧
      target.origin = url.origin ∧ target.path = (pathStart (c :: rest)).1 ∧
      target.username = [] ∧ target.password = [] := by
  have hport : ∀ d ∈ url.portText, endsAuthority d = false ∧ d ≠ '@' := by
    intro d hd
    rcases Url.mem_portText hd with rfl | hdigit
    · decide
    · refine ⟨?_, ?_⟩
      · cases hend : endsAuthority d with
        | false => rfl
        | true =>
          unfold endsAuthority isSlash at hend
          simp only [Bool.or_eq_true, decide_eq_true_iff] at hend
          -- none of the four ends is a digit
          rcases hend with ((rfl | rfl) | rfl) | rfl <;> exact absurd hdigit (by decide)
      · rintro rfl
        exact absurd hdigit (by decide)
  have hauthority : ∀ d ∈ url.host ++ url.portText, endsAuthority d = false ∧ d ≠ '@' := by
    intro d hd
    rcases List.mem_append.mp hd with hhost | hafter
    · exact ⟨(h.isHost.chars d hhost).1, (h.isHost.chars d hhost).2.1⟩
    · exact hport d hafter
  have hkeep : ∀ d ∈ url.host ++ url.portText, (!endsAuthority d) = true := by
    intro d hd
    rw [(hauthority d hd).1]
    rfl
  have hstop : ¬(!endsAuthority c) = true := by
    rw [hc]
    exact Bool.false_ne_true
  have htake : (url.host ++ url.portText ++ c :: rest).takeWhile (fun c => !endsAuthority c) =
      url.host ++ url.portText := by
    rw [List.takeWhile_append_of_pos hkeep,
      List.takeWhile_cons_of_neg (p := fun c => !endsAuthority c) hstop, List.append_nil]
  have hdrop : (url.host ++ url.portText ++ c :: rest).dropWhile (fun c => !endsAuthority c) =
      c :: rest := by
    rw [List.dropWhile_append_of_pos hkeep,
      List.dropWhile_cons_of_neg (p := fun c => !endsAuthority c) hstop]
  have hslashes : ("//".toList ++ url.host ++ url.portText ++ c :: rest).dropWhile isSlash =
      url.host ++ url.portText ++ c :: rest := by
    obtain ⟨d, host, hhost⟩ := List.exists_cons_of_ne_nil h.isHost.ne_nil
    have hd : ¬isSlash d = true := by
      intro hslash
      have hend := (h.isHost.chars d (hhost ▸ List.mem_cons_self)).1
      unfold endsAuthority at hend
      rw [hslash] at hend
      cases hend
    rw [hhost]
    show (d :: (host ++ url.portText ++ c :: rest)).dropWhile isSlash = _
    rw [List.dropWhile_cons_of_neg hd]
    rfl
  have hat : splitLast '@' (url.host ++ url.portText) = none :=
    splitLast_of_not_mem fun hmem => (hauthority '@' hmem).2 rfl
  have hsplit : splitPort false (url.host ++ url.portText) =
      (url.host, url.port.map (Nat.toDigits 10)) := by
    rw [splitPort_host h.isHost]
    unfold Url.portText
    cases url.port with
    | none => exact Prod.ext (List.append_nil _) rfl
    | some n => exact Prod.ext (List.append_nil _) rfl
  have hportState : portState url.scheme (url.port.map (Nat.toDigits 10)) = some url.port := by
    have hkept := h.port
    cases hnumber : url.port with
    | none => rfl
    | some n =>
      rw [hnumber] at hkept
      exact portState_of_kept hkept
  unfold authorityState
  dsimp only
  rw [hslashes, htake, hdrop, hat, Option.getD_none]
  dsimp only
  rw [hsplit]
  dsimp only
  rw [if_neg h.isHost.ne_nil, h.host, hportState]
  exact ⟨_, rfl, rfl, rfl, rfl, rfl⟩

/-! ## What is dropped around a URL -/

def stripEnd (tail : List Char) : List Char :=
  ((tail.reverse.dropWhile isControlOrSpace).reverse).filter fun c => !isTabOrNewline c

theorem filter_of_visible {text : List Char} (h : ∀ c ∈ text, isControlOrSpace c = false) :
    text.filter (fun c => !isTabOrNewline c) = text := by
  refine List.filter_eq_self.mpr fun c hc => ?_
  cases htab : isTabOrNewline c with
  | false => rfl
  | true =>
    have hcontrol := h c hc
    rw [isControl_of_isTabOrNewline htab] at hcontrol
    cases hcontrol

theorem strip_append {front : List Char} (hne : front ≠ [])
    (h : ∀ c ∈ front, isControlOrSpace c = false) (tail : List Char) :
    strip (front ++ tail) = front ++ stripEnd tail := by
  have hstart : (front ++ tail).dropWhile isControlOrSpace = front ++ tail := by
    obtain ⟨c, rest, rfl⟩ := List.exists_cons_of_ne_nil hne
    refine List.dropWhile_cons_of_neg ?_
    rw [h c List.mem_cons_self]
    exact Bool.false_ne_true
  have hend : ((front ++ tail).reverse.dropWhile isControlOrSpace).reverse =
      front ++ (tail.reverse.dropWhile isControlOrSpace).reverse := by
    rw [List.reverse_append, List.dropWhile_append]
    split
    · rename_i hempty
      rw [List.isEmpty_iff.mp hempty, List.reverse_nil, List.append_nil]
      obtain ⟨c, rest, hrest⟩ := List.exists_cons_of_ne_nil (List.reverse_ne_nil_iff.mpr hne)
      have hc := h c (List.mem_reverse.mp (hrest ▸ List.mem_cons_self))
      rw [hrest, List.dropWhile_cons_of_neg (by rw [hc]; exact Bool.false_ne_true), ← hrest,
        List.reverse_reverse]
    · rw [List.reverse_append, List.reverse_reverse]
  unfold strip stripEnd
  rw [hstart, hend, List.filter_append, filter_of_visible h]

theorem stripEnd_endsPath {tail : List Char} (h : EndsPath tail) : EndsPath (stripEnd tail) := by
  obtain rfl | ⟨c, rest, rfl, hc⟩ := h
  · exact .inl rfl
  · have hvisible : ∀ d ∈ [c], isControlOrSpace d = false := by
      intro d hd
      rw [List.mem_singleton.mp hd]
      rcases hc with rfl | rfl <;> rfl
    have hstrip := strip_append (List.cons_ne_nil c []) hvisible rest
    have hstart : strip ([c] ++ rest) = stripEnd (c :: rest) := by
      unfold strip stripEnd
      rw [List.singleton_append,
        List.dropWhile_cons_of_neg
          (by rw [hvisible c List.mem_cons_self]; exact Bool.false_ne_true)]
    rw [← hstart, hstrip]
    exact .inr ⟨c, stripEnd rest, rfl, hc⟩

theorem IsClean.visible {c : Char} (h : IsClean c) : isControlOrSpace c = false := by
  obtain ⟨-, -, -, hset⟩ := h
  unfold pathSet querySet controlSet at hset
  simp only [Bool.or_eq_false_iff, decide_eq_false_iff_not] at hset
  obtain ⟨⟨⟨hcontrol, -⟩, hlist⟩, -⟩ := hset
  refine decide_eq_false fun hle => ?_
  have hspace : c.toNat = ' '.toNat := by
    show c.toNat = 32
    omega
  rw [Char.toNat_inj.mp hspace] at hlist
  cases hlist

theorem CleanPath.visible {path : List (List Char)} (h : CleanPath path) :
    ∀ c ∈ path.flatMap ('/' :: ·), isControlOrSpace c = false := by
  intro c hc
  obtain ⟨segment, hsegment, hmem⟩ := List.mem_flatMap.mp hc
  rcases List.mem_cons.mp hmem with rfl | hchar
  · rfl
  · exact ((h.segments segment hsegment).chars c hchar).visible

theorem CleanPath.flatMap_eq_cons {path : List (List Char)} (h : CleanPath path) :
    ∃ rest, path.flatMap ('/' :: ·) = '/' :: rest := by
  obtain ⟨first, others, rfl⟩ := List.exists_cons_of_ne_nil h.ne_nil
  exact ⟨_, rfl⟩

theorem Settled.originText_visible {hosts : HostParser} {url : Url} (h : Settled hosts url) :
    ∀ c ∈ url.originText, isControlOrSpace c = false := by
  have hscheme : ∀ c ∈ url.scheme.text ++ "://".toList, isControlOrSpace c = false := by
    have hall : ((url.scheme.text ++ "://".toList).all fun c => !isControlOrSpace c) = true := by
      cases url.scheme <;> decide
    exact fun c hc => by simpa only [Bool.not_eq_true'] using List.all_eq_true.mp hall c hc
  have hport : ∀ c ∈ url.portText, isControlOrSpace c = false := by
    intro c hc
    rcases Url.mem_portText hc with rfl | hdigit
    · rfl
    · have hrange : 48 ≤ c.toNat ∧ c.toNat ≤ 57 := by
        rw [Char.isDigit, Bool.and_eq_true, decide_eq_true_iff, decide_eq_true_iff] at hdigit
        exact hdigit
      exact decide_eq_false (by omega)
  intro c hc
  unfold Url.originText at hc
  rcases List.mem_append.mp hc with hfront | hafter
  · rcases List.mem_append.mp hfront with hbefore | hhost
    · exact hscheme c hbefore
    · exact (h.isHost.chars c hhost).2.2
  · exact hport c hafter

theorem scheme?_text (scheme : Scheme) (rest : List Char) :
    scheme? (scheme.text ++ ':' :: rest) = some (scheme.text, rest) := by
  cases scheme <;> rfl

/-- A text made of an origin and a clean path is the URL with them. -/
theorem parse_originText {hosts : HostParser} {url : Url} (h : Settled hosts url)
    {path : List (List Char)} (hpath : CleanPath path) {tail : List Char} (htail : EndsPath tail) :
    ∃ target, parse hosts (url.originText ++ path.flatMap ('/' :: ·) ++ tail) none = some target ∧
      target.origin = url.origin ∧ target.path = path ∧ target.username = [] ∧
      target.password = [] := by
  have hvisible : ∀ c ∈ url.originText ++ path.flatMap ('/' :: ·), isControlOrSpace c = false := by
    intro c hc
    exact (List.mem_append.mp hc).elim (h.originText_visible c) (hpath.visible c)
  have hne : url.originText ++ path.flatMap ('/' :: ·) ≠ [] := by
    obtain ⟨rest, hrest⟩ := hpath.flatMap_eq_cons
    rw [hrest]
    exact List.append_ne_nil_of_right_ne_nil _ (List.cons_ne_nil _ _)
  have htext : url.originText ++ path.flatMap ('/' :: ·) ++ stripEnd tail =
      url.scheme.text ++ ':' :: ("//".toList ++ url.host ++ url.portText ++
        (path.flatMap ('/' :: ·) ++ stripEnd tail)) := by
    unfold Url.originText
    rw [show "://".toList = ':' :: "//".toList from rfl]
    simp only [List.append_assoc, List.cons_append]
  have hparse : parse hosts (url.originText ++ path.flatMap ('/' :: ·) ++ tail) none =
      authorityState hosts url.scheme ("//".toList ++ url.host ++ url.portText ++
        (path.flatMap ('/' :: ·) ++ stripEnd tail)) := by
    unfold parse
    dsimp only
    rw [strip_append hne hvisible, htext, scheme?_text]
    cases url.scheme <;> rfl
  have hread := pathStart_of_clean hpath (stripEnd_endsPath htail)
  obtain ⟨rest, hrest⟩ := hpath.flatMap_eq_cons
  rw [hparse]
  rw [hrest, List.cons_append] at hread ⊢
  obtain ⟨target, hauthority, horigin, htarget, hname, hword⟩ :=
    authorityState_of_settled h (by rfl : endsAuthority '/' = true)
  exact ⟨target, hauthority, horigin, htarget.trans hread, hname, hword⟩

/-- A URL without credentials, read back from its text. -/
theorem parse_href {hosts : HostParser} {url : Url} (h : Settled hosts url)
    (hname : url.username = []) (hword : url.password = []) :
    ∃ target, parse hosts url.href none = some target ∧ target.origin = url.origin ∧
      target.path = url.path := by
  have htail : EndsPath (url.query.elim [] ('?' :: ·) ++ url.fragment.elim [] ('#' :: ·)) := by
    cases url.query with
    | some query => exact .inr ⟨'?', _, rfl, .inl rfl⟩
    | none =>
      cases url.fragment with
      | some fragment => exact .inr ⟨'#', _, rfl, .inr rfl⟩
      | none => exact .inl rfl
  have hhref : url.href = url.originText ++ url.path.flatMap ('/' :: ·) ++
      (url.query.elim [] ('?' :: ·) ++ url.fragment.elim [] ('#' :: ·)) := by
    unfold Url.href Url.originText Url.pathname Url.credentialsText
    rw [if_pos ⟨hname, hword⟩]
    simp only [List.append_nil, List.append_assoc]
  obtain ⟨target, hparse, horigin, hpath, -⟩ := parse_originText h h.path htail
  rw [hhref]
  exact ⟨target, hparse, horigin, hpath⟩

end WebUrl
