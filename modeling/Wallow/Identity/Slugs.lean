import Wallow.Identity.ClientIds
import Mathlib.Data.List.Chain

/-!
# Slugs

What `Slugify` yields: a text of lower-case letters, digits and single hyphens between them, which
is its own slug.
-/

namespace Wallow.Identity.ClientIds

def isSlugLetter (c : Char) : Bool := ('a' ≤ c && c ≤ 'z') || ('0' ≤ c && c ≤ '9')

/-- The language of slugs. -/
structure IsSlug (text : List Char) : Prop where
  chars : ∀ c ∈ text, isSlugLetter c = true ∨ c = '-'
  leading : text.head? ≠ some '-'
  trailing : text.getLast? ≠ some '-'
  doubled : ¬['-', '-'] <:+: text

/-- The decomposition does what the standard asks of it, for a relation of canonical equivalence:
texts are equivalent exactly if they are decomposed alike, and nothing is done to ASCII. -/
structure Unicode.Correct (unicode : Unicode) (Equivalent : String → String → Prop) : Prop where
  equivalent : ∀ value value', Equivalent value value' ↔
    unicode.normalizeD value = unicode.normalizeD value'
  ascii : ∀ value : String, (∀ c ∈ value.toList, c.toNat < 128) →
    unicode.normalizeD value = value.toList
  marks : ∀ c : Char, c.toNat < 128 → unicode.isNonSpacingMark c = false

/-! ## Letters -/

theorem ascii_forall {P : Char → Prop} (h : ∀ n : Fin 128, P (Char.ofNat n.val)) {c : Char}
    (hc : c.toNat < 128) : P c := by
  have hchar := h ⟨c.toNat, hc⟩
  rw [Char.ofNat_toNat] at hchar
  exact hchar

theorem lt_of_isAsciiLetterOrDigit {c : Char} (h : isAsciiLetterOrDigit c = true) :
    c.toNat < 128 := by
  unfold isAsciiLetterOrDigit at h
  simp only [Bool.or_eq_true, Bool.and_eq_true, decide_eq_true_iff] at h
  have hrange : ((97 ≤ c.toNat ∧ c.toNat ≤ 122) ∨ (65 ≤ c.toNat ∧ c.toNat ≤ 90)) ∨
      (48 ≤ c.toNat ∧ c.toNat ≤ 57) := h
  omega

theorem isSlugLetter_toLower {c : Char} (h : isAsciiLetterOrDigit c = true) :
    isSlugLetter c.toLower = true := by
  have hall : ∀ n : Fin 128, isAsciiLetterOrDigit (Char.ofNat n.val) = true →
      isSlugLetter (Char.ofNat n.val).toLower = true := by decide +kernel
  exact ascii_forall (P := fun c => isAsciiLetterOrDigit c = true → isSlugLetter c.toLower = true)
    hall (lt_of_isAsciiLetterOrDigit h) h

/-- A letter of a slug is kept as it is. -/
theorem kept_of_isSlugLetter {c : Char} (h : isSlugLetter c = true) :
    c.toNat < 128 ∧ isAsciiLetterOrDigit c = true ∧ c.toLower = c ∧ c ≠ '-' := by
  have hascii : c.toNat < 128 := by
    apply lt_of_isAsciiLetterOrDigit
    unfold isSlugLetter at h
    unfold isAsciiLetterOrDigit
    rw [Bool.or_eq_true] at h
    cases h with
    | inl hletter => rw [hletter, Bool.true_or, Bool.true_or]
    | inr hdigit => rw [hdigit, Bool.or_true]
  have hall : ∀ n : Fin 128, isSlugLetter (Char.ofNat n.val) = true →
      isAsciiLetterOrDigit (Char.ofNat n.val) = true ∧
        (Char.ofNat n.val).toLower = Char.ofNat n.val ∧ Char.ofNat n.val ≠ '-' := by
    decide +kernel
  exact ⟨hascii, ascii_forall (P := fun c => isSlugLetter c = true →
    isAsciiLetterOrDigit c = true ∧ c.toLower = c ∧ c ≠ '-') hall hascii h⟩

/-! ## What is built -/

/-- Two hyphens do not stand side by side. -/
def Apart (a b : Char) : Prop := ¬(a = '-' ∧ b = '-')

/-- The text built so far: it ends with a letter. -/
structure Built (builder : List Char) : Prop where
  chars : ∀ c ∈ builder, isSlugLetter c = true ∨ c = '-'
  leading : builder.head? ≠ some '-'
  trailing : builder.getLast? ≠ some '-'
  apart : builder.IsChain Apart

theorem Built.isSlug {builder : List Char} (h : Built builder) : IsSlug builder where
  chars := h.chars
  leading := h.leading
  trailing := h.trailing
  doubled hin := by
    have hpair : ['-', '-'].IsChain Apart := h.apart.infix hin
    exact List.isChain_pair.mp hpair ⟨rfl, rfl⟩

variable {unicode : Unicode} {builder : List Char} {pendingHyphen : Bool} {c : Char}

theorem built_letter (h : Built builder) (hc : isSlugLetter c = true) :
    Built (builder ++ [c]) := by
  have hne : c ≠ '-' := (kept_of_isSlugLetter hc).2.2.2
  refine ⟨fun d hd => ?_, ?_, ?_, ?_⟩
  · cases List.mem_append.mp hd with
    | inl hold => exact h.chars d hold
    | inr hnew => exact Or.inl (List.mem_singleton.mp hnew ▸ hc)
  · cases builder with
    | nil => exact fun heq => hne (Option.some.inj heq)
    | cons d builder => exact h.leading
  · rw [List.getLast?_append]
    exact fun heq => hne (Option.some.inj heq)
  · refine List.isChain_append.mpr ⟨h.apart, List.isChain_singleton c, fun a _ b hb hboth => ?_⟩
    exact hne ((Option.some.inj hb).trans hboth.2)

/-- A hyphen goes before a letter, behind a text that ends with one. -/
theorem built_hyphen_letter (h : Built builder) (hne : builder ≠ []) (hc : isSlugLetter c = true) :
    Built (builder ++ ['-'] ++ [c]) := by
  have hletter : c ≠ '-' := (kept_of_isSlugLetter hc).2.2.2
  refine ⟨fun d hd => ?_, ?_, ?_, ?_⟩
  · rw [List.append_assoc] at hd
    cases List.mem_append.mp hd with
    | inl hold => exact h.chars d hold
    | inr hnew =>
      cases List.mem_cons.mp hnew with
      | inl hhyphen => exact Or.inr hhyphen
      | inr hlast => exact Or.inl (List.mem_singleton.mp hlast ▸ hc)
  · cases builder with
    | nil => exact absurd rfl hne
    | cons d builder => exact h.leading
  · rw [List.getLast?_append]
    exact fun heq => hletter (Option.some.inj heq)
  · rw [List.append_assoc]
    refine List.isChain_append.mpr ⟨h.apart, ?_, fun a ha b hb hboth => ?_⟩
    · exact List.isChain_pair.mpr fun hboth => hletter hboth.2
    · have hend : builder.getLast? = some '-' := hboth.1 ▸ ha
      exact h.trailing hend

theorem built_slugifyChar (h : Built builder) (c : Char) :
    Built (slugifyChar unicode (builder, pendingHyphen) c).1 := by
  unfold slugifyChar
  dsimp only
  split
  · exact h
  · split
    · rename_i hletter
      have hc := isSlugLetter_toLower hletter
      dsimp only
      split
      · rename_i hseparator
        rw [Bool.and_eq_true, decide_eq_true_iff] at hseparator
        exact built_hyphen_letter h (List.length_pos_iff.mp hseparator.2) hc
      · rw [List.append_nil]
        exact built_letter h hc
    · exact h

theorem built_foldl (h : Built builder) (cs : List Char) :
    Built (cs.foldl (slugifyChar unicode) (builder, pendingHyphen)).1 := by
  induction cs generalizing builder pendingHyphen with
  | nil => exact h
  | cons c cs ih => exact ih (built_slugifyChar h c)

theorem built_slugify (unicode : Unicode) (value : String) : Built (slugify unicode value) := by
  refine built_foldl ⟨fun c h => absurd h List.not_mem_nil, ?_, ?_, List.isChain_nil⟩ _
  · exact fun h => by cases h
  · exact fun h => by cases h

/-! ## Slugs of slugs -/

theorem slugifyChar_letter (hmark : unicode.isNonSpacingMark c = false)
    (hc : isSlugLetter c = true) :
    slugifyChar unicode (builder, false) c = (builder ++ [c], false) := by
  have ⟨_, hletter, hlower, _⟩ := kept_of_isSlugLetter hc
  unfold slugifyChar
  simp only [hmark, hletter, hlower, Bool.false_and, Bool.false_eq_true, if_false, if_true,
    List.append_nil]

/-- A hyphen that is pending is written before the next letter. -/
theorem slugifyChar_pending (hmark : unicode.isNonSpacingMark c = false)
    (hc : isSlugLetter c = true) (hne : builder ≠ []) :
    slugifyChar unicode (builder, true) c = slugifyChar unicode (builder ++ ['-'], false) c := by
  have ⟨_, hletter, hlower, _⟩ := kept_of_isSlugLetter hc
  have hpos : 0 < builder.length := List.length_pos_iff.mpr hne
  unfold slugifyChar
  simp [hmark, hletter, hlower, hpos]

theorem slugifyChar_hyphen (hmark : unicode.isNonSpacingMark '-' = false) :
    slugifyChar unicode (builder, pendingHyphen) '-' = (builder, true) := by
  unfold slugifyChar
  rw [hmark]
  rfl

/-- The rest of a slug is appended as it is. -/
theorem foldl_slug (hmarks : ∀ c : Char, c.toNat < 128 → unicode.isNonSpacingMark c = false)
    {rest : List Char} (hchars : ∀ c ∈ rest, isSlugLetter c = true ∨ c = '-')
    (hstart : builder ≠ [] ∨ rest.head? ≠ some '-') (htrailing : rest.getLast? ≠ some '-')
    (hapart : rest.IsChain Apart) :
    rest.foldl (slugifyChar unicode) (builder, false) = (builder ++ rest, false) := by
  induction rest generalizing builder with
  | nil => rw [List.append_nil]; rfl
  | cons c rest ih =>
    have hrest : ∀ d ∈ rest, isSlugLetter d = true ∨ d = '-' :=
      fun d hd => hchars d (List.mem_cons_of_mem c hd)
    have htail : rest.getLast? ≠ some '-' := by
      intro heq
      rw [List.getLast?_cons, heq] at htrailing
      exact htrailing rfl
    have hnext : ∀ (start : List Char), start ≠ [] →
        rest.foldl (slugifyChar unicode) (start, false) = (start ++ rest, false) :=
      fun start hne => ih hrest (Or.inl hne) htail hapart.of_cons
    rw [List.foldl_cons]
    cases hchars c List.mem_cons_self with
    | inl hletter =>
      rw [slugifyChar_letter (hmarks c (kept_of_isSlugLetter hletter).1) hletter,
        hnext _ (by simp), List.append_assoc]
      rfl
    | inr hhyphen =>
      rw [hhyphen] at hapart hstart htrailing ⊢
      have hne : builder ≠ [] := hstart.resolve_right fun h => h rfl
      rw [slugifyChar_hyphen (hmarks '-' (by decide))]
      cases rest with
      | nil => exact absurd rfl htrailing
      | cons d rest =>
        -- behind a hyphen stands a letter
        have hd : isSlugLetter d = true := by
          refine (hrest d List.mem_cons_self).resolve_right fun hdouble => ?_
          exact (List.isChain_cons_cons.mp hapart).1 ⟨rfl, hdouble⟩
        have hmark := hmarks d (kept_of_isSlugLetter hd).1
        have hlater := hnext (builder ++ ['-']) (by simp)
        rw [List.foldl_cons, ← slugifyChar_pending hmark hd hne] at hlater
        rw [List.foldl_cons, hlater, List.append_assoc]
        rfl

theorem slugify_slug {Equivalent : String → String → Prop} (h : unicode.Correct Equivalent)
    (value : String) :
    slugify unicode (String.ofList (slugify unicode value)) = slugify unicode value := by
  have hbuilt := built_slugify unicode value
  generalize slugify unicode value = slug at hbuilt ⊢
  have hascii : ∀ c ∈ (String.ofList slug).toList, c.toNat < 128 := by
    intro c hc
    rw [String.toList_ofList] at hc
    cases hbuilt.chars c hc with
    | inl hletter => exact (kept_of_isSlugLetter hletter).1
    | inr hhyphen => rw [hhyphen]; decide
  rw [slugify, h.ascii _ hascii, String.toList_ofList,
    foldl_slug h.marks hbuilt.chars (Or.inr hbuilt.leading) hbuilt.trailing hbuilt.apart]
  rfl

/-- Every slug is in the language of slugs and is its own slug, and texts that are canonically
equivalent have one slug. -/
theorem slugify_spec {unicode : Unicode} {Equivalent : String → String → Prop}
    (h : unicode.Correct Equivalent) :
    (∀ value, IsSlug (slugify unicode value)) ∧
      (∀ value, slugify unicode (String.ofList (slugify unicode value)) = slugify unicode value) ∧
      ∀ value value', Equivalent value value' → slugify unicode value = slugify unicode value' := by
  refine ⟨fun value => (built_slugify unicode value).isSlug, slugify_slug h, ?_⟩
  intro value value' hequivalent
  rw [slugify, slugify, (h.equivalent value value').mp hequivalent]

/-- Unicode with one letter that is decomposed. -/
def acuteUnicode : Unicode where
  normalizeD value := value.toList.flatMap fun c => if c = 'é' then ['e', '\u0301'] else [c]
  isNonSpacingMark c := c = '\u0301'

theorem acuteUnicode_correct : acuteUnicode.Correct fun value value' =>
    acuteUnicode.normalizeD value = acuteUnicode.normalizeD value' where
  equivalent _ _ := Iff.rfl
  ascii value h := by
    show value.toList.flatMap _ = value.toList
    refine (List.flatMap_congr fun c hc => if_neg fun heq => ?_).trans (List.flatMap_singleton' _)
    have hascii := h c hc
    rw [heq] at hascii
    exact absurd hascii (by decide)
  marks c hc := by
    refine decide_eq_false fun heq => ?_
    rw [heq] at hc
    exact absurd hc (by decide)

theorem slugify_spec_of_cafe :
    slugify acuteUnicode "Café & Bar " = slugify acuteUnicode "Cafe\u0301 & Bar " ∧
      slugify acuteUnicode "Café & Bar " = "cafe-bar".toList :=
  ⟨(slugify_spec acuteUnicode_correct).2.2 _ _ (by decide +kernel), by decide +kernel⟩

end Wallow.Identity.ClientIds
