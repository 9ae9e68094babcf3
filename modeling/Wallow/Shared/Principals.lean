import Wallow.Api.GuidText
import Mathlib.Data.List.Forall2

/-!
# Principals

The claims of a principal and `ClaimsPrincipalExtensions.cs`, with the comparison
`StringComparison.OrdinalIgnoreCase` that claim types, roles and scopes are matched by.
-/

namespace Wallow.Shared

open Wallow.Api

/-! ## Ordinal comparison -/

/-- The upper case that ordinal comparison takes of a character: no other character shares the one
of an ASCII character. -/
structure OrdinalCasing where
  upper : Char → Char
  upper_ascii : ∀ c, c.toNat < 128 → upper c = c.toUpper
  upper_other : ∀ c, 128 ≤ c.toNat → 128 ≤ (upper c).toNat

namespace OrdinalCasing

def ascii : OrdinalCasing where
  upper c := if c.toNat < 128 then c.toUpper else c
  upper_ascii _ h := if_pos h
  upper_other c h := by
    rw [if_neg (Nat.not_lt.mpr h)]
    exact h

variable (casing : OrdinalCasing)

def upperText (text : String) : List Char := text.toList.map casing.upper

def equals (a b : String) : Bool := casing.upperText a = casing.upperText b

/-- `Distinct(StringComparer.OrdinalIgnoreCase)`, which keeps the first of its kind. -/
def distinct (texts : List String) : List String :=
  texts.foldl (fun kept text => if kept.any (casing.equals text) then kept else kept ++ [text]) []

/-- `OrderBy(.., StringComparer.OrdinalIgnoreCase)`, which is stable. -/
def orderBy (texts : List String) : List String :=
  texts.mergeSort fun a b => !decide (casing.upperText b < casing.upperText a)

end OrdinalCasing

/-! ## Claims -/

structure Claim where
  type : String
  value : String
  deriving DecidableEq

/-- The primary identity's authentication type and claims, and the claims of the other ones. -/
structure ClaimsPrincipal where
  authenticationType : Option String
  claims : List Claim
  otherClaims : List Claim
  deriving DecidableEq

/-- `bool.TryParse`, around which white space and null characters are passed over. -/
def tryParseBool (casing : OrdinalCasing) (text : String) : Option Bool :=
  let blank (c : Char) : Bool := isWhiteSpace c || c.toNat = 0
  let trimmed := String.ofList ((text.toList.dropWhile blank).reverse.dropWhile blank).reverse
  if casing.equals trimmed "true" then some true
  else if casing.equals trimmed "false" then some false
  else none

def ROLE_CLAIM_TYPE : String := "http://schemas.microsoft.com/ws/2008/06/identity/claims/role"
def OPERATOR_CLAIM_TYPE : String := "is_operator"
def GLOBAL_ADMIN_CLAIM_TYPE : String := "is_global_admin"

namespace ClaimsPrincipal

variable (casing : OrdinalCasing) (user : ClaimsPrincipal)

def isAuthenticated : Bool :=
  match user.authenticationType with
  | none => false
  | some text => text ≠ ""

def findAll (type : String) : List String :=
  ((user.claims ++ user.otherClaims).filter fun claim => casing.equals claim.type type).map
    Claim.value

def findFirst (type : String) : Option String := (user.findAll casing type).head?

def getClientId : Option String :=
  (user.findFirst casing "client_id").or (user.findFirst casing "azp")

def getTenantId : Option String := user.findFirst casing "org_id"

def getTenantName : Option String := user.findFirst casing "org_name"

def getAuthMethod : Option String := user.findFirst casing "auth_method"

def getTenantRegion : Option String := user.findFirst casing "tenant_region"

def isOperator : Bool :=
  ((user.findFirst casing OPERATOR_CLAIM_TYPE).bind (tryParseBool casing)).getD false

def isGlobalAdmin : Bool :=
  ((user.findFirst casing GLOBAL_ADMIN_CLAIM_TYPE).bind (tryParseBool casing)).getD false

def getRoles : List String :=
  casing.distinct (user.findAll casing ROLE_CLAIM_TYPE ++ user.findAll casing "role")

def getPermissions : List String := user.findAll casing "permission"

def getScopes : List String :=
  let spaced := (user.findAll casing "scope").flatMap fun value =>
    ((value.toList.splitOn ' ').filter (· ≠ [])).map String.ofList
  casing.distinct (spaced ++ user.findAll casing "oi_scp")

def addPermission (permission : String) : ClaimsPrincipal :=
  { user with claims := user.claims ++ [⟨"permission", permission⟩] }

def addPermissions (permissions : List String) : ClaimsPrincipal :=
  permissions.foldl addPermission user

end ClaimsPrincipal

/-! ## The text of a `Guid` in another case -/

open HexText

/-- A character of a `D` text and what it is compared equal to. -/
theorem OrdinalCasing.sameDigit {casing : OrdinalCasing} {c d : Char} (hd : IsGuidChar d)
    (h : casing.upper c = casing.upper d) :
    value? c = value? d ∧ (c = '-' ↔ d = '-') := by
  have hascii : ∀ c : Char, c.toNat < 128 →
      value? c.toUpper = value? c ∧ (c.toUpper = '-' ↔ c = '-') ∧ c.toUpper.toNat < 128 := by
    have hall : ∀ i : Fin 128, value? (Char.ofNat i.val).toUpper = value? (Char.ofNat i.val) ∧
        ((Char.ofNat i.val).toUpper = '-' ↔ Char.ofNat i.val = '-') ∧
        (Char.ofNat i.val).toUpper.toNat < 128 := by decide +kernel
    intro c hc
    have hc' := hall ⟨c.toNat, hc⟩
    rw [Char.ofNat_toNat] at hc'
    exact hc'
  have hdsmall : d.toNat < 128 := by
    have hrange := hd.toNat
    omega
  obtain ⟨hdvalue, hddash, hdupper⟩ := hascii d hdsmall
  rw [casing.upper_ascii d hdsmall] at h
  have hcsmall : c.toNat < 128 := by
    by_contra hlarge
    have hother := casing.upper_other c (Nat.not_lt.mp hlarge)
    rw [h] at hother
    omega
  obtain ⟨hcvalue, hcdash, -⟩ := hascii c hcsmall
  rw [casing.upper_ascii c hcsmall] at h
  rw [← hcvalue, ← hdvalue, ← hcdash, ← hddash, h]
  exact ⟨rfl, Iff.rfl⟩

/-- Two texts with the same digits and dashes. -/
abbrev SameDigits : List Char → List Char → Prop :=
  List.Forall₂ fun c d => value? c = value? d ∧ (c = '-' ↔ d = '-')

theorem SameDigits.numberFrom? {a b : List Char} (h : SameDigits a b) (acc : Nat) :
    HexText.numberFrom? acc a = HexText.numberFrom? acc b := by
  induction h generalizing acc with
  | nil => rfl
  | cons hcd _ ih =>
    rw [HexText.numberFrom?, HexText.numberFrom?, hcd.1]
    simp only [ih]

theorem SameDigits.isGuidChar {a b : List Char} (h : SameDigits a b)
    (hb : ∀ c ∈ b, IsGuidChar c) : ∀ c ∈ a, IsGuidChar c := by
  induction h with
  | nil => exact fun c hc => absurd hc List.not_mem_nil
  | cons hcd _ ih =>
    obtain ⟨hd, hrest⟩ := List.forall_mem_cons.mp hb
    refine List.forall_mem_cons.mpr ⟨?_, ih hrest⟩
    rcases hd with hdigit | hdash
    · exact .inl (hcd.1 ▸ hdigit)
    · exact .inr (hcd.2.mpr hdash)

theorem tryParseHex_of_guidChars {text : List Char} (h : ∀ c ∈ text, IsGuidChar c) :
    tryParseHex text = number? text := by
  have hno : ∀ {c : Char}, ¬IsGuidChar c → c ∉ text := fun hc hmem => hc (h _ hmem)
  have hx : ¬IsGuidChar 'x' := by unfold IsGuidChar; decide
  have hX : ¬IsGuidChar 'X' := by unfold IsGuidChar; decide
  have hplus : ¬IsGuidChar '+' := by unfold IsGuidChar; decide
  have hpre : dropHexPrefix text = text := by
    unfold dropHexPrefix
    split
    · exact absurd (by simp) (hno hx)
    · exact absurd (by simp) (hno hX)
    · rfl
  unfold tryParseHex
  split
  · exact absurd (by simp) (hno hplus)
  · rw [hpre]

theorem SameDigits.tryParseHex {a b : List Char} (h : SameDigits a b)
    (hb : ∀ c ∈ b, IsGuidChar c) : Wallow.Api.tryParseHex a = Wallow.Api.tryParseHex b := by
  rw [tryParseHex_of_guidChars (h.isGuidChar hb), tryParseHex_of_guidChars hb]
  exact h.numberFrom? 0

theorem SameDigits.slice {a b : List Char} (h : SameDigits a b) (start length : Nat) :
    SameDigits (Wallow.Api.slice a start length) (Wallow.Api.slice b start length) :=
  List.forall₂_take length (List.forall₂_drop start h)

theorem SameDigits.getElem?_dash {a b : List Char} (h : SameDigits a b) (i : Nat) :
    a[i]? = some '-' ↔ b[i]? = some '-' := by
  induction h generalizing i with
  | nil => exact Iff.rfl
  | cons hcd _ ih =>
    cases i with
    | zero =>
      rw [List.getElem?_cons_zero, List.getElem?_cons_zero, Option.some.injEq, Option.some.injEq]
      exact hcd.2
    | succ i =>
      rw [List.getElem?_cons_succ, List.getElem?_cons_succ]
      exact ih i

theorem SameDigits.tryParseExactD {a b : List Char} (h : SameDigits a b)
    (hb : ∀ c ∈ b, IsGuidChar c) :
    Wallow.Api.tryParseExactD a = Wallow.Api.tryParseExactD b := by
  have hpart : ∀ start length, Wallow.Api.tryParseHex (Wallow.Api.slice a start length) =
      Wallow.Api.tryParseHex (Wallow.Api.slice b start length) := fun start length =>
    (h.slice start length).tryParseHex fun c hc =>
      hb c (List.mem_of_mem_drop (List.mem_of_mem_take hc))
  have hlast : number? (Wallow.Api.slice a 28 8) = number? (Wallow.Api.slice b 28 8) :=
    (h.slice 28 8).numberFrom? 0
  unfold Wallow.Api.tryParseExactD
  simp only [h.length_eq, h.getElem?_dash, hpart, hlast]

theorem trim_of_guidChars {text : List Char} (h : ∀ c ∈ text, IsGuidChar c) : trim text = text := by
  have hdrop : ∀ {text : List Char}, (∀ c ∈ text, IsGuidChar c) →
      text.dropWhile isWhiteSpace = text := by
    intro text htext
    cases text with
    | nil => rfl
    | cons c rest =>
      refine List.dropWhile_cons_of_neg ?_
      rw [(htext c List.mem_cons_self).not_isWhiteSpace]
      exact Bool.false_ne_true
  rw [trim, hdrop h, hdrop fun c hc => h c (List.mem_reverse.mp hc), List.reverse_reverse]

theorem tryParse_of_guidChars {text : List Char} (h : ∀ c ∈ text, IsGuidChar c)
    (hlength : text.length = 36) (hdash : text[8]? = some '-') :
    tryParse text = (tryParseExactD text).map (Fin.ofNat (2 ^ 128)) := by
  have hshort : ¬text.length < 32 := by omega
  have hopen : ∀ {c : Char}, ¬IsGuidChar c → text.head? ≠ some c := fun hc hhead =>
    hc (h _ (List.mem_of_head? hhead))
  have hparen : ¬IsGuidChar '(' := by unfold IsGuidChar; decide
  have hbrace : ¬IsGuidChar '{' := by unfold IsGuidChar; decide
  unfold tryParse
  rw [trim_of_guidChars h]
  dsimp only
  rw [if_neg hshort]
  split
  · exact absurd (by assumption) (hopen hparen)
  · exact absurd (by assumption) (hopen hbrace)
  · rw [if_pos hdash]

/-- A `D` text is read in either case, and has no other spelling without regard to case. -/
theorem OrdinalCasing.tryParse_of_equals {casing : OrdinalCasing} {text : String} {id : TenantId}
    (h : casing.equals text id.toString = true) : tryParse text.toList = some id := by
  rw [OrdinalCasing.equals, decide_eq_true_iff, OrdinalCasing.upperText, OrdinalCasing.upperText,
    toList_toString] at h
  have hsame : SameDigits text.toList id.chars := by
    have hupper : List.Forall₂ (fun c d => casing.upper c = casing.upper d) text.toList id.chars :=
      List.forall₂_map_left_iff.mp (List.forall₂_map_right_iff.mp (h ▸ List.forall₂_refl _))
    have hguid : ∀ d ∈ id.chars, IsGuidChar d := fun d hd => mem_chars hd
    refine (List.forall₂_iff_get.mpr ⟨hupper.length_eq, fun i hi hi' => ?_⟩)
    exact casing.sameDigit (hguid _ (List.get_mem _ _)) (hupper.get hi hi')
  have hguid : ∀ c ∈ id.chars, IsGuidChar c := fun c hc => mem_chars hc
  have hdash : id.chars[8]? = some '-' := by
    rw [TenantId.chars, List.getElem?_append_right (by simp)]
    simp
  have hlength : text.toList.length = 36 := hsame.length_eq.trans (chars_length id)
  rw [tryParse_of_guidChars (hsame.isGuidChar hguid) hlength ((hsame.getElem?_dash 8).mpr hdash),
    hsame.tryParseExactD hguid, ← tryParse_of_guidChars hguid (chars_length id) hdash,
    tryParse_chars]

end Wallow.Shared
