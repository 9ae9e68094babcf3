import Wallow.Bff.ClientAddress
import Wallow.Lib.JsonText
import Mathlib.Data.List.Infix

/-!
# Scrubbing what is logged

`redact` of `errors.ts` on values that JSON can write.  `toLowerCase` is the lower case of the
runtime.
-/

namespace Wallow.Bff.Redaction

def REDACTED : String := "[redacted]"

/-- Member names whose values are always credentials, whatever they contain. -/
def SENSITIVE_MEMBERS : List String := ["authorization", "cookie", "set-cookie", "password"]

/-- Member name fragments that mark a value as a credential. -/
def SENSITIVE_MEMBER_FRAGMENTS : List String := ["token", "secret"]

def includes (text fragment : String) : Bool :=
  text.toList.tails.any fragment.toList.isPrefixOf

/-- `/^bearer\s+\S/iu`. -/
def bearerPrefix (text : List Char) : Bool :=
  (text.take 6).map Char.toLower = "bearer".toList &&
    (text.drop 6).head?.any isSpace && (text.drop 6).any fun c => !isSpace c

/-- `[A-Za-z0-9_-]{8,}`. -/
def isTokenSegment (text : List Char) : Bool :=
  8 ≤ text.length && text.all fun c => c.isAlphanum || c = '_' || c = '-'

/-- `/^[A-Za-z0-9_-]{8,}\.[A-Za-z0-9_-]{8,}\.[A-Za-z0-9_-]{8,}$/u`. -/
def jwtShape (text : List Char) : Bool :=
  match SplitText.split '.' text with
  | [header, payload, signature] =>
    isTokenSegment header && isTokenSegment payload && isTokenSegment signature
  | _ => false

def isTokenShaped (value : String) : Bool :=
  bearerPrefix value.toList || jwtShape value.toList

/-- The name that sets the prototype of an object when it is assigned. -/
def PROTO : String := "__proto__"

section

variable (toLowerCase : String → String)

def isSensitiveMember (member : String) : Bool :=
  let normalized := toLowerCase member
  SENSITIVE_MEMBERS.contains normalized ||
    SENSITIVE_MEMBER_FRAGMENTS.any fun fragment => includes normalized fragment

mutual

def redact : Json → Json
  | .array items => .array (redactItems items)
  | .object fields => .object (redactFields fields)
  | .string value => .string (if isTokenShaped value then REDACTED else value)
  | .null => .null
  | .bool value => .bool value
  | .number literal => .number literal

def redactItems : List Json → List Json
  | [] => []
  | item :: rest => redact item :: redactItems rest

/-- The members assigned to the copy in turn.  Their names differ, so that each is a new member;
only the assignment to `__proto__` makes none. -/
def redactFields : List (String × Json) → List (String × Json)
  | [] => []
  | (member, memberValue) :: rest =>
    if member = PROTO then redactFields rest
    else
      (member, if isSensitiveMember toLowerCase member then .string REDACTED
        else redact memberValue) :: redactFields rest

end

/-! ## What a scrubbed copy is -/

/-- A text with a bearer credential or a token in it. -/
def containsCredential (value : String) : Bool :=
  value.toList.tails.any fun suffix => bearerPrefix suffix || suffix.inits.any jwtShape

mutual

/-- A copy of the same shape, whose sensitive members are replaced, in which no text has a
credential in it, and whose other leaves are those of the value. -/
def Scrubs : Json → Json → Prop
  | .array items, .array copies => ScrubsItems items copies
  | .object fields, .object copies => ScrubsFields fields copies
  | .string value, .string copy =>
    containsCredential copy = false ∧ (containsCredential value = false → copy = value)
  | .null, .null => True
  | .bool value, .bool copy => copy = value
  | .number literal, .number copy => copy = literal
  | _, _ => False

def ScrubsItems : List Json → List Json → Prop
  | [], [] => True
  | item :: rest, copy :: copies => Scrubs item copy ∧ ScrubsItems rest copies
  | _, _ => False

def ScrubsFields : List (String × Json) → List (String × Json) → Prop
  | [], [] => True
  | (member, value) :: rest, (name, copy) :: copies =>
    name = member ∧
      (if isSensitiveMember toLowerCase member then copy = .string REDACTED
        else Scrubs value copy) ∧
      ScrubsFields rest copies
  | _, _ => False

end

mutual

/-- No member is named `__proto__`, and every text with a credential in it starts with a bearer
credential or is a token, but for what stands below a sensitive member. -/
def Recognizable : Json → Prop
  | .array items => RecognizableItems items
  | .object fields => RecognizableFields fields
  | .string value => containsCredential value → isTokenShaped value
  | _ => True

def RecognizableItems : List Json → Prop
  | [] => True
  | item :: rest => Recognizable item ∧ RecognizableItems rest

def RecognizableFields : List (String × Json) → Prop
  | [] => True
  | (member, value) :: rest =>
    member ≠ PROTO ∧ (isSensitiveMember toLowerCase member ∨ Recognizable value) ∧
      RecognizableFields rest

end

theorem containsCredential_of_tokenShaped {value : String} (h : isTokenShaped value) :
    containsCredential value := by
  have hself : value.toList ∈ value.toList.tails := (List.mem_tails _ _).mpr (List.suffix_refl _)
  refine List.any_eq_true.mpr ⟨value.toList, hself, ?_⟩
  rcases Bool.or_eq_true_iff.mp h with hbearer | hjwt
  · rw [hbearer]
    rfl
  · have hwhole : value.toList ∈ value.toList.inits := (List.mem_inits _ _).mpr (List.prefix_refl _)
    rw [List.any_eq_true.mpr ⟨value.toList, hwhole, hjwt⟩, Bool.or_true]

theorem redacted_not_tokenShaped : isTokenShaped REDACTED = false := by decide +kernel

theorem redacted_no_credential : containsCredential REDACTED = false := by decide +kernel

/-- A scrubbed copy has the member names of the value. -/
theorem ScrubsFields.names {fields copies : List (String × Json)}
    (h : ScrubsFields toLowerCase fields copies) :
    copies.map Prod.fst = fields.map Prod.fst := by
  induction fields generalizing copies with
  | nil =>
    cases copies with
    | nil => rfl
    | cons copy copies => simp only [ScrubsFields] at h
  | cons field rest ih =>
    cases copies with
    | nil => simp only [ScrubsFields] at h
    | cons copy copies =>
      obtain ⟨member, value⟩ := field
      obtain ⟨name, copy⟩ := copy
      simp only [ScrubsFields] at h
      rw [List.map_cons, List.map_cons, h.1, ih h.2.2]

theorem length_redactFields_le (fields : List (String × Json)) :
    (redactFields toLowerCase fields).length ≤ fields.length := by
  induction fields with
  | nil => simp only [redactFields, List.length_nil, Nat.le_refl]
  | cons field rest ih =>
    obtain ⟨member, value⟩ := field
    rw [redactFields]
    split
    · exact Nat.le_succ_of_le ih
    · exact Nat.succ_le_succ ih

theorem scrubs_string_iff (value : String) :
    Scrubs toLowerCase (.string value) (redact toLowerCase (.string value)) ↔
      Recognizable toLowerCase (.string value) := by
  rw [redact, Scrubs, Recognizable]
  by_cases hshaped : isTokenShaped value = true
  · rw [if_pos hshaped]
    have hcontains := containsCredential_of_tokenShaped hshaped
    refine iff_of_true ⟨redacted_no_credential, fun h => ?_⟩ fun _ => hshaped
    rw [hcontains] at h
    cases h
  · rw [if_neg hshaped]
    constructor
    · rintro ⟨hclean, -⟩ hcontains
      rw [hclean] at hcontains
      cases hcontains
    · intro h
      exact ⟨Bool.eq_false_iff.mpr fun hcontains => hshaped (h hcontains), fun _ => rfl⟩

mutual

/-- `redact` makes a scrubbed copy exactly of the values whose credentials it recognizes. -/
theorem scrubs_redact_iff : (value : Json) →
    (Scrubs toLowerCase value (redact toLowerCase value) ↔ Recognizable toLowerCase value)
  | .array items => by
    rw [redact, Scrubs, Recognizable]
    exact scrubs_redactItems_iff items
  | .object fields => by
    rw [redact, Scrubs, Recognizable]
    exact scrubs_redactFields_iff fields
  | .string value => scrubs_string_iff toLowerCase value
  | .null => by simp only [redact, Scrubs, Recognizable]
  | .bool value => by simp only [redact, Scrubs, Recognizable]
  | .number literal => by simp only [redact, Scrubs, Recognizable]

theorem scrubs_redactItems_iff : (items : List Json) →
    (ScrubsItems toLowerCase items (redactItems toLowerCase items) ↔
      RecognizableItems toLowerCase items)
  | [] => by simp only [redactItems, ScrubsItems, RecognizableItems]
  | item :: rest => by
    rw [redactItems, ScrubsItems, RecognizableItems, scrubs_redact_iff item,
      scrubs_redactItems_iff rest]

theorem scrubs_redactFields_iff : (fields : List (String × Json)) →
    (ScrubsFields toLowerCase fields (redactFields toLowerCase fields) ↔
      RecognizableFields toLowerCase fields)
  | [] => by simp only [redactFields, ScrubsFields, RecognizableFields]
  | (member, value) :: rest => by
    rw [redactFields, RecognizableFields]
    by_cases hproto : member = PROTO
    · -- a copy without the member is too short
      rw [if_pos hproto]
      refine iff_of_false (fun h => ?_) (fun h => h.1 hproto)
      have hlength := congrArg List.length (ScrubsFields.names toLowerCase h)
      rw [List.length_map, List.length_map, List.length_cons] at hlength
      have hshort := length_redactFields_le toLowerCase rest
      omega
    · rw [if_neg hproto, ScrubsFields, scrubs_redactFields_iff rest]
      by_cases hsensitive : isSensitiveMember toLowerCase member = true
      · simp only [hsensitive, if_true, true_and, true_or, ne_eq, hproto, not_false_eq_true]
      · simp only [hsensitive, Bool.false_eq_true, if_false, true_and, false_or, ne_eq, hproto,
          not_false_eq_true, scrubs_redact_iff value]

end

mutual

theorem redact_redact : (value : Json) →
    redact toLowerCase (redact toLowerCase value) = redact toLowerCase value
  | .array items => by rw [redact, redact, redactItems_redactItems items]
  | .object fields => by rw [redact, redact, redactFields_redactFields fields]
  | .string value => by
    rw [redact, redact]
    by_cases hshaped : isTokenShaped value = true
    · rw [if_pos hshaped, redacted_not_tokenShaped, if_neg Bool.false_ne_true]
    · rw [if_neg hshaped, if_neg hshaped]
  | .null => by rw [redact, redact]
  | .bool value => by rw [redact, redact]
  | .number literal => by rw [redact, redact]

theorem redactItems_redactItems : (items : List Json) →
    redactItems toLowerCase (redactItems toLowerCase items) = redactItems toLowerCase items
  | [] => by rw [redactItems, redactItems]
  | item :: rest => by
    rw [redactItems, redactItems, redact_redact item, redactItems_redactItems rest]

theorem redactFields_redactFields : (fields : List (String × Json)) →
    redactFields toLowerCase (redactFields toLowerCase fields) = redactFields toLowerCase fields
  | [] => by rw [redactFields, redactFields]
  | (member, value) :: rest => by
    rw [redactFields]
    by_cases hproto : member = PROTO
    · rw [if_pos hproto]
      exact redactFields_redactFields rest
    · rw [if_neg hproto, redactFields, if_neg hproto, redactFields_redactFields rest]
      by_cases hsensitive : isSensitiveMember toLowerCase member = true
      · rw [if_pos hsensitive, if_pos hsensitive]
      · rw [if_neg hsensitive, if_neg hsensitive, redact_redact value]

end

/-- Exactly of the values whose credentials it recognizes `redact` makes a scrubbed copy that a
second run leaves as it is. -/
theorem redact_scrubs_iff (value : Json) :
    (Scrubs toLowerCase value (redact toLowerCase value) ∧
      redact toLowerCase (redact toLowerCase value) = redact toLowerCase value) ↔
      Recognizable toLowerCase value := by
  rw [scrubs_redact_iff]
  exact and_iff_left (redact_redact toLowerCase value)

end

/-- A bearer credential behind other text stays, and a member `__proto__` goes. -/
theorem redact_misses :
    ¬Scrubs String.toLower (.object [("detail", .string "sent Bearer abc")])
        (redact String.toLower (.object [("detail", .string "sent Bearer abc")])) ∧
      ¬Scrubs String.toLower (.object [("__proto__", .object [])])
        (redact String.toLower (.object [("__proto__", .object [])])) := by
  constructor
  · intro h
    have hcontains := ((scrubs_redact_iff String.toLower _).mp h).2.1.resolve_left
      (by decide +kernel)
    rw [Recognizable] at hcontains
    exact absurd (hcontains (by decide +kernel)) (by decide +kernel)
  · intro h
    exact absurd rfl ((scrubs_redact_iff String.toLower _).mp h).1

end Wallow.Bff.Redaction
