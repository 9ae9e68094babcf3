import Wallow.Api.GuidText
import Mathlib.Data.List.Nodup

/-!
# Web push signing keys

The key list of a tenant, `WebPushCredentials`, and which list may replace which.
-/

namespace Wallow.Notifications

structure WebPushSigningKey where
  id : String
  publicKey : String
  privateKey : Option String
  retired : Bool
  deriving DecidableEq

structure WebPushCredentials where
  subject : String
  currentKeyId : Option String
  keys : List WebPushSigningKey
  deriving DecidableEq

structure Uri where
  scheme : String
  userInfo : String
  host : String
  deriving DecidableEq

/-- What the framework gives: absolute URIs, base64url, the curve P-256, JSON and data protection.
A `none` stands for the exception or for the null the caller gets. -/
structure PushPlatformHost where
  tryCreateUri : String → Option Uri
  decodeFromChars : String → Option (List UInt8)
  encodeToString : List UInt8 → String
  /-- `ECDsa.Create` with the public point alone. -/
  imports : List UInt8 → Bool
  /-- `ECDsa.Create` with the private key, and its signature verified with the public point. -/
  signs : List UInt8 → Option String → Bool
  parse : String → Option WebPushCredentials
  decrypt : String → Option String

def isNullOrWhiteSpace (text : String) : Bool := text.toList.all Api.isWhiteSpace

/-- `string.Length`, in UTF-16 code units. -/
def utf16Length (text : String) : Nat :=
  (text.toList.map fun c => if c.toNat < 0x10000 then 1 else 2).sum

namespace WebPushCredentials

section Valid

variable (host : PushPlatformHost)

def subjectValid (subject : String) : Bool :=
  match host.tryCreateUri subject with
  | none => false
  | some uri =>
    (uri.scheme = "mailto" || uri.scheme = "https") &&
      !(uri.scheme = "mailto" && (isNullOrWhiteSpace uri.userInfo || isNullOrWhiteSpace uri.host))

/-- The body of the `foreach` over the keys. -/
def keyUsable (key : WebPushSigningKey) : Bool :=
  !(key.retired && key.privateKey.isSome) &&
    match host.decodeFromChars key.publicKey with
    | none => false
    | some publicKey =>
      publicKey.length = 65 && publicKey.head? = some 4 &&
        host.encodeToString publicKey = key.publicKey && host.imports publicKey &&
        (key.retired || host.signs publicKey key.privateKey)

/-- `CurrentKeyId` is null or names a key that is not retired. -/
def currentValid (c : WebPushCredentials) : Bool :=
  match c.currentKeyId with
  | none => true
  | some current => c.keys.any fun key => key.id = current && !key.retired

def isValid (c : WebPushCredentials) : Bool :=
  subjectValid host c.subject && !c.keys.isEmpty &&
    (c.keys.all fun key => !isNullOrWhiteSpace key.id && utf16Length key.id ≤ 100) &&
    (c.keys.map (·.id)).Nodup && (c.keys.map (·.publicKey)).Nodup && c.currentValid &&
    c.keys.all (keyUsable host)

/-- Every key of `previous` is there, with its public key, and retired if it was. -/
def keepsKeys (c previous : WebPushCredentials) : Bool :=
  previous.keys.all fun old => c.keys.any fun key =>
    key.id = old.id && key.publicKey = old.publicKey && (!old.retired || key.retired)

def isValidReplacementFor (c : WebPushCredentials) (previous : Option WebPushCredentials) : Bool :=
  c.isValid host && previous.all c.keepsKeys

end Valid

/-! ## Successive key lists -/

/-- No key id of `p` is lost in `n`, changes its public key or stops being retired. -/
def Advances (p n : WebPushCredentials) : Prop :=
  ∀ old ∈ p.keys, ∃ key ∈ n.keys, key.id = old.id ∧ key.publicKey = old.publicKey ∧
    (old.retired = true → key.retired = true)

variable {host : PushPlatformHost} {c p n : WebPushCredentials}

theorem keepsKeys_iff : n.keepsKeys p = true ↔ Advances p n := by
  simp only [keepsKeys, Advances, List.all_eq_true, List.any_eq_true, Bool.and_eq_true,
    Bool.or_eq_true, Bool.not_eq_true', decide_eq_true_eq, and_assoc]
  constructor
  · intro h old hold
    obtain ⟨key, hkey, hid, hpublic, hretired⟩ := h old hold
    refine ⟨key, hkey, hid, hpublic, fun hr => ?_⟩
    rw [hr] at hretired
    exact hretired.resolve_left nofun
  · intro h old hold
    obtain ⟨key, hkey, hid, hpublic, hretired⟩ := h old hold
    refine ⟨key, hkey, hid, hpublic, ?_⟩
    cases hr : old.retired with
    | false => exact .inl rfl
    | true => exact .inr (hretired hr)

theorem Advances.refl (c : WebPushCredentials) : Advances c c :=
  fun old hold => ⟨old, hold, rfl, rfl, id⟩

theorem Advances.trans (h : Advances c p) (h' : Advances p n) : Advances c n := by
  intro old hold
  obtain ⟨key, hkey, hid, hpublic, hretired⟩ := h old hold
  obtain ⟨key', hkey', hid', hpublic', hretired'⟩ := h' key hkey
  exact ⟨key', hkey', hid'.trans hid, hpublic'.trans hpublic, fun hr => hretired' (hretired hr)⟩

/-! ## What a valid list gives -/

theorem isValid_iff : c.isValid host = true ↔
    subjectValid host c.subject = true ∧ c.keys ≠ [] ∧
    (∀ key ∈ c.keys, isNullOrWhiteSpace key.id = false ∧ utf16Length key.id ≤ 100) ∧
    (c.keys.map (·.id)).Nodup ∧ (c.keys.map (·.publicKey)).Nodup ∧ c.currentValid = true ∧
    ∀ key ∈ c.keys, keyUsable host key = true := by
  simp only [isValid, Bool.and_eq_true, Bool.not_eq_true', List.all_eq_true, decide_eq_true_eq,
    List.isEmpty_eq_false_iff, and_assoc]

theorem currentValid_iff : c.currentValid = true ↔
    ∀ current, c.currentKeyId = some current →
      ∃ key ∈ c.keys, key.id = current ∧ key.retired = false := by
  unfold currentValid
  cases c.currentKeyId with
  | none => simp
  | some current => simp

theorem privateKey_of_retired {key : WebPushSigningKey} (hvalid : c.isValid host = true)
    (hkey : key ∈ c.keys) (hretired : key.retired = true) : key.privateKey = none := by
  have husable := (isValid_iff.mp hvalid).2.2.2.2.2.2 key hkey
  simp only [keyUsable, hretired, Bool.true_and, Bool.and_eq_true, Bool.not_eq_true',
    Option.isSome_eq_false_iff, Option.isNone_iff_eq_none] at husable
  exact husable.1

/-- The keys with the id of a retired key are that key. -/
theorem retired_of_id {key key' : WebPushSigningKey} (hvalid : c.isValid host = true)
    (hkey : key ∈ c.keys) (hretired : key.retired = true) (hkey' : key' ∈ c.keys)
    (hid : key'.id = key.id) : key'.retired = true ∧ key'.privateKey = none := by
  have hsame : key' = key :=
    List.inj_on_of_nodup_map (isValid_iff.mp hvalid).2.2.2.1 hkey' hkey hid
  rw [hsame]
  exact ⟨hretired, privateKey_of_retired hvalid hkey hretired⟩

/-! ## Retirement -/

/-- The `with` expression of one key. -/
def retireKey (keyId : String) (key : WebPushSigningKey) : WebPushSigningKey :=
  if key.id = keyId then { key with retired := true, privateKey := none } else key

/-- The list `RetireAsync` saves. -/
def retire (c : WebPushCredentials) (keyId : String) : WebPushCredentials :=
  { c with
    currentKeyId := if c.currentKeyId = some keyId then none else c.currentKeyId
    keys := c.keys.map (retireKey keyId) }

@[simp] theorem retireKey_id (keyId : String) (key : WebPushSigningKey) :
    (retireKey keyId key).id = key.id := by
  unfold retireKey
  split <;> rfl

@[simp] theorem retireKey_publicKey (keyId : String) (key : WebPushSigningKey) :
    (retireKey keyId key).publicKey = key.publicKey := by
  unfold retireKey
  split <;> rfl

theorem retireKey_retired {keyId : String} {key : WebPushSigningKey}
    (h : key.retired = true) : (retireKey keyId key).retired = true := by
  unfold retireKey
  split
  · rfl
  · exact h

theorem keyUsable_retireKey {keyId : String} {key : WebPushSigningKey}
    (h : keyUsable host key = true) : keyUsable host (retireKey keyId key) = true := by
  unfold retireKey
  split
  · unfold keyUsable at h ⊢
    cases hdecoded : host.decodeFromChars key.publicKey with
    | none => simp [hdecoded] at h
    | some publicKey =>
      simp only [hdecoded, Bool.and_eq_true, decide_eq_true_eq] at h
      simp [h]
  · exact h

theorem retire_advances (c : WebPushCredentials) (keyId : String) : Advances c (c.retire keyId) :=
  fun old hold => ⟨retireKey keyId old, List.mem_map_of_mem hold, retireKey_id keyId old,
    retireKey_publicKey keyId old, retireKey_retired⟩

/-- Retiring a key of a valid list leaves a valid list, although the code does not ask again. -/
theorem retire_isValid (keyId : String) (h : c.isValid host = true) :
    (c.retire keyId).isValid host = true := by
  obtain ⟨hsubject, hne, hids, hnodup, hpublic, hcurrent, husable⟩ := isValid_iff.mp h
  refine isValid_iff.mpr ⟨hsubject, ?_, ?_, ?_, ?_, ?_, ?_⟩
  · simpa [retire] using hne
  · simp only [retire, List.forall_mem_map, retireKey_id]
    exact hids
  · simpa [retire, Function.comp_def] using hnodup
  · simpa [retire, Function.comp_def] using hpublic
  · rw [currentValid_iff] at hcurrent ⊢
    intro current hcur
    simp only [retire] at hcur
    split at hcur
    · cases hcur
    · rename_i hother
      obtain ⟨key, hkey, hid, hretired⟩ := hcurrent current hcur
      refine ⟨retireKey keyId key, List.mem_map_of_mem hkey, by rw [retireKey_id, hid], ?_⟩
      -- the current key is not the one that is retired
      have hne : key.id ≠ keyId := by
        rintro rfl
        exact hother (by rw [hcur, hid])
      rw [retireKey, if_neg hne, hretired]
  · simp only [retire, List.forall_mem_map]
    exact fun key hkey => keyUsable_retireKey (husable key hkey)

theorem retire_retires {keyId : String} (h : c.keys.any (·.id = keyId) = true) :
    ∃ key ∈ (c.retire keyId).keys, key.id = keyId ∧ key.retired = true := by
  simp only [List.any_eq_true, decide_eq_true_eq] at h
  obtain ⟨key, hkey, hid⟩ := h
  refine ⟨retireKey keyId key, List.mem_map_of_mem hkey, by rw [retireKey_id, hid], ?_⟩
  rw [retireKey, if_pos hid]

end WebPushCredentials

end Wallow.Notifications
