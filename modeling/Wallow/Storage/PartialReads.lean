import Wallow.Storage.UploadFile

/-!
# Rules that look at one read

The two rules on the content take what a single `ReadAsync` returns for the header.  A stream may
return less than was asked for, and then the rules judge less.
-/

namespace Wallow.Storage.UploadFileValidator

open ReadStream

/-! ## The rules over a header -/

def matchesSignature (signatures : List Bytes) (header : Bytes) : Bool :=
  decide ((signatures.map List.length).min?.getD 0 ≤ header.length) &&
    signatures.any (·.isPrefixOf header)

def trimmedHeader (header : Bytes) : Text :=
  (asciiLower header).dropWhile isWhiteSpace

def hasNoBlockedSignature (header : Bytes) : Bool :=
  decide (header.length < 2) || (!mzHeader.isPrefixOf header &&
    blockedTextSignatures.all fun blocked => !blocked.isPrefixOf (trimmedHeader header))

/-- What the two rules say about a header. -/
def verdictOf (contentType : Text) (header : Bytes) : Bool × Bool :=
  (match magicBytesByContentType.lookup contentType with
    | none => true
    | some signatures => matchesSignature signatures header,
  hasNoBlockedSignature header)

/-! ## The rules over what is delivered -/

def peekSome (content : Delivered UInt8) (count : Nat) : Bytes × Delivered UInt8 :=
  let originalPosition := if content.stream.canSeek then content.stream.position else 0
  let header := content.readSome count
  (header.1, if content.stream.canSeek then header.2.seek originalPosition else header.2)

def haveMatchingMagicBytesAsync (contentType : Text) (content : Delivered UInt8) :
    Bool × Delivered UInt8 :=
  match magicBytesByContentType.lookup contentType with
  | none => (true, content)
  | some signatures =>
    let header := peekSome content ((signatures.map List.length).foldl max 0)
    (matchesSignature signatures header.1, header.2)

def notContainBlockedSignatureAsync (content : Delivered UInt8) : Bool × Delivered UInt8 :=
  let header := peekSome content BLOCKED_SIGNATURE_MAX_BYTES
  (hasNoBlockedSignature header.1, header.2)

/-- Both rules, one after the other. -/
def contentRules (contentType : Text) (content : Delivered UInt8) :
    (Bool × Bool) × Delivered UInt8 :=
  let magic := haveMatchingMagicBytesAsync contentType content
  let blocked := notContainBlockedSignatureAsync magic.2
  ((magic.1, blocked.1), blocked.2)

/-! ## What a rule sees in the first bytes -/

/-- A signature starts the bytes and ends within this many. -/
def SignedWithin (signatures : List Bytes) (bytes : Bytes) (count : Nat) : Prop :=
  ∃ signature ∈ signatures, signature <+: bytes ∧ signature.length ≤ count

/-- How many blanks stand before the text. -/
def blanks (bytes : Bytes) : Nat :=
  ((asciiLower bytes).takeWhile isWhiteSpace).length

/-- A blocked signature starts the bytes, a text after its blanks, and ends within this many. -/
def BlockedWithin (bytes : Bytes) (count : Nat) : Prop :=
  (mzHeader <+: bytes ∧ mzHeader.length ≤ count) ∨
    ∃ blocked ∈ blockedTextSignatures, blocked <+: trimmedHeader bytes ∧
      blanks bytes + blocked.length ≤ count

theorem BlockedWithin.mono {bytes : Bytes} {count count' : Nat} (hle : count ≤ count')
    (h : BlockedWithin bytes count) : BlockedWithin bytes count' := by
  cases h with
  | inl hmz => exact .inl ⟨hmz.1, Nat.le_trans hmz.2 hle⟩
  | inr htext =>
    have ⟨blocked, hmem, hbegins, hend⟩ := htext
    exact .inr ⟨blocked, hmem, hbegins, Nat.le_trans hend hle⟩

theorem SignedWithin.mono {signatures : List Bytes} {bytes : Bytes} {count count' : Nat}
    (hle : count ≤ count') (h : SignedWithin signatures bytes count) :
    SignedWithin signatures bytes count' := by
  have ⟨signature, hmem, hbegins, hend⟩ := h
  exact ⟨signature, hmem, hbegins, Nat.le_trans hend hle⟩

/-- The check of the shortest length adds nothing. -/
theorem matchesSignature_iff {signatures : List Bytes} {header : Bytes} :
    matchesSignature signatures header = true ↔
      ∃ signature ∈ signatures, signature <+: header := by
  unfold matchesSignature
  rw [Bool.and_eq_true, decide_eq_true_eq, List.any_eq_true]
  constructor
  · intro ⟨_, signature, hmem, hbegins⟩
    exact ⟨signature, hmem, List.isPrefixOf_iff_prefix.mp hbegins⟩
  · intro ⟨signature, hmem, hbegins⟩
    have hmin := List.min?_getD_le_of_mem (k := 0) (List.mem_map_of_mem (f := List.length) hmem)
    have hlength := hbegins.length_le
    exact ⟨by omega, signature, hmem, List.isPrefixOf_iff_prefix.mpr hbegins⟩

theorem matchesSignature_take_iff {signatures : List Bytes} {bytes : Bytes} {count : Nat} :
    matchesSignature signatures (bytes.take count) = true ↔
      SignedWithin signatures bytes count := by
  rw [matchesSignature_iff]
  simp only [SignedWithin, List.prefix_take_iff]

/-- Blanks dropped from the first elements are dropped from all of them. -/
theorem dropWhile_take {α : Type} (p : α → Bool) (l : List α) (count : Nat) :
    (l.take count).dropWhile p = (l.dropWhile p).take (count - (l.takeWhile p).length) := by
  induction l generalizing count with
  | nil => simp
  | cons a l ih =>
    cases count with
    | zero => simp
    | succ count =>
      by_cases ha : p a = true
      · rw [List.take_succ_cons, List.dropWhile_cons_of_pos ha, List.dropWhile_cons_of_pos ha,
          List.takeWhile_cons_of_pos ha, ih, List.length_cons, Nat.add_sub_add_right]
      · rw [List.take_succ_cons, List.dropWhile_cons_of_neg ha, List.dropWhile_cons_of_neg ha,
          List.takeWhile_cons_of_neg ha, List.length_nil, Nat.sub_zero, List.take_succ_cons]

theorem prefix_trimmedHeader_take_iff {blocked : Text} (hne : blocked ≠ []) {bytes : Bytes}
    {count : Nat} : blocked <+: trimmedHeader (bytes.take count) ↔
      blocked <+: trimmedHeader bytes ∧ blanks bytes + blocked.length ≤ count := by
  have hpos : 0 < blocked.length := List.length_pos_iff.mpr hne
  have hlower : asciiLower (bytes.take count) = (asciiLower bytes).take count := List.map_take
  unfold trimmedHeader blanks
  rw [hlower, dropWhile_take, List.prefix_take_iff]
  exact and_congr_right fun _ => by omega

theorem two_le_of_prefix_trimmedHeader {blocked : Text} (hblocked : blocked ∈ blockedTextSignatures)
    {header : Bytes} (h : blocked <+: trimmedHeader header) : 2 ≤ header.length := by
  have hlong : ∀ t ∈ blockedTextSignatures, 2 ≤ t.length := by decide
  have hbegins := h.length_le
  have htrimmed := (List.dropWhile_suffix isWhiteSpace (l := asciiLower header)).length_le
  have hlower : (asciiLower header).length = header.length := List.length_map _
  have htext := hlong blocked hblocked
  unfold trimmedHeader at hbegins
  omega

theorem hasNoBlockedSignature_take_iff {bytes : Bytes} {count : Nat} :
    hasNoBlockedSignature (bytes.take count) = false ↔ BlockedWithin bytes count := by
  have hne : ∀ t ∈ blockedTextSignatures, t ≠ [] := by decide
  have hblocked : hasNoBlockedSignature (bytes.take count) = false ↔
      mzHeader <+: bytes.take count ∨
        ∃ blocked ∈ blockedTextSignatures, blocked <+: trimmedHeader (bytes.take count) := by
    unfold hasNoBlockedSignature
    rw [Bool.or_eq_false_iff, decide_eq_false_iff_not, Bool.and_eq_false_iff, Bool.not_eq_false',
      List.isPrefixOf_iff_prefix, List.all_eq_false]
    simp only [Bool.not_eq_true', Bool.not_eq_false, List.isPrefixOf_iff_prefix]
    refine and_iff_right_of_imp fun h => ?_
    -- a signature is longer than one byte
    cases h with
    | inl hmz =>
      have hlength := hmz.length_le
      have hmzLength : mzHeader.length = 2 := rfl
      omega
    | inr htext =>
      have ⟨blocked, hmem, hbegins⟩ := htext
      have hlong := two_le_of_prefix_trimmedHeader hmem hbegins
      omega
  rw [hblocked, List.prefix_take_iff]
  refine or_congr_right (exists_congr fun blocked => and_congr_right fun hmem => ?_)
  exact prefix_trimmedHeader_take_iff (hne blocked hmem)

/-! ## What one read decides -/

section Verdict

variable {contentType : Text} {content : Delivered UInt8}

/-- Each rule reads once, if it reads, and a stream that can seek is put back. -/
theorem peekSome_seekable (hseek : content.stream.canSeek = true) (count : Nat) :
    peekSome content count =
      ((content.readSome count).1, { content with calls := content.calls + 1 }) := by
  unfold peekSome
  rw [if_pos hseek]
  show ((content.readSome count).1, if _ then _ else _) = _
  rw [if_pos hseek, Delivered.seek_readSome]

/-- How many reads the magic rule makes. -/
def magicReads (contentType : Text) : Nat :=
  if (magicBytesByContentType.lookup contentType).isSome then 1 else 0

theorem contentRules_seekable (hseek : content.stream.canSeek = true) :
    contentRules contentType content =
      ((match magicBytesByContentType.lookup contentType with
        | none => true
        | some signatures => matchesSignature signatures (content.stream.rest.take
            (min ((signatures.map List.length).foldl max 0)
              (content.schedule.amount content.calls))),
        hasNoBlockedSignature (content.stream.rest.take (min BLOCKED_SIGNATURE_MAX_BYTES
          (content.schedule.amount (content.calls + magicReads contentType))))),
        { content with calls := content.calls + magicReads contentType + 1 }) := by
  unfold contentRules haveMatchingMagicBytesAsync notContainBlockedSignatureAsync magicReads
  cases hlookup : magicBytesByContentType.lookup contentType with
  | none =>
    dsimp only
    rw [peekSome_seekable hseek]
    rfl
  | some signatures =>
    have hagain : { content with calls := content.calls + 1 }.stream.canSeek = true := hseek
    dsimp only
    rw [peekSome_seekable hseek]
    dsimp only
    rw [peekSome_seekable hagain]
    rfl

theorem length_le_of_lookup {signatures : List Bytes}
    (h : magicBytesByContentType.lookup contentType = some signatures) :
    (signatures.map List.length).foldl max 0 ≤ BLOCKED_SIGNATURE_MAX_BYTES ∧
      ∀ signature ∈ signatures,
        signature.length ≤ (signatures.map List.length).foldl max 0 := by
  have htable : ∀ entry ∈ magicBytesByContentType,
      (entry.2.map List.length).foldl max 0 ≤ BLOCKED_SIGNATURE_MAX_BYTES ∧
        ∀ signature ∈ entry.2, signature.length ≤ (entry.2.map List.length).foldl max 0 := by
    decide
  have ⟨_, _, hentry⟩ := List.lookup_eq_some_iff.mp h
  exact htable (contentType, signatures) (by rw [hentry.1]; simp)

/-! ## Two deliveries -/

/-- The rules say of both deliveries what the first bytes deserve, and put both streams back. -/
structure Agree (contentType : Text) (stream : Stream UInt8) (first second : Schedule) : Prop where
  same : (contentRules contentType ⟨stream, first, 0⟩).1 =
    (contentRules contentType ⟨stream, second, 0⟩).1
  header : (contentRules contentType ⟨stream, first, 0⟩).1 =
    verdictOf contentType (stream.rest.take BLOCKED_SIGNATURE_MAX_BYTES)
  position : (contentRules contentType ⟨stream, first, 0⟩).2.stream.position = stream.position ∧
    (contentRules contentType ⟨stream, second, 0⟩).2.stream.position = stream.position

/-- The read of each rule goes to the end of a signature that the first bytes start with. -/
structure Reaches (contentType : Text) (bytes : Bytes) (schedule : Schedule) : Prop where
  magic : ∀ signatures, magicBytesByContentType.lookup contentType = some signatures →
    SignedWithin signatures bytes BLOCKED_SIGNATURE_MAX_BYTES →
      SignedWithin signatures bytes (schedule.amount 0)
  blocked : BlockedWithin bytes BLOCKED_SIGNATURE_MAX_BYTES →
    BlockedWithin bytes (schedule.amount (magicReads contentType))

theorem magic_right_iff {signatures : List Bytes} (bytes : Bytes) (amount : Nat)
    (h : magicBytesByContentType.lookup contentType = some signatures) :
    matchesSignature signatures
        (bytes.take (min ((signatures.map List.length).foldl max 0) amount)) =
      matchesSignature signatures (bytes.take BLOCKED_SIGNATURE_MAX_BYTES) ↔
    (SignedWithin signatures bytes BLOCKED_SIGNATURE_MAX_BYTES →
      SignedWithin signatures bytes amount) := by
  have ⟨hmax, hlengths⟩ := length_le_of_lookup h
  rw [Bool.eq_iff_iff, matchesSignature_take_iff, matchesSignature_take_iff]
  constructor
  · intro hsame hfull
    exact (hsame.mpr hfull).mono (Nat.min_le_right _ _)
  · intro hreach
    refine ⟨fun hpart => hpart.mono (Nat.le_trans (Nat.min_le_left _ _) hmax), fun hfull => ?_⟩
    have ⟨signature, hmem, hbegins, hend⟩ := hreach hfull
    exact ⟨signature, hmem, hbegins, Nat.le_min.mpr ⟨hlengths signature hmem, hend⟩⟩

theorem blocked_right_iff (bytes : Bytes) (amount : Nat) :
    hasNoBlockedSignature (bytes.take (min BLOCKED_SIGNATURE_MAX_BYTES amount)) =
      hasNoBlockedSignature (bytes.take BLOCKED_SIGNATURE_MAX_BYTES) ↔
    (BlockedWithin bytes BLOCKED_SIGNATURE_MAX_BYTES → BlockedWithin bytes amount) := by
  rw [← Bool.not_inj_iff, Bool.eq_iff_iff, Bool.not_eq_true', Bool.not_eq_true',
    hasNoBlockedSignature_take_iff, hasNoBlockedSignature_take_iff]
  constructor
  · intro hsame hfull
    exact (hsame.mpr hfull).mono (Nat.min_le_right _ _)
  · intro hreach
    refine ⟨fun hpart => hpart.mono (Nat.min_le_left _ _), fun hfull => ?_⟩
    by_cases hle : BLOCKED_SIGNATURE_MAX_BYTES ≤ amount
    · rw [Nat.min_eq_left hle]
      exact hfull
    · rw [Nat.min_eq_right (by omega)]
      exact hreach hfull

/-- One delivery is judged by the first bytes exactly when the reads reach far enough. -/
theorem verdict_right_iff {stream : Stream UInt8} (hseek : stream.canSeek = true)
    (schedule : Schedule) : (contentRules contentType ⟨stream, schedule, 0⟩).1 =
      verdictOf contentType (stream.rest.take BLOCKED_SIGNATURE_MAX_BYTES) ↔
        Reaches contentType stream.rest schedule := by
  have hreaches : Reaches contentType stream.rest schedule ↔
      (∀ signatures, magicBytesByContentType.lookup contentType = some signatures →
        SignedWithin signatures stream.rest BLOCKED_SIGNATURE_MAX_BYTES →
          SignedWithin signatures stream.rest (schedule.amount 0)) ∧
      (BlockedWithin stream.rest BLOCKED_SIGNATURE_MAX_BYTES →
        BlockedWithin stream.rest (schedule.amount (magicReads contentType))) :=
    ⟨fun h => ⟨h.magic, h.blocked⟩, fun h => ⟨h.1, h.2⟩⟩
  rw [hreaches, ← blocked_right_iff, @contentRules_seekable contentType ⟨stream, schedule, 0⟩ hseek]
  unfold verdictOf
  rw [Prod.mk.injEq, Nat.zero_add]
  refine and_congr_left fun _ => ?_
  cases hlookup : magicBytesByContentType.lookup contentType with
  | none => exact iff_of_true rfl fun _ h => nomatch h
  | some signatures =>
    rw [magic_right_iff stream.rest (schedule.amount 0) hlookup]
    constructor
    · intro h other hother
      exact Option.some.inj hother ▸ h
    · intro h
      exact h signatures rfl

/-- Two deliveries of the same bytes are judged alike, and by the first bytes, exactly when the
reads of both reach the end of a signature that stands there. -/
theorem agree_iff (contentType : Text) (bytes : Bytes) (position : Nat)
    (first second : Schedule) : Agree contentType ⟨bytes, position, true⟩ first second ↔
      Reaches contentType (bytes.drop position) first ∧
        Reaches contentType (bytes.drop position) second := by
  have hfirst := @verdict_right_iff contentType ⟨bytes, position, true⟩ rfl first
  have hsecond := @verdict_right_iff contentType ⟨bytes, position, true⟩ rfl second
  constructor
  · intro h
    exact ⟨hfirst.mp h.header, hsecond.mp (h.same.symm.trans h.header)⟩
  · intro ⟨hreaches, hreaches'⟩
    refine ⟨(hfirst.mpr hreaches).trans (hsecond.mpr hreaches').symm, hfirst.mpr hreaches, ?_⟩
    constructor
    · rw [contentRules_seekable rfl]
    · rw [contentRules_seekable rfl]

/-- An executable that comes byte by byte passes. -/
theorem executable_passes_byte_by_byte :
    ¬Agree (text "application/octet-stream") (Stream.opened [0x4D, 0x5A, 0x90, 0x00])
      ⟨fun _ => 1, fun _ => Nat.one_pos⟩ ⟨fun _ => 16, fun _ => by decide⟩ := by
  intro h
  exact absurd h.same (by decide +kernel)

end Verdict

end Wallow.Storage.UploadFileValidator
