import Wallow.Telemetry.FaroSanitizer

/-!
# Whose telemetry is forwarded

What a page posts and what the relay forwards: the entries that say who the user is come from the
session, in every record, whatever the names and the texts of the batch are.
-/

namespace Wallow.Telemetry

open Js Privacy

/-! ## What the sanitizer leaves -/

namespace Sanitizer

variable {ν Ref : Type} {P : Platform ν} {now : String} {heap : Heap ν Ref}

/-- Attributes within the limit, of which those with an excluded name say nothing. -/
def Cleaned (attributes : List (String × Json)) : Prop :=
  attributes.length ≤ BROWSER_LIMITS.attributes ∧ ∀ a ∈ attributes, EntryRedacted a

theorem mem_hexField {key : String} {n : Nat} {value : Value ν Ref} {field : String × Json}
    (h : field ∈ hexField key n value) : field.1 = key := by
  unfold hexField at h
  split at h
  · split at h
    · exact congrArg Prod.fst (List.mem_singleton.mp h)
    · exact absurd h List.not_mem_nil
  · exact absurd h List.not_mem_nil

theorem mem_numberField {key : String} {value : Value ν Ref} {field : String × Json}
    (h : field ∈ numberField P key value) : field.1 = key := by
  unfold numberField at h
  split at h
  · exact congrArg Prod.fst (List.mem_singleton.mp h)
  · exact absurd h List.not_mem_nil

/-- What is made sure of in every record. -/
structure Rebuilt (r : FaroRecord) : Prop where
  attributes : ∀ a ∈ r.attributes, EntryRedacted a
  values : ∀ values, ("values", Json.object values) ∈ r.fields →
    values.length ≤ BROWSER_LIMITS.attributes
  events : ∀ events, ("events", Json.array events) ∈ r.fields →
    ∀ e ∈ events, ∃ attributes, e.get "attributes" = some (otlpJson attributes) ∧
      Cleaned attributes

theorem measured_length (values : List (String × Value ν Ref)) :
    (measured P values).length ≤ BROWSER_LIMITS.attributes :=
  Nat.le_trans (length_fromEntries_le _)
    (Nat.le_trans (List.length_filterMap_le _ _) (List.length_take_le _ _))

theorem bounded_rebuilt {toJson : FaroRecord → Json} {source : Value ν Ref}
    {transform : List (String × Value ν Ref) → FaroRecord}
    (h : ∀ item, Rebuilt (transform item)) :
    ∀ r ∈ (bounded heap toJson source transform).1, Rebuilt r := by
  intro r hr
  have ⟨item, _, hitem⟩ := List.mem_map.mp (List.mem_filter.mp hr).1
  rw [← hitem]
  exact h _

variable [DecidableEq Ref]

theorem context_cleaned (value : Value ν Ref) : Cleaned (context P heap value) := by
  have ⟨_, hlength, hnames⟩ :=
    sanitizeAttributes_spec P.numbers P.hosts heap value
  refine ⟨?_, fun a ha => ?_⟩
  · apply Nat.le_trans (length_fromEntries_le _)
    rw [List.length_map]
    exact hlength
  · have ⟨field, hfield, ha⟩ := List.mem_map.mp (mem_fromEntries ha)
    rw [← ha]
    intro hname
    have hmark : field.2 = redactedText := (hnames field hfield).redacted hname
    show Json.string _ = redactedText
    rw [hmark]
    rfl

theorem otlpAttributes_cleaned (value : Value ν Ref) :
    Cleaned (otlpAttributes P heap value) :=
  context_cleaned _

theorem log_rebuilt (item : List (String × Value ν Ref)) : Rebuilt (log P now heap item) where
  attributes := (context_cleaned _).2
  values := fun values h => by simp [log] at h
  events := fun events h => by simp [log] at h

theorem exception_rebuilt (item : List (String × Value ν Ref)) :
    Rebuilt (exception P now heap item) where
  attributes := (context_cleaned _).2
  values := fun values h => by simp [exception] at h
  events := fun events h => by simp [exception] at h

theorem measurement_rebuilt (item : List (String × Value ν Ref)) :
    Rebuilt (measurement P now heap item) where
  attributes := (context_cleaned _).2
  values := fun values h => by
    have hvalues : values = measured P (record heap (member item "values")) := by
      simpa [measurement] using h
    rw [hvalues]
    exact measured_length _
  events := fun events h => by simp [measurement] at h

theorem event_rebuilt (item : List (String × Value ν Ref)) : Rebuilt (event P now heap item) where
  attributes := (context_cleaned _).2
  values := fun values h => by simp [event] at h
  events := fun events h => by simp [event] at h

/-- A field of a span is one of those with identifiers and numbers, or one of these. -/
theorem mem_span_fields {item : List (String × Value ν Ref)} {field : String × Json}
    (h : field ∈ (span P heap item).fields) :
    field.1 = "traceId" ∨ field.1 = "spanId" ∨ field.1 = "parentSpanId" ∨ field.1 = "kind" ∨
      field ∈ [("name", .string (name (member item "name") "browser.operation")),
        ("startTimeUnixNano", .string (nano (member item "startTimeUnixNano"))),
        ("endTimeUnixNano", .string (nano (member item "endTimeUnixNano"))),
        ("events", .array ((list heap (member item "events")).map (spanEvent P heap))),
        ("status", .object
          (numberField P "code" (member (record heap (member item "status")) "code")))] := by
  rw [span, List.mem_append, List.mem_append, List.mem_append, List.mem_append, List.mem_append]
    at h
  rcases h with ((((h | h) | h) | h) | h) | h
  · exact Or.inl (mem_hexField h)
  · exact Or.inr (Or.inl (mem_hexField h))
  · exact Or.inr (Or.inr (Or.inl (mem_hexField h)))
  · rw [List.mem_singleton.mp h]
    exact Or.inr (Or.inr (Or.inr (Or.inr List.mem_cons_self)))
  · exact Or.inr (Or.inr (Or.inr (Or.inl (mem_numberField h))))
  · exact Or.inr (Or.inr (Or.inr (Or.inr (List.mem_cons_of_mem _ h))))

theorem span_rebuilt (item : List (String × Value ν Ref)) : Rebuilt (span P heap item) where
  attributes := (otlpAttributes_cleaned _).2
  values := fun values h => by
    have hfield := mem_span_fields h
    simp at hfield
  events := fun events h => by
    have hfield := mem_span_fields h
    have hevents : events = (list heap (member item "events")).map (spanEvent P heap) := by
      simpa using hfield
    rw [hevents]
    intro e he
    have ⟨value, _, hvalue⟩ := List.mem_map.mp he
    rw [← hvalue]
    exact ⟨_, rfl, otlpAttributes_cleaned _⟩

theorem sanitizeFaroBatch_rebuilt (input : Value ν Ref) :
    ∀ r ∈ (sanitizeFaroBatch P now heap input).1.records, Rebuilt r := by
  intro r hr
  rw [FaroBatch.records, List.mem_append, List.mem_append, List.mem_append, List.mem_append] at hr
  rcases hr with (((hr | hr) | hr) | hr) | hr
  · exact bounded_rebuilt log_rebuilt r hr
  · exact bounded_rebuilt exception_rebuilt r hr
  · exact bounded_rebuilt measurement_rebuilt r hr
  · exact bounded_rebuilt event_rebuilt r hr
  · obtain ⟨spans, hspans, hspan⟩ := List.mem_flatten.mp hr
    obtain ⟨scopes, hscopes, hscope⟩ := List.mem_flatten.mp hspans
    obtain ⟨resource, hresource, hresources⟩ := List.mem_map.mp hscopes
    obtain ⟨value, _, hvalue⟩ := List.mem_map.mp hresource
    rw [← hresources, ← hvalue] at hscope
    obtain ⟨scope, hscopeOf, hspansOf⟩ := List.mem_map.mp hscope
    obtain ⟨value', _, hvalue'⟩ := List.mem_map.mp hscopeOf
    rw [← hspansOf, ← hvalue'] at hspan
    exact bounded_rebuilt span_rebuilt r (List.mem_filter.mp hspan).1

end Sanitizer

/-! ## The stamp -/

/-- The entries of a record under the names of the trusted ones. -/
def identityEntries (trusted : List (String × String)) (r : FaroRecord) : List (String × Json) :=
  r.attributes.filter fun a => isTrustedKey trusted a.1

variable {trusted : List (String × String)}

theorem StampedWith.identityEntries_eq {r : FaroRecord} (h : StampedWith trusted r) :
    identityEntries trusted r = trustedAttributes trusted := by
  have ⟨others, hattributes, hothers⟩ := h
  have hnone : others.filter (fun a => isTrustedKey trusted a.1) = [] := by
    apply List.filter_eq_nil_iff.mpr
    intro a ha
    rw [hothers a ha]
    exact Bool.noConfusion
  have hall : (trustedAttributes trusted).filter (fun a => isTrustedKey trusted a.1) =
      trustedAttributes trusted := by
    apply List.filter_eq_self.mpr
    intro a ha
    have ⟨entry, hentry, heq⟩ := List.mem_map.mp ha
    rw [← heq]
    exact List.contains_iff_mem.mpr (List.mem_map_of_mem hentry)
  rw [identityEntries, hattributes, List.filter_append, hnone, hall, List.nil_append]

/-- A record as the stamp leaves it: the fields of one that came in, and of its attributes those
that are kept before the trusted ones. -/
def StampOf (trusted : List (String × String)) (item r : FaroRecord) : Prop :=
  r.fields = item.fields ∧ ∃ kept, kept.Sublist item.attributes ∧
    r.attributes = ordinary trusted kept ++ trustedAttributes trusted

theorem stampRecord_stampOf (r : FaroRecord) : StampOf trusted r (stampRecord trusted r) :=
  ⟨rfl, r.attributes, List.Sublist.refl _, rfl⟩

theorem stampSpan_stampOf (span : FaroRecord) : StampOf trusted span (stampSpan trusted span) :=
  ⟨rfl, _, List.take_sublist _ _, rfl⟩

variable {item r : FaroRecord}

theorem StampOf.mem_attributes (h : StampOf trusted item r) :
    ∀ a ∈ r.attributes, a ∈ item.attributes ∨ a ∈ trustedAttributes trusted := by
  have ⟨_, kept, hkept, hattributes⟩ := h
  intro a ha
  rw [hattributes] at ha
  cases List.mem_append.mp ha with
  | inl hold =>
    exact Or.inl (hkept.subset (List.mem_filter.mp (List.mem_of_mem_take hold)).1)
  | inr hnew => exact Or.inr hnew

theorem StampOf.length_le (h : StampOf trusted item r)
    (htrusted : trusted.length ≤ BROWSER_LIMITS.attributes) :
    r.attributes.length ≤ BROWSER_LIMITS.attributes := by
  have ⟨_, kept, _, hattributes⟩ := h
  have hordinary : (ordinary trusted kept).length ≤ BROWSER_LIMITS.attributes - trusted.length :=
    List.length_take_le _ _
  have hnew : (trustedAttributes trusted).length = trusted.length := List.length_map ..
  rw [hattributes, List.length_append, hnew]
  omega

/-- A record that `bounded` keeps was one of the list, and is not too long. -/
theorem mem_bounded_iff {toJson : FaroRecord → Json} {transform : FaroRecord → FaroRecord}
    {items : List FaroRecord} :
    r ∈ bounded toJson transform items ↔
      (∃ item ∈ items.take BROWSER_LIMITS.events, transform item = r) ∧
        (toJson r).byteLength ≤ BROWSER_LIMITS.eventBytes := by
  rw [bounded, List.mem_filter, List.mem_map, decide_eq_true_iff]

theorem length_bounded_le (toJson : FaroRecord → Json) (transform : FaroRecord → FaroRecord)
    (items : List FaroRecord) :
    (bounded toJson transform items).length ≤ BROWSER_LIMITS.events := by
  apply Nat.le_trans (List.length_filter_le _ _)
  rw [List.length_map]
  exact List.length_take_le _ _

/-- The lists of a batch and the records in them are within their limits. -/
structure WithinLimits (b : FaroBatch) : Prop where
  logs : b.logs.length ≤ BROWSER_LIMITS.events ∧
    ∀ r ∈ b.logs, (r.toJson "context").byteLength ≤ BROWSER_LIMITS.eventBytes
  exceptions : b.exceptions.length ≤ BROWSER_LIMITS.events ∧
    ∀ r ∈ b.exceptions, (r.toJson "context").byteLength ≤ BROWSER_LIMITS.eventBytes
  measurements : b.measurements.length ≤ BROWSER_LIMITS.events ∧
    ∀ r ∈ b.measurements, (r.toJson "context").byteLength ≤ BROWSER_LIMITS.eventBytes
  events : b.events.length ≤ BROWSER_LIMITS.events ∧
    ∀ r ∈ b.events, (r.toJson "attributes").byteLength ≤ BROWSER_LIMITS.eventBytes
  resources : b.resourceSpans.length ≤ BROWSER_LIMITS.events ∧
    ∀ scopes ∈ b.resourceSpans, scopes.length ≤ BROWSER_LIMITS.events ∧
      ∀ spans ∈ scopes, spans.length ≤ BROWSER_LIMITS.events ∧
        ∀ r ∈ spans, r.spanJson.byteLength ≤ BROWSER_LIMITS.eventBytes

theorem bounded_withinLimits (toJson : FaroRecord → Json) (transform : FaroRecord → FaroRecord)
    (items : List FaroRecord) :
    (bounded toJson transform items).length ≤ BROWSER_LIMITS.events ∧
      ∀ r ∈ bounded toJson transform items, (toJson r).byteLength ≤ BROWSER_LIMITS.eventBytes :=
  ⟨length_bounded_le _ _ _, fun _ hr => (mem_bounded_iff.mp hr).2⟩

theorem stampFaroContext_withinLimits (b : FaroBatch) :
    WithinLimits (stampFaroContext trusted b) where
  logs := bounded_withinLimits _ _ _
  exceptions := bounded_withinLimits _ _ _
  measurements := bounded_withinLimits _ _ _
  events := bounded_withinLimits _ _ _
  resources := by
    refine ⟨?_, fun scopes hscopes => ?_⟩
    · show (List.map _ (b.resourceSpans.take BROWSER_LIMITS.events)).length ≤ _
      rw [List.length_map]
      exact List.length_take_le _ _
    · have ⟨scopes', _, heq⟩ := List.mem_map.mp hscopes
      rw [← heq]
      refine ⟨?_, fun spans hspans => ?_⟩
      · rw [List.length_map]
        exact List.length_take_le _ _
      · have ⟨spans', _, heq'⟩ := List.mem_map.mp hspans
        rw [← heq']
        exact bounded_withinLimits _ _ _

/-- Every record of a stamped batch is the stamp of one that came in. -/
theorem exists_stampOf (b : FaroBatch) :
    ∀ r ∈ (stampFaroContext trusted b).records, ∃ item ∈ b.records, StampOf trusted item r := by
  have hsignals : ∀ (toJson : FaroRecord → Json) (items : List FaroRecord),
      (∀ item ∈ items, item ∈ b.records) →
        ∀ r ∈ bounded toJson (stampRecord trusted) items,
          ∃ item ∈ b.records, StampOf trusted item r := by
    intro toJson items hitems r hr
    obtain ⟨⟨item, hitem, heq⟩, _⟩ := mem_bounded_iff.mp hr
    exact ⟨item, hitems item (List.mem_of_mem_take hitem), heq ▸ stampRecord_stampOf item⟩
  intro r hr
  rw [FaroBatch.records, List.mem_append, List.mem_append, List.mem_append, List.mem_append] at hr
  rcases hr with (((hr | hr) | hr) | hr) | hr
  · exact hsignals _ b.logs (fun item h => by simp [FaroBatch.records, h]) r hr
  · exact hsignals _ b.exceptions (fun item h => by simp [FaroBatch.records, h]) r hr
  · exact hsignals _ b.measurements (fun item h => by simp [FaroBatch.records, h]) r hr
  · exact hsignals _ b.events (fun item h => by simp [FaroBatch.records, h]) r hr
  · obtain ⟨spans, hspans, hspan⟩ := List.mem_flatten.mp hr
    obtain ⟨scopes, hscopes, hscope⟩ := List.mem_flatten.mp hspans
    obtain ⟨scopes', hscopes', heqScopes⟩ := List.mem_map.mp hscopes
    rw [← heqScopes] at hscope
    obtain ⟨spans', hspans', heqSpans⟩ := List.mem_map.mp hscope
    rw [← heqSpans] at hspan
    obtain ⟨⟨item, hitem, heq⟩, _⟩ := mem_bounded_iff.mp hspan
    refine ⟨item, ?_, heq ▸ stampSpan_stampOf item⟩
    apply List.mem_append_right
    exact List.mem_flatten.mpr ⟨spans', List.mem_flatten.mpr ⟨scopes',
      List.mem_of_mem_take hscopes', List.mem_of_mem_take hspans'⟩, List.mem_of_mem_take hitem⟩

/-! ## What is forwarded -/

/-- Two identities of one session: of an anonymous one, the one with the same identifier. -/
def RelayIdentity.SameSession (i j : RelayIdentity) : Prop :=
  i.session = j.session ∧ (i.session = none → i.anonymous = j.anonymous)

namespace RelayOptions

variable {ν : Type}

/-- The relay with the sanitizer, at a time of the clock. -/
def sanitizing (o : RelayOptions) (P : Platform ν) (now : String) : RelayOptions :=
  { o with
    sanitizeFaroBatch := fun payload => (Sanitizer.sanitizePayload P now payload).1
    sanitizeUrl := fun url => String.ofList (Privacy.sanitizeUrl P.hosts url.toList) }

/-- The names of the entries that say whose the telemetry is. -/
def identityNames : List String := ["session.id", "user.id", "organization.id"]

/-- What is forwarded says who the user is as the session does, and keeps the limits. -/
structure ForwardedFor (o : RelayOptions) (i : RelayIdentity) (w : FaroWire) : Prop where
  sessionId : w.sessionId = o.sessionIdOf i
  session : w.session = i.session
  entries : ∀ r ∈ w.batch.records, identityEntries (o.trusted i) r = trustedAttributes (o.trusted i)
  names : ∀ r ∈ w.batch.records, ∀ a ∈ r.attributes, a.1 ∈ identityNames →
    a ∈ trustedAttributes (o.trusted i) ∨ a.2 = redactedText
  attributes : ∀ r ∈ w.batch.records, r.attributes.length ≤ BROWSER_LIMITS.attributes
  values : ∀ r ∈ w.batch.records, ∀ values, ("values", Json.object values) ∈ r.fields →
    values.length ≤ BROWSER_LIMITS.attributes
  spanEvents : ∀ r ∈ w.batch.records, ∀ events, ("events", Json.array events) ∈ r.fields →
    ∀ e ∈ events, ∃ attributes, e.get "attributes" = some (Sanitizer.otlpJson attributes) ∧
      attributes.length ≤ BROWSER_LIMITS.attributes ∧
        ∀ a ∈ attributes, a.1 ∈ identityNames → a.2 = redactedText
  limits : WithinLimits w.batch

variable {o : RelayOptions} {i j : RelayIdentity}

theorem isExcluded_identityNames : ∀ key ∈ identityNames, isExcluded key.toList = true := by
  decide +kernel

theorem trusted_length_le (o : RelayOptions) (i : RelayIdentity) :
    (o.trusted i).length ≤ BROWSER_LIMITS.attributes := by
  have hoption : ∀ entry : Option (String × String), entry.toList.length ≤ 1 := by
    intro entry
    cases entry with
    | none => exact Nat.zero_le 1
    | some e => exact Nat.le_refl 1
  have hlimit : BROWSER_LIMITS.attributes = 32 := rfl
  have huser := hoption (i.session.map fun s => ("user.id", s.userId))
  have horganization := hoption ((i.session.bind (·.organizationId)).map fun id =>
    ("organization.id", id))
  rw [trusted, List.length_append, List.length_append, List.length_singleton]
  omega

theorem wireOf_forwardedFor (o : RelayOptions) (P : Platform ν) (now : String) (i : RelayIdentity)
    (payload : Json) : ForwardedFor o i ((o.sanitizing P now).wireOf i payload) where
  sessionId := rfl
  session := rfl
  entries r hr := (stampFaroContext_stamped _ r hr).identityEntries_eq
  names r hr a ha hname := by
    have ⟨item, hitem, hstamp⟩ := exists_stampOf _ r hr
    cases hstamp.mem_attributes a ha with
    | inl hold =>
      have hrebuilt := Sanitizer.sanitizeFaroBatch_rebuilt _ item hitem
      exact Or.inr (hrebuilt.attributes a hold (isExcluded_identityNames a.1 hname))
    | inr hnew => exact Or.inl hnew
  attributes r hr := by
    have ⟨_, _, hstamp⟩ := exists_stampOf _ r hr
    exact hstamp.length_le (trusted_length_le o i)
  values r hr values hvalues := by
    have ⟨item, hitem, hstamp⟩ := exists_stampOf _ r hr
    rw [hstamp.1] at hvalues
    exact (Sanitizer.sanitizeFaroBatch_rebuilt _ item hitem).values values hvalues
  spanEvents r hr events hevents e he := by
    have ⟨item, hitem, hstamp⟩ := exists_stampOf _ r hr
    rw [hstamp.1] at hevents
    have ⟨attributes, hget, hlength, hnames⟩ :=
      (Sanitizer.sanitizeFaroBatch_rebuilt _ item hitem).events events hevents e he
    exact ⟨attributes, hget, hlength, fun a ha hname =>
      hnames a ha (isExcluded_identityNames a.1 hname)⟩
  limits := stampFaroContext_withinLimits _

theorem sessionIdOf_congr (h : i.SameSession j) : o.sessionIdOf i = o.sessionIdOf j := by
  unfold sessionIdOf
  rw [← h.1]
  cases hsession : i.session with
  | none => rw [h.2 hsession]
  | some s => rfl

theorem trusted_congr (h : i.SameSession j) : o.trusted i = o.trusted j := by
  unfold trusted
  rw [sessionIdOf_congr h, h.1]

/-- The identity that is found has the session that was resolved. -/
theorem handle_resolved {turn : RelayTurn} {r : RelayRequest}
    (h : (o.handle turn r).1 = some i) : turn.resolved = some i.session := by
  unfold handle at h
  split at h
  · cases h
  split at h
  · cases h
  split at h
  · cases h
  split at h
  · cases h
  rename_i session hresolved
  rw [hresolved]
  split at h
  · simp only at h
    split at h
    · exact congrArg some (congrArg RelayIdentity.session (Option.some.inj h))
    · exact congrArg some (congrArg RelayIdentity.session (Option.some.inj h))
  · cases h

/-- What a request has forwarded is made of its body, for the identity that was found. -/
theorem exists_forwardedFor (o : RelayOptions) (P : Platform ν) {now : String} {turn : RelayTurn}
    {r : RelayRequest} {w : FaroWire} (h : ((o.sanitizing P now).handle turn r).2.2 = some w) :
    ∃ i, ((o.sanitizing P now).handle turn r).1 = some i ∧ turn.resolved = some i.session ∧
      ForwardedFor o i w := by
  cases handle_cases (o.sanitizing P now) turn r with
  | inl hrejected =>
    have ⟨status, hstatus⟩ := hrejected
    rw [hstatus] at h
    cases h
  | inr hanswered =>
    have ⟨i, hi, hhandled⟩ := hanswered
    have ⟨body, _, _, hw⟩ := hhandled.forwarded w h
    exact ⟨i, hi, handle_resolved hi, hw ▸ wireOf_forwardedFor o P now i _⟩

/-- Whose telemetry is forwarded is for the session to say: two requests of one session have the
same entries, whatever their bodies are. -/
theorem identity_of_session (o : RelayOptions) (P : Platform ν) {now now' : String}
    {turn turn' : RelayTurn} {r r' : RelayRequest} {w w' : FaroWire}
    (h : ((o.sanitizing P now).handle turn r).2.2 = some w)
    (h' : ((o.sanitizing P now').handle turn' r').2.2 = some w') :
    ∃ i j, ((o.sanitizing P now).handle turn r).1 = some i ∧
      ((o.sanitizing P now').handle turn' r').1 = some j ∧
      turn.resolved = some i.session ∧ turn'.resolved = some j.session ∧
      ForwardedFor o i w ∧ ForwardedFor o j w' ∧
      (i.SameSession j → w.sessionId = w'.sessionId ∧ w.session = w'.session ∧
        ∀ a ∈ w.batch.records, ∀ b ∈ w'.batch.records,
          identityEntries (o.trusted i) a = identityEntries (o.trusted j) b) := by
  have ⟨i, hi, hsession, hw⟩ := exists_forwardedFor o P h
  have ⟨j, hj, hsession', hw'⟩ := exists_forwardedFor o P h'
  refine ⟨i, j, hi, hj, hsession, hsession', hw, hw', fun hsame => ⟨?_, ?_, fun a ha b hb => ?_⟩⟩
  · rw [hw.sessionId, hw'.sessionId, sessionIdOf_congr hsame]
  · rw [hw.session, hw'.session, hsame.1]
  · rw [hw.entries a ha, hw'.entries b hb, trusted_congr hsame]

/-! ## A page that says it is someone else's -/

/-- A relay whose codes are the texts they are made of. -/
def openRelay : RelayOptions where
  origin := "https://a.example"
  environment := "test"
  release := "1"
  createHmac text := text
  sanitizeFaroBatch _ := FaroBatch.empty
  sanitizeUrl url := url

theorem visitor_shape : ("0123456789abcdef0123456789abcdef".toList.length = 32 &&
    "0123456789abcdef0123456789abcdef".toList.all isLowerHex) = true := by
  decide

def visitor : RelayIdentity :=
  ⟨⟨"0123456789abcdef0123456789abcdef", visitor_shape⟩, some ⟨"u1", some "o1", "s1"⟩, by decide⟩

def visitorTurn : RelayTurn := ⟨true, some visitor.session, 1000000000, visitor.anonymous, false⟩

def visitorBody (user : String) : Json :=
  .object [("context", .string (openRelay.contextOf visitor)),
    ("logs", .array [.object [("message", .string "started"),
      ("context", .object [("user.id", .string user), ("page", .string "home")])]])]

def visitorPost (user : String) : RelayRequest :=
  ⟨"https://a.example", "POST", some "https://a.example", none, none, some "application/json", none,
    some (visitorBody user)⟩

theorem identity_of_session_visitor :
    ∃ (i : RelayIdentity) (w w' : FaroWire), w.batch.records ≠ [] ∧ w'.batch.records ≠ [] ∧
      ∀ a ∈ w.batch.records, ∀ b ∈ w'.batch.records,
        identityEntries (openRelay.trusted i) a = identityEntries (openRelay.trusted i) b := by
  have hfirst : (((openRelay.sanitizing Sanitizer.plainPlatform "2026-01-02T03:04:05.678Z").handle
      visitorTurn (visitorPost "u2")).2.2.any fun w => !w.batch.records.isEmpty) = true := by
    decide +kernel
  have hsecond : (((openRelay.sanitizing Sanitizer.plainPlatform "2026-01-02T03:04:06.789Z").handle
      visitorTurn (visitorPost "u3")).2.2.any fun w => !w.batch.records.isEmpty) = true := by
    decide +kernel
  rw [Option.any_eq_true] at hfirst hsecond
  have ⟨w, hw, hne⟩ := hfirst
  have ⟨w', hw', hne'⟩ := hsecond
  have ⟨i, j, _, _, hi, hj, _, _, hsame⟩ :=
    identity_of_session openRelay Sanitizer.plainPlatform hw hw'
  have hsessions : i.session = j.session := Option.some.inj (hi.symm.trans hj)
  have hsome : i.session ≠ none := fun hnone => by
    rw [hnone] at hi
    cases hi
  have hsession : i.SameSession j := ⟨hsessions, fun hnone => absurd hnone hsome⟩
  refine ⟨i, w, w', by simpa using hne, by simpa using hne', fun a ha b hb => ?_⟩
  rw [(hsame hsession).2.2 a ha b hb, trusted_congr hsession]

end RelayOptions

end Wallow.Telemetry
