import Wallow.Telemetry.FaroSanitizer
import Mathlib.Data.List.TakeWhile

/-!
# Sanitized fields read back

What the sanitizer makes of a field it has written itself, after the round trip through JSON: the
field again, but for texts that `text` rewrites once more and for numbers that JSON has no text for.
-/

namespace Wallow.Telemetry.Sanitizer

open Js

/-! ## Reading -/

section Reading

variable {ν Ref : Type} {N : Numbers ν} {heap : Heap ν Ref} {value : Value ν Ref}
  {entries : List (String × Value ν Ref)} {fields : List (String × Json)} {key : String}

/-- The entries in memory stand for these fields. -/
def Reads (N : Numbers ν) (heap : Heap ν Ref) (entries : List (String × Value ν Ref))
    (fields : List (String × Json)) : Prop :=
  List.Forall₂ (fun entry field => entry.1 = field.1 ∧ Denotes N heap entry.2 field.2) entries
    fields

theorem reads_of_denotes (hkeys : entries.map (·.1) = fields.map (·.1))
    (hvalues : List.Forall₂ (Denotes N heap) (entries.map (·.2)) (fields.map (·.2))) :
    Reads N heap entries fields := by
  induction fields generalizing entries with
  | nil =>
    rw [List.map_eq_nil_iff.mp hkeys]
    exact .nil
  | cons field fields ih =>
    cases entries with
    | nil => cases hkeys
    | cons entry entries =>
      have ⟨hkey, hrest⟩ := List.cons.inj hkeys
      have ⟨hvalue, hvalues⟩ := List.forall₂_cons.mp hvalues
      exact .cons ⟨hkey, hvalue⟩ (ih hrest hvalues)

theorem reads_record (h : Denotes N heap value (.object fields)) :
    Reads N heap (record heap value) fields := by
  cases h with
  | object htarget hkeys hvalues =>
    rw [record]
    simp only [htarget]
    exact reads_of_denotes hkeys hvalues

theorem denotes_items {items : List Json} (h : Denotes N heap value (.array items)) :
    List.Forall₂ (Denotes N heap) (Sanitizer.items heap value) items := by
  cases h with
  | array htarget hvalues =>
    rw [Sanitizer.items]
    simp only [htarget]
    exact hvalues

theorem denotes_list {items : List Json} (h : Denotes N heap value (.array items))
    (hlength : items.length ≤ BROWSER_LIMITS.events) :
    List.Forall₂ (Denotes N heap) (list heap value) items := by
  have hitems := denotes_items h
  rw [list, List.take_of_length_le (hitems.length_eq ▸ hlength)]
  exact hitems

theorem Reads.member_some (h : Reads N heap entries fields) {json : Json}
    (hkey : fields.lookup key = some json) : Denotes N heap (member entries key) json := by
  unfold member
  induction h with
  | nil => cases hkey
  | cons hfirst hrest ih =>
    rename_i entry field entries fields
    have ⟨k, v⟩ := entry
    have ⟨k', v'⟩ := field
    have hsame : k = k' := hfirst.1
    rw [List.lookup_cons] at hkey ⊢
    rw [hsame]
    cases hfound : key == k' with
    | true =>
      rw [hfound] at hkey
      exact Option.some.inj hkey ▸ hfirst.2
    | false =>
      rw [hfound] at hkey
      exact ih hkey

theorem Reads.member_none (h : Reads N heap entries fields) (hkey : fields.lookup key = none) :
    member entries key = .undefined := by
  unfold member
  induction h with
  | nil => rfl
  | cons hfirst hrest ih =>
    rename_i entry field entries fields
    have ⟨k, v⟩ := entry
    have ⟨k', v'⟩ := field
    have hsame : k = k' := hfirst.1
    rw [List.lookup_cons] at hkey ⊢
    rw [hsame]
    cases hfound : key == k' with
    | true =>
      rw [hfound] at hkey
      cases hkey
    | false =>
      rw [hfound] at hkey
      exact ih hkey

theorem Reads.string (h : Reads N heap entries fields) {text : String}
    (hkey : fields.lookup key = some (.string text)) : member entries key = .string text :=
  (h.member_some hkey).eq_string

/-- What is read of an optional field: nothing, or what it stands for. -/
def ReadsField (N : Numbers ν) (heap : Heap ν Ref) (value : Value ν Ref)
    (field : Option Json) : Prop :=
  match field with
  | some json => Denotes N heap value json
  | none => value = .undefined

theorem Reads.field (h : Reads N heap entries fields) (key : String) :
    ReadsField N heap (member entries key) (fields.lookup key) := by
  cases hkey : fields.lookup key with
  | none => exact h.member_none hkey
  | some json => exact h.member_some hkey

/-- The attribute as an entry of an object in memory. -/
def textEntry (a : String × Json) : String × Value ν Ref := (a.1, .string (itemText a.2))

theorem reads_textEntry (hitem : ∀ a ∈ fields, ∃ value, a.2 = .string value) :
    Reads N heap (fields.map textEntry) fields := by
  induction fields with
  | nil => exact .nil
  | cons a fields ih =>
    have ⟨value, hvalue⟩ := hitem a List.mem_cons_self
    have hread : Denotes N heap (.string (itemText a.2)) a.2 := by
      rw [hvalue]
      exact .string value
    exact .cons ⟨rfl, hread⟩ (ih fun b hb => hitem b (List.mem_cons_of_mem a hb))

end Reading

/-! ## Names, times and identifiers -/

section Fields

variable {ν Ref Ref' : Type} {P : Platform ν} {heap : Heap ν Ref} {now : String}

theorem nameText_nameText (text : String) {fallback : String}
    (h : isName fallback.toList = true) (other : String) :
    nameText (nameText text fallback) other = nameText text fallback := by
  have hname : isName (nameText text fallback).toList = true := by
    rw [nameText]
    split
    · rename_i hvalid
      exact hvalid
    · exact h
  rw [nameText, if_pos hname]

/-- A name is kept. -/
theorem name_name (value : Value ν Ref) {fallback : String} (h : isName fallback.toList = true)
    (other : String) :
    name (.string (name value fallback) : Value ν Ref') other = name value fallback := by
  cases value with
  | string text => exact nameText_nameText text h other
  | _ => exact if_pos h

theorem isNameChar_ne {c : Char} (h : isNameChar c = true) :
    c ≠ '?' ∧ c ≠ '#' ∧ c ≠ '/' ∧ c ≠ '\\' := by
  refine ⟨?_, ?_, ?_, ?_⟩
  · intro heq
    rw [heq] at h
    exact absurd h (by decide)
  · intro heq
    rw [heq] at h
    exact absurd h (by decide)
  · intro heq
    rw [heq] at h
    exact absurd h (by decide)
  · intro heq
    rw [heq] at h
    exact absurd h (by decide)

theorem all_isNameChar_of_isName {text : List Char} (h : isName text = true) :
    text ≠ [] ∧ ∀ c ∈ text, isNameChar c = true := by
  cases text with
  | nil => cases h
  | cons c rest =>
    rw [isName, Bool.and_eq_true, Bool.and_eq_true, List.all_eq_true] at h
    refine ⟨List.cons_ne_nil c rest, fun d hd => ?_⟩
    cases List.mem_cons.mp hd with
    | inl heq =>
      rw [heq, isNameChar, Char.isAlphanum, h.1.1]
      rfl
    | inr hin => exact h.2 d hin

/-- The last part of a name is the name. -/
theorem baseName_of_isName {text : List Char} (h : isName text = true) :
    baseName text = some text := by
  have ⟨hne, hchars⟩ := all_isNameChar_of_isName h
  have htake : text.takeWhile (fun c => c ≠ '?' && c ≠ '#') = text := by
    apply List.takeWhile_eq_self_iff.mpr
    intro c hc
    have ⟨hquestion, hhash, _, _⟩ := isNameChar_ne (hchars c hc)
    simp [hquestion, hhash]
  have hmap : text.map (fun c => if c = '\\' then '/' else c) = text := by
    calc text.map (fun c => if c = '\\' then '/' else c)
        = text.map id := List.map_congr_left fun c hc => if_neg (isNameChar_ne (hchars c hc)).2.2.2
      _ = text := List.map_id text
  have hsplit : SplitText.split '/' text = [text] :=
    SplitText.split_of_not_mem fun hc => (isNameChar_ne (hchars '/' hc)).2.2.1 rfl
  rw [baseName, htake, hmap, hsplit]
  simp [hne]

theorem isName_fileName (value : Value ν Ref) : isName (fileName value).toList = true := by
  have hunknown : isName "unknown".toList = true := by decide
  unfold fileName
  split
  · split
    · rw [nameText]
      split
      · rename_i hvalid
        exact hvalid
      · exact hunknown
    · exact hunknown
  · exact hunknown

theorem fileName_fileName (value : Value ν Ref) :
    fileName (.string (fileName value) : Value ν Ref') = fileName value := by
  have hname := isName_fileName value
  generalize fileName value = text at hname
  unfold fileName
  simp only [baseName_of_isName hname]
  rw [String.ofList_toList, nameText, if_pos hname]

theorem iso_timestamp (hnow : P.dates.iso now = some now) (value : Value ν Ref) :
    P.dates.iso (timestamp P now value) = some (timestamp P now value) := by
  unfold timestamp
  split
  · split
    · rename_i text _
      cases hiso : P.dates.iso text with
      | none => exact hnow
      | some date => exact P.dates.iso_iso text date hiso
    · exact hnow
  · exact hnow

/-- A time that is written is read as it is. -/
theorem timestamp_timestamp (hnow : P.dates.iso now = some now) (value : Value ν Ref)
    (later : String) :
    timestamp P later (.string (timestamp P now value) : Value ν Ref') =
      timestamp P now value := by
  have hiso := iso_timestamp hnow value
  generalize timestamp P now value = text at hiso
  have hread : timestamp P later (.string text : Value ν Ref') =
      if Js.length text.toList ≤ BROWSER_LIMITS.attributes then (P.dates.iso text).getD later
      else later := rfl
  rw [hread, if_pos (P.dates.short _ _ hiso), hiso]
  rfl

theorem nano_digits (value : Value ν Ref) : 1 ≤ (nano value).toList.length ∧
    (nano value).toList.length ≤ 20 ∧ (nano value).toList.all Char.isDigit = true := by
  have hzero : 1 ≤ "0".toList.length ∧ "0".toList.length ≤ 20 ∧
      "0".toList.all Char.isDigit = true := by decide
  unfold nano
  split
  · split
    · rename_i hdigits
      exact hdigits
    · exact hzero
  · exact hzero

theorem nano_nano (value : Value ν Ref) :
    nano (.string (nano value) : Value ν Ref') = nano value :=
  if_pos (nano_digits value)

theorem traceContext_cases (heap : Heap ν Ref) (value : Value ν Ref) :
    traceContext heap value = .object [] ∨
      ∃ trace span, (isHexId 32 trace && isHexId 16 span) = true ∧
        traceContext heap value =
          .object [("trace_id", .string trace), ("span_id", .string span)] := by
  unfold traceContext
  dsimp only
  split
  · split
    · rename_i hvalid
      exact Or.inr ⟨_, _, hvalid, rfl⟩
    · exact Or.inl rfl
  · exact Or.inl rfl

theorem traceContext_traceContext {heap' : Heap ν Ref'} {value : Value ν Ref}
    {read : Value ν Ref'} (h : Denotes P.numbers heap' read (traceContext heap value)) :
    traceContext heap' read = traceContext heap value := by
  have hempty : Denotes P.numbers heap' read (.object []) →
      traceContext heap' read = .object [] := by
    intro hread
    have hreads := reads_record hread
    have htrace : member (record heap' read) "trace_id" = .undefined := hreads.member_none rfl
    rw [traceContext]
    simp only [htrace]
  cases traceContext_cases heap value with
  | inl hnone =>
    rw [hnone] at h ⊢
    exact hempty h
  | inr hsome =>
    have ⟨trace, span, hvalid, hjson⟩ := hsome
    rw [hjson] at h ⊢
    have hreads := reads_record h
    have htrace : member (record heap' read) "trace_id" = .string trace := hreads.string rfl
    have hspan : member (record heap' read) "span_id" = .string span := hreads.string rfl
    rw [traceContext]
    simp only [htrace, hspan, hvalid, if_true]

theorem hexField_cases (key : String) (n : Nat) (value : Value ν Ref) :
    hexField key n value = [] ∨
      ∃ text, isHexId n text = true ∧ hexField key n value = [(key, .string text)] := by
  unfold hexField
  split
  · split
    · rename_i hvalid
      exact Or.inr ⟨_, hvalid, rfl⟩
    · exact Or.inl rfl
  · exact Or.inl rfl

theorem hexField_hexField {key : String} {n : Nat} {value : Value ν Ref} {read : Value ν Ref'}
    {heap' : Heap ν Ref'}
    (h : ReadsField P.numbers heap' read ((hexField key n value).lookup key)) :
    hexField key n read = hexField key n value := by
  cases hexField_cases key n value with
  | inl hnone =>
    rw [hnone] at h ⊢
    rw [show read = .undefined from h]
    rfl
  | inr hsome =>
    have ⟨text, hvalid, hfield⟩ := hsome
    rw [hfield, List.lookup_cons_self] at h
    rw [hfield, Denotes.eq_string h]
    exact if_pos hvalid

/-- A number of which JSON has a text. -/
def Finite (N : Numbers ν) (value : Value ν Ref) : Prop :=
  ∀ n, value = .number n → (N.text n).isSome = true

/-- A number is read back where it is finite, and only there. -/
theorem numberField_numberField {key : String} {value : Value ν Ref} {read : Value ν Ref'}
    {heap' : Heap ν Ref'}
    (h : ReadsField P.numbers heap' read ((numberField P key value).lookup key)) :
    numberField P key read = numberField P key value ↔ Finite P.numbers value := by
  have hundefined : ReadsField P.numbers heap' read none → numberField P key read = [] := by
    intro hread
    rw [show read = .undefined from hread]
    rfl
  cases value with
  | number n =>
    have hfield : numberField P key (.number n : Value ν Ref) = [(key, P.numbers.toJson n)] := rfl
    rw [hfield] at h ⊢
    rw [List.lookup_cons_self, Numbers.toJson] at h
    rw [Numbers.toJson]
    cases htext : P.numbers.text n with
    | none =>
      rw [htext] at h
      rw [Denotes.eq_null h]
      refine ⟨fun hsame => absurd hsame (List.cons_ne_nil _ _).symm, fun hfinite => ?_⟩
      have hsome := hfinite n rfl
      rw [htext] at hsome
      cases hsome
    | some literal =>
      rw [htext] at h
      have ⟨n', hread, htext'⟩ := Denotes.exists_number h
      rw [hread]
      refine ⟨fun _ m hm => ?_, fun _ => ?_⟩
      · cases hm
        rw [htext]
        rfl
      · show [(key, P.numbers.toJson n')] = _
        rw [Numbers.toJson, htext']
  | _ =>
    rw [hundefined h]
    refine ⟨fun _ n hn => ?_, fun _ => rfl⟩
    cases hn

end Fields

/-! ## Attributes -/

section Attributes

open Privacy

variable {ν Ref : Type} {P : Platform ν} {heap : Heap ν Ref}
  {entries : List (String × Value ν Ref)} {attributes : List (String × Json)}

/-- `text` leaves it as it is. -/
def FixedText (hosts : WebUrl.HostParser) (value : String) : Prop :=
  text hosts value.toList = value.toList

/-- Attributes as `context` leaves them. -/
structure Contextual (attributes : List (String × Json)) : Prop where
  arranged : Arranged attributes
  length : attributes.length ≤ LIMITS.attributes
  item : ∀ a ∈ attributes, ∃ value, a.2 = .string value
  kept : ∀ a ∈ attributes, EntryKept a

/-- What another pass makes of an attribute. -/
def rewritten (hosts : WebUrl.HostParser) (a : String × Json) : String × Json :=
  (a.1, if isExcluded a.1.toList then redactedText
    else .string (String.ofList (text hosts (itemText a.2).toList)))

/-- Another pass leaves attributes as they are where `text` does so with every text of them. -/
theorem map_rewritten_eq_iff (hosts : WebUrl.HostParser) (h : Contextual attributes) :
    attributes.map (rewritten hosts) = attributes ↔
      ∀ a ∈ attributes, FixedText hosts (itemText a.2) := by
  have hone : ∀ a ∈ attributes, rewritten hosts a = a ↔ FixedText hosts (itemText a.2) := by
    intro a ha
    have ⟨value, hvalue⟩ := h.item a ha
    have hredacted := (h.kept a ha).redacted
    have ⟨key, item⟩ := a
    dsimp only at hvalue
    rw [hvalue] at hredacted ⊢
    rw [rewritten]
    dsimp only
    split
    · rename_i hname
      have hmark := hredacted hname
      have heq : value = "[redacted]" := Json.string.inj hmark
      rw [heq]
      exact ⟨fun _ => text_redacted hosts, fun _ => rfl⟩
    · refine ⟨fun hsame => ?_, fun hfixed => ?_⟩
      · have htext := congrArg String.toList (Json.string.inj (Prod.mk.inj hsame).2)
        rw [String.toList_ofList] at htext
        exact htext
      · rw [FixedText, itemText] at hfixed
        rw [itemText, hfixed, String.ofList_toList]
  refine ⟨fun hmap a ha => ?_, fun hfixed => ?_⟩
  · exact (hone a ha).mp (List.map_inj_left.mp (hmap.trans (List.map_id attributes).symm) a ha)
  · calc attributes.map (rewritten hosts)
        = attributes.map id := List.map_congr_left fun a ha => (hone a ha).mpr (hfixed a ha)
      _ = attributes := List.map_id attributes

/-- The entries that are read of attributes of a span. -/
theorem otlpEntries_again {value : Value ν Ref} {N : Numbers ν}
    (h : Denotes N heap value (otlpJson attributes)) (hattributes : Contextual attributes) :
    otlpEntries heap value = attributes.map textEntry := by
  have hbound : LIMITS.attributes ≤ BROWSER_LIMITS.events := by decide
  have hlimit : LIMITS.attributes = BROWSER_LIMITS.attributes := rfl
  have hlength := hattributes.length
  have hlist := denotes_list h (by rw [List.length_map]; omega)
  have htake : (list heap value).length ≤ BROWSER_LIMITS.attributes := by
    rw [hlist.length_eq, List.length_map]
    omega
  have hitem := hattributes.item
  rw [otlpEntries, List.take_of_length_le htake]
  generalize list heap value = values at hlist
  clear h hattributes htake hlength
  induction attributes generalizing values with
  | nil =>
    rw [List.forall₂_nil_right_iff.mp hlist]
    rfl
  | cons a attributes ih =>
    have ⟨first, rest, hfirst, hrest, hvalues⟩ := List.forall₂_cons_right_iff.mp hlist
    have ⟨text, htext⟩ := hitem a List.mem_cons_self
    have hentry := reads_record hfirst
    have hkey : member (record heap first) "key" = .string a.1 := hentry.string rfl
    have hvalue : Denotes N heap (member (record heap first) "value")
        (.object [("stringValue", a.2)]) := hentry.member_some rfl
    have hwire := reads_record hvalue
    have hstring : member (record heap (member (record heap first) "value")) "stringValue" =
        .string text := hwire.string (by rw [← htext]; rfl)
    rw [hvalues, List.flatMap_cons, ih (fun b hb => hitem b (List.mem_cons_of_mem a hb)) rest hrest,
      List.map_cons]
    simp only [hkey, hstring]
    rw [textEntry, htext]
    rfl

variable [DecidableEq Ref]

theorem context_eq (value : Value ν Ref) :
    context P heap value = (sanitizeAttributes P.numbers P.hosts heap value).map fun a =>
      (a.1, .string (attributeText a.2)) :=
  fromEntries_of_arranged ((sanitizeAttributes_spec P.numbers P.hosts heap value).1.map _)

theorem context_contextual (value : Value ν Ref) : Contextual (context P heap value) := by
  have ⟨harranged, hlength, hkept⟩ := sanitizeAttributes_spec P.numbers P.hosts heap value
  rw [context_eq]
  refine ⟨harranged.map _, ?_, fun a ha => ?_, fun a ha => ?_⟩
  · rw [List.length_map]
    exact hlength
  · have ⟨field, _, heq⟩ := List.mem_map.mp ha
    exact ⟨attributeText field.2, heq ▸ rfl⟩
  · have ⟨field, hfield, heq⟩ := List.mem_map.mp ha
    rw [← heq]
    refine ⟨(hkept field hfield).key, fun hname => ?_⟩
    have hmark : field.2 = redactedText := (hkept field hfield).redacted hname
    show Json.string (attributeText field.2) = redactedText
    rw [hmark]
    rfl

theorem visit_string (N : Numbers ν) (hosts : WebUrl.HostParser) (heap : Heap ν Ref)
    (levels : Nat) (value : String) (w : Walk Ref) (hw : 1 ≤ w.remaining) :
    visit N hosts heap (levels + 1) (.string value) w =
      (.string (String.ofList (text hosts value.toList)),
        { w with remaining := w.remaining - 1 }) := by
  rw [visit.eq_def]
  dsimp only
  rw [if_neg (by omega)]

theorem mapWalk_texts {N : Numbers ν} (hosts : WebUrl.HostParser) (levels : Nat)
    (h : Reads N heap entries attributes) (hitem : ∀ a ∈ attributes, ∃ value, a.2 = .string value)
    (hkey : ∀ a ∈ attributes, cutKey a.1 = a.1) (w : Walk Ref)
    (hw : (entries.length : Int) ≤ w.remaining) :
    (mapWalk (visitEntry (visit N hosts heap (levels + 1))) entries w).1 =
      attributes.map (rewritten hosts) := by
  induction h generalizing w with
  | nil => rfl
  | cons hfirst hrest ih =>
    rename_i entry a entries attributes
    obtain ⟨k, v⟩ := entry
    obtain ⟨k', item⟩ := a
    obtain ⟨value, hvalue⟩ := hitem _ List.mem_cons_self
    dsimp only at hfirst hvalue
    obtain ⟨hkeys, hread⟩ := hfirst
    rw [hvalue] at hread ⊢
    rw [hread.eq_string, hkeys]
    rw [List.length_cons] at hw
    have hcut : cutKey k' = k' := hkey _ List.mem_cons_self
    have hentry : ∃ w', (entries.length : Int) ≤ w'.remaining ∧
        visitEntry (visit N hosts heap (levels + 1)) (k', .string value) w =
          (rewritten hosts (k', .string value), w') := by
      rw [visitEntry, rewritten]
      dsimp only
      split
      · exact ⟨w, by omega, by rw [hcut]⟩
      · rw [visit_string N hosts heap levels value w (by omega), hcut]
        refine ⟨_, ?_, rfl⟩
        show (entries.length : Int) ≤ w.remaining - 1
        omega
    obtain ⟨w', hw', heq⟩ := hentry
    rw [mapWalk, List.map_cons, heq]
    dsimp only
    rw [ih (fun a ha => hitem a (List.mem_cons_of_mem _ ha))
      (fun a ha => hkey a (List.mem_cons_of_mem _ ha)) w' hw']

/-- Another pass over an object of attributes. -/
theorem context_again {target : Ref} {arranged : Arranged entries}
    (htarget : heap target = .object entries arranged) (h : Reads P.numbers heap entries attributes)
    (hattributes : Contextual attributes) :
    context P heap (.reference target) = attributes.map (rewritten P.hosts) := by
  have hlength : entries.length ≤ LIMITS.attributes := h.length_eq ▸ hattributes.length
  have hbound : LIMITS.attributes = 32 := rfl
  have hwalk := mapWalk_texts P.hosts 4 h hattributes.item (fun a ha => (hattributes.kept a ha).key)
    ⟨255, [target]⟩ (by show (entries.length : Int) ≤ 255; omega)
  have harranged : Arranged (attributes.map (rewritten P.hosts)) := hattributes.arranged.map _
  have hvisit : (visit P.numbers P.hosts heap (LIMITS.depth + 1) (.reference target)
      ⟨LIMITS.nodes, []⟩).1 = .object (attributes.map (rewritten P.hosts)) := by
    rw [visit.eq_def]
    dsimp only
    rw [if_neg (by decide), if_neg List.not_mem_nil, htarget]
    dsimp only
    rw [List.take_of_length_le hlength]
    show Json.object (fromEntries (mapWalk (visitEntry (visit P.numbers P.hosts heap (4 + 1)))
      entries ⟨255, [target]⟩).1) = _
    rw [hwalk, fromEntries_of_arranged harranged]
  have hsanitize : sanitizeAttributes P.numbers P.hosts heap (.reference target) =
      attributes.map (rewritten P.hosts) := by
    unfold sanitizeAttributes
    simp only [htarget, hvisit]
    exact fromEntries_of_arranged harranged
  rw [context_eq, hsanitize, List.map_map]
  apply List.map_congr_left
  intro a _
  have hshort : ∀ value : List Char, attributeText (.string (String.ofList (text P.hosts value))) =
      String.ofList (text P.hosts value) :=
    fun value => if_pos (byteLength_text_le P.hosts value)
  rw [Function.comp_apply, rewritten]
  dsimp only
  split
  · rfl
  · rw [hshort]

/-- Another pass over the attributes of a span. -/
theorem otlpAttributes_again {value : Value ν Ref}
    (h : Denotes P.numbers heap value (otlpJson attributes))
    (hattributes : Contextual attributes) :
    otlpAttributes P heap value = attributes.map (rewritten P.hosts) := by
  have harranged : Arranged (attributes.map textEntry : List (String × Value ν (Option Ref))) :=
    hattributes.arranged.map _
  have hentries : fromEntries ((attributes.map textEntry).map fun e : String × Value ν Ref =>
      (e.1, e.2.map some)) = attributes.map textEntry := by
    rw [List.map_map]
    exact fromEntries_of_arranged harranged
  have htarget : (heap.withObject (attributes.map textEntry)) none =
      .object (attributes.map textEntry) harranged := by
    rw [Heap.withObject]
    congr 1
  rw [otlpAttributes, otlpEntries_again h hattributes]
  exact context_again htarget (reads_textEntry hattributes.item) hattributes

theorem context_denotes {value : Value ν Ref}
    (h : Denotes P.numbers heap value (.object attributes)) (hattributes : Contextual attributes) :
    context P heap value = attributes.map (rewritten P.hosts) := by
  have hreads := reads_record h
  cases h with
  | object htarget _ _ =>
    have hrecord : ∀ target entries arranged, heap target = .object entries arranged →
        record heap (.reference target) = entries := by
      intro target entries arranged htarget
      rw [record]
      simp only [htarget]
    rw [hrecord _ _ _ htarget] at hreads
    exact context_again htarget hreads hattributes

end Attributes

end Wallow.Telemetry.Sanitizer
