import Mathlib
import Wallow.Lib.JsonText

/-!
# JavaScript values

Values in memory as a program that walks over them sees them: primitives, and references to arrays
and to objects with their own entries, which may be shared or lead back.  Entries are in the order
of `Object.entries`, and what `JSON.parse` yields is a memory of its own.
-/

namespace Js

/-! ## Strings -/

/-- The number of UTF-16 units of a character. -/
def units (c : Char) : Nat := if c.toNat < 0x10000 then 1 else 2

def length (text : List Char) : Nat := (text.map units).sum

/-- `slice(0, n)`; of a pair of surrogates that it parts nothing stays. -/
def slice : Nat → List Char → List Char
  | _, [] => []
  | n, c :: cs => if units c ≤ n then c :: slice (n - units c) cs else []

theorem slice_isPrefix (n : Nat) (cs : List Char) : slice n cs <+: cs := by
  induction cs generalizing n with
  | nil => exact List.prefix_refl []
  | cons c cs ih =>
    rw [slice]
    split
    · exact List.prefix_cons_inj c |>.mpr (ih _)
    · exact List.nil_prefix

theorem slice_slice (n : Nat) (cs : List Char) : slice n (slice n cs) = slice n cs := by
  induction cs generalizing n with
  | nil => rfl
  | cons c cs ih =>
    rw [slice]
    split
    · rename_i hunits
      rw [slice, if_pos hunits, ih]
    · rfl

/-! ## Properties -/

section Entries

variable {α β : Type}

/-- The number of a key that is an array index. -/
def index? (key : String) : Option Nat :=
  let cs := key.toList
  if cs ≠ [] ∧ cs.all Char.isDigit ∧ (cs.head? = some '0' → cs.length = 1) ∧
      Nat.ofDigitChars 10 cs 0 < 2 ^ 32 - 1 then
    some (Nat.ofDigitChars 10 cs 0)
  else none

/-- A key that comes before another, whichever was there first: indices come first, in order. -/
def precedes (key other : String) : Bool :=
  match index? key, index? other with
  | some i, some j => i < j
  | some _, none => true
  | none, _ => false

/-- The order of the entries of an object. -/
def Arranged (entries : List (String × α)) : Prop :=
  entries.Pairwise fun a b => a.1 ≠ b.1 ∧ precedes b.1 a.1 = false

/-- A property is written. -/
def put (key : String) (value : α) : List (String × α) → List (String × α)
  | [] => [(key, value)]
  | (k, v) :: rest =>
    if k = key then (key, value) :: rest
    else if precedes key k then (key, value) :: (k, v) :: rest
    else (k, v) :: put key value rest

/-- `Object.fromEntries`. -/
def fromEntries (entries : List (String × α)) : List (String × α) :=
  entries.foldl (fun object e => put e.1 e.2 object) []

variable {key : String} {value : α} {entries : List (String × α)}

theorem precedes_self (key : String) : precedes key key = false := by
  unfold precedes
  cases index? key with
  | none => rfl
  | some i => exact decide_eq_false (Nat.lt_irrefl i)

theorem precedes_trans {a b c : String} (hab : precedes a b = true) (hbc : precedes b c = true) :
    precedes a c = true := by
  unfold precedes at hab hbc ⊢
  cases ha : index? a with
  | none => simp [ha] at hab
  | some i =>
    cases hb : index? b with
    | none => simp [hb] at hbc
    | some j =>
      cases hc : index? c with
      | none => rfl
      | some k =>
        simp only [ha, hb, hc, decide_eq_true_iff] at hab hbc ⊢
        omega

theorem mem_put {e : String × α} (h : e ∈ put key value entries) :
    e = (key, value) ∨ e ∈ entries := by
  induction entries with
  | nil => exact Or.inl (List.mem_singleton.mp h)
  | cons entry rest ih =>
    rw [put] at h
    split at h
    · cases List.mem_cons.mp h with
      | inl heq => exact Or.inl heq
      | inr hin => exact Or.inr (List.mem_cons_of_mem _ hin)
    · split at h
      · cases List.mem_cons.mp h with
        | inl heq => exact Or.inl heq
        | inr hin => exact Or.inr hin
      · cases List.mem_cons.mp h with
        | inl heq => exact Or.inr (heq ▸ List.mem_cons_self)
        | inr hin =>
          cases ih hin with
          | inl heq => exact Or.inl heq
          | inr hrest => exact Or.inr (List.mem_cons_of_mem _ hrest)

theorem length_put_le (key : String) (value : α) (entries : List (String × α)) :
    (put key value entries).length ≤ entries.length + 1 := by
  induction entries with
  | nil => exact Nat.le_refl 1
  | cons entry rest ih =>
    rw [put]
    split
    · exact Nat.le_succ _
    · split
      · exact Nat.le_refl _
      · exact Nat.succ_le_succ ih

theorem Arranged.put (h : Arranged entries) : Arranged (put key value entries) := by
  induction entries with
  | nil => exact List.pairwise_singleton _ _
  | cons entry rest ih =>
    have ⟨k, v⟩ := entry
    have ⟨hfirst, hrest⟩ := List.pairwise_cons.mp h
    rw [Js.put]
    split
    · rename_i hkey
      exact List.pairwise_cons.mpr ⟨fun e he => hkey ▸ hfirst e he, hrest⟩
    · rename_i hkey
      split
      · rename_i hbefore
        refine List.pairwise_cons.mpr ⟨fun e he => ?_, h⟩
        cases List.mem_cons.mp he with
        | inl heq =>
          rw [heq]
          refine ⟨fun hsame => hkey hsame.symm, ?_⟩
          cases hback : precedes k key with
          | false => rfl
          | true => exact absurd (precedes_trans hback hbefore) (by simp [precedes_self])
        | inr hin =>
          have ⟨_, hnot⟩ := hfirst e hin
          refine ⟨fun hsame => ?_, ?_⟩
          · rw [← show key = e.1 from hsame, hbefore] at hnot
            exact Bool.noConfusion hnot
          · cases hback : precedes e.1 key with
            | false => rfl
            | true =>
              rw [precedes_trans hback hbefore] at hnot
              exact Bool.noConfusion hnot
      · rename_i hbefore
        refine List.pairwise_cons.mpr ⟨fun e he => ?_, ih hrest⟩
        cases mem_put he with
        | inl heq =>
          rw [heq]
          exact ⟨hkey, by simpa using hbefore⟩
        | inr hin => exact hfirst e hin

theorem foldl_put_arranged (es : List (String × α)) (h : Arranged entries) :
    Arranged (es.foldl (fun object e => put e.1 e.2 object) entries) := by
  induction es generalizing entries with
  | nil => exact h
  | cons e es ih => exact ih h.put

theorem arranged_fromEntries (entries : List (String × α)) : Arranged (fromEntries entries) :=
  foldl_put_arranged entries List.Pairwise.nil

theorem mem_foldl_put {e : String × α} (es : List (String × α))
    (h : e ∈ es.foldl (fun object e => put e.1 e.2 object) entries) :
    e ∈ es ∨ e ∈ entries := by
  induction es generalizing entries with
  | nil => exact Or.inr h
  | cons first es ih =>
    cases ih h with
    | inl hin => exact Or.inl (List.mem_cons_of_mem _ hin)
    | inr hput =>
      cases mem_put hput with
      | inl heq => exact Or.inl (heq ▸ List.mem_cons_self)
      | inr hin => exact Or.inr hin

theorem mem_fromEntries {e : String × α} (h : e ∈ fromEntries entries) : e ∈ entries :=
  (mem_foldl_put entries h).resolve_right List.not_mem_nil

theorem length_foldl_put_le (es entries : List (String × α)) :
    (es.foldl (fun object e => put e.1 e.2 object) entries).length ≤
      entries.length + es.length := by
  induction es generalizing entries with
  | nil => exact Nat.le_refl _
  | cons e es ih =>
    have hput := length_put_le e.1 e.2 entries
    have hrest := ih (put e.1 e.2 entries)
    rw [List.foldl_cons, List.length_cons]
    omega

theorem length_fromEntries_le (entries : List (String × α)) :
    (fromEntries entries).length ≤ entries.length := by
  have h := length_foldl_put_le entries []
  rw [List.length_nil, Nat.zero_add] at h
  exact h

theorem put_last (h : ∀ e ∈ entries, e.1 ≠ key ∧ precedes key e.1 = false) :
    put key value entries = entries ++ [(key, value)] := by
  induction entries with
  | nil => rfl
  | cons entry rest ih =>
    have ⟨hne, hnot⟩ := h entry List.mem_cons_self
    rw [put, if_neg hne, if_neg (by simp [hnot]), ih fun e he => h e (List.mem_cons_of_mem _ he)]
    rfl

/-- What is in order is an object already. -/
theorem fromEntries_of_arranged (h : Arranged entries) : fromEntries entries = entries := by
  have hfold : ∀ (es done : List (String × α)), Arranged (done ++ es) →
      es.foldl (fun object e => put e.1 e.2 object) done = done ++ es := by
    intro es
    induction es with
    | nil => exact fun done _ => (List.append_nil done).symm
    | cons e es ih =>
      intro done hdone
      have hlast : put e.1 e.2 done = done ++ [e] := by
        apply put_last
        intro d hd
        exact (List.pairwise_append.mp hdone).2.2 d hd e List.mem_cons_self
      rw [List.foldl_cons, hlast, ih _ (by rw [List.append_assoc]; exact hdone),
        List.append_assoc]
      rfl
  exact hfold entries [] h

theorem Arranged.map (h : Arranged entries) (f : String × α → β) :
    Arranged (entries.map fun e => (e.1, f e)) :=
  List.pairwise_map.mpr h

theorem arranged_iff : Arranged entries ↔
    (entries.map (·.1)).Pairwise fun a b => a ≠ b ∧ precedes b a = false := by
  rw [List.pairwise_map]
  rfl

/-- It is the keys that are in order. -/
theorem Arranged.congr {es : List (String × β)} (h : Arranged entries)
    (hkeys : es.map (·.1) = entries.map (·.1)) : Arranged es := by
  rw [arranged_iff] at h ⊢
  rw [hkeys]
  exact h

/-! ## What an object has under a key -/

theorem filter_put_of_ne {other : String} (h : key ≠ other) :
    (put key value entries).filter (·.1 = other) = entries.filter (·.1 = other) := by
  have hnew : decide ((key, value).1 = other) = false := decide_eq_false h
  induction entries with
  | nil => rw [put, List.filter_cons, hnew]; rfl
  | cons entry rest ih =>
    have ⟨k, v⟩ := entry
    rw [put]
    split
    · rename_i hkey
      have hold : decide ((k, v).1 = other) = false := decide_eq_false (hkey ▸ h)
      rw [List.filter_cons, List.filter_cons, hnew, hold]
      rfl
    · split
      · rw [List.filter_cons, hnew]
        rfl
      · rw [List.filter_cons, List.filter_cons, ih]

theorem filter_eq_nil_of_keys (h : key ∉ entries.map (·.1)) :
    entries.filter (·.1 = key) = [] := by
  apply List.filter_eq_nil_iff.mpr
  intro e he
  rw [decide_eq_true_eq]
  exact fun heq => h (heq ▸ List.mem_map_of_mem he)

theorem filter_put_self (h : Arranged entries) :
    (put key value entries).filter (·.1 = key) = [(key, value)] := by
  have hnew : decide ((key, value).1 = key) = true := decide_eq_true rfl
  induction entries with
  | nil => rw [put, List.filter_cons, hnew]; rfl
  | cons entry rest ih =>
    have ⟨k, v⟩ := entry
    have ⟨hfirst, hrest⟩ := List.pairwise_cons.mp h
    rw [put]
    split
    · rename_i hkey
      have hothers : key ∉ rest.map (·.1) := by
        intro hmem
        have ⟨e, he, heq⟩ := List.mem_map.mp hmem
        exact (hfirst e he).1 (hkey.trans heq.symm)
      rw [List.filter_cons, hnew, filter_eq_nil_of_keys hothers]
      rfl
    · rename_i hkey
      have hold : decide ((k, v).1 = key) = false := decide_eq_false hkey
      split
      · -- a key that precedes the first one is not among the others
        rename_i hbefore
        have hothers : key ∉ rest.map (·.1) := by
          intro hmem
          have ⟨e, he, heq⟩ := List.mem_map.mp hmem
          have hnot := (hfirst e he).2
          rw [show e.1 = key from heq, hbefore] at hnot
          cases hnot
        rw [List.filter_cons, hnew, List.filter_cons, hold, filter_eq_nil_of_keys hothers]
        rfl
      · rw [List.filter_cons, hold, ← ih hrest]
        rfl

/-- Under a key an object has what was written there last. -/
theorem filter_fromEntries (es : List (String × α)) (key : String) :
    (fromEntries es).filter (·.1 = key) = (es.filter (·.1 = key)).getLast?.toList := by
  induction es using List.reverseRecOn with
  | nil => rfl
  | append_singleton es e ih =>
    have ⟨k, v⟩ := e
    have hstep : fromEntries (es ++ [(k, v)]) = put k v (fromEntries es) := by
      rw [fromEntries, List.foldl_append]
      rfl
    rw [hstep, List.filter_append]
    by_cases hkey : k = key
    · subst hkey
      rw [filter_put_self (arranged_fromEntries es), List.filter_cons, if_pos (decide_eq_true rfl),
        List.filter_nil, List.getLast?_concat]
      rfl
    · have hsingle : [(k, v)].filter (·.1 = key) = [] := by
        rw [List.filter_cons, if_neg (by simpa using hkey), List.filter_nil]
      rw [filter_put_of_ne hkey, hsingle, List.append_nil, ih]

end Entries

/-! ## Values -/

/-- The numbers a program computes with, and their texts; what is not finite has none. -/
structure Numbers (ν : Type) where
  text : ν → Option String
  /-- The number that a literal stands for. -/
  parse : String → ν
  text_parse : ∀ n literal, text n = some literal → text (parse literal) = some literal

inductive Value (ν Ref : Type)
  | undefined
  | null
  | bool (value : Bool)
  | number (value : ν)
  | string (value : String)
  | reference (target : Ref)
  /-- A function, a symbol or a big integer. -/
  | other

inductive Contents (ν Ref : Type)
  | array (items : List (Value ν Ref))
  | object (entries : List (String × Value ν Ref)) (arranged : Arranged entries)

abbrev Heap (ν Ref : Type) := Ref → Contents ν Ref

variable {ν Ref Ref' : Type}

/-- `JSON.stringify` writes null for what is not finite. -/
def Numbers.toJson (N : Numbers ν) (n : ν) : Json :=
  match N.text n with
  | some literal => .number literal
  | none => .null

def Value.map (f : Ref → Ref') : Value ν Ref → Value ν Ref'
  | undefined => undefined
  | null => null
  | bool value => bool value
  | number value => number value
  | string value => string value
  | reference target => reference (f target)
  | other => other

def Contents.map (f : Ref → Ref') : Contents ν Ref → Contents ν Ref'
  | array items => array (items.map (Value.map f))
  | object entries arranged =>
    object (entries.map fun e => (e.1, e.2.map f)) (arranged.map fun e => e.2.map f)

/-- A memory with a new object in it. -/
def Heap.withObject (heap : Heap ν Ref) (entries : List (String × Value ν Ref)) :
    Heap ν (Option Ref)
  | none => .object (fromEntries (entries.map fun e => (e.1, e.2.map some)))
      (arranged_fromEntries _)
  | some r => (heap r).map some

/-! ## What `JSON.parse` yields -/

def child : Json → Nat → Option Json
  | .array items, i => items[i]?
  | .object fields, i => fields[i]?.map (·.2)
  | _, _ => none

/-- The value at the end of a path. -/
def valueAt (root : Json) : List Nat → Option Json
  | [] => some root
  | i :: path => (child root i).bind (valueAt · path)

/-- A value of the text that stands at a path. -/
def ofJson (N : Numbers ν) (path : List Nat) : Json → Value ν (List Nat)
  | .null => .null
  | .bool value => .bool value
  | .number literal => .number (N.parse literal)
  | .string value => .string value
  | .array _ => .reference path
  | .object _ => .reference path

/-- The memory of what is read; an array or an object is at its path. -/
def parsed (N : Numbers ν) (root : Json) : Heap ν (List Nat) := fun path =>
  match valueAt root path with
  | some (.array items) => .array (items.mapIdx fun i item => ofJson N (path ++ [i]) item)
  | some (.object fields) =>
    .object (fromEntries (fields.mapIdx fun i field => (field.1, ofJson N (path ++ [i]) field.2)))
      (arranged_fromEntries _)
  | _ => .array []

/-! ## What a text stands for -/

/-- A text as `JSON.stringify` writes it: its numbers are read as they are written, and the keys of
its objects are in order. -/
inductive Written (N : Numbers ν) : Json → Prop
  | null : Written N .null
  | bool (value : Bool) : Written N (.bool value)
  | number {literal : String} (h : N.text (N.parse literal) = some literal) :
      Written N (.number literal)
  | string (value : String) : Written N (.string value)
  | array {items : List Json} (h : ∀ item ∈ items, Written N item) : Written N (.array items)
  | object {fields : List (String × Json)} (harranged : Arranged fields)
      (h : ∀ field ∈ fields, Written N field.2) : Written N (.object fields)

/-- The value in memory is what the text stands for. -/
inductive Denotes (N : Numbers ν) (heap : Heap ν Ref) : Value ν Ref → Json → Prop
  | null : Denotes N heap .null .null
  | bool (value : Bool) : Denotes N heap (.bool value) (.bool value)
  | number {n : ν} {literal : String} (h : N.text n = some literal) :
      Denotes N heap (.number n) (.number literal)
  | string (value : String) : Denotes N heap (.string value) (.string value)
  | array {target : Ref} {values : List (Value ν Ref)} {items : List Json}
      (htarget : heap target = .array values) (h : List.Forall₂ (Denotes N heap) values items) :
      Denotes N heap (.reference target) (.array items)
  | object {target : Ref} {entries : List (String × Value ν Ref)} {fields : List (String × Json)}
      {arranged : Arranged entries} (htarget : heap target = .object entries arranged)
      (hkeys : entries.map (·.1) = fields.map (·.1))
      (h : List.Forall₂ (Denotes N heap) (entries.map (·.2)) (fields.map (·.2))) :
      Denotes N heap (.reference target) (.object fields)

section

variable {N : Numbers ν} {heap : Heap ν Ref} {value : Value ν Ref}

theorem Denotes.eq_null (h : Denotes N heap value .null) : value = .null := by
  cases h
  rfl

theorem Denotes.eq_string {text : String} (h : Denotes N heap value (.string text)) :
    value = .string text := by
  cases h
  rfl

theorem Denotes.exists_number {literal : String} (h : Denotes N heap value (.number literal)) :
    ∃ n, value = .number n ∧ N.text n = some literal := by
  cases h with
  | number hliteral => exact ⟨_, rfl, hliteral⟩

end

theorem valueAt_append (root : Json) (path : List Nat) (i : Nat) :
    valueAt root (path ++ [i]) = (valueAt root path).bind (child · i) := by
  induction path generalizing root with
  | nil =>
    show (child root i).bind (valueAt · []) = child root i
    cases child root i <;> rfl
  | cons j path ih =>
    show (child root j).bind (valueAt · (path ++ [i])) =
      ((child root j).bind (valueAt · path)).bind (child · i)
    cases child root j with
    | none => rfl
    | some value => exact ih value

theorem forall₂_mapIdx {α β : Type} {R : β → α → Prop} {f : Nat → α → β} {xs : List α}
    (h : ∀ i x, xs[i]? = some x → R (f i x) x) : List.Forall₂ R (xs.mapIdx f) xs := by
  rw [List.forall₂_iff_get]
  refine ⟨List.length_mapIdx, fun i hi hi' => ?_⟩
  rw [List.get_eq_getElem, List.get_eq_getElem, List.getElem_mapIdx]
  exact h i _ (List.getElem?_eq_getElem hi')

/-- What is read from a text is what the text stands for. -/
theorem denotes_parsed (N : Numbers ν) (root : Json) {json : Json} (h : Written N json)
    (path : List Nat) (hpath : valueAt root path = some json) :
    Denotes N (parsed N root) (ofJson N path json) json := by
  induction h generalizing path with
  | null => exact .null
  | bool value => exact .bool value
  | number hliteral => exact .number hliteral
  | string value => exact .string value
  | array h ih =>
    rename_i items
    have htarget : parsed N root path =
        .array (items.mapIdx fun i item => ofJson N (path ++ [i]) item) := by
      unfold parsed
      rw [hpath]
    refine .array htarget (forall₂_mapIdx fun i item hi => ?_)
    refine ih item (List.mem_of_getElem? hi) _ ?_
    rw [valueAt_append, hpath]
    exact hi
  | object harranged h ih =>
    rename_i fields
    have hkeys : (fields.mapIdx fun i field =>
        (field.1, ofJson N (path ++ [i]) field.2)).map (·.1) = fields.map (·.1) := by
      apply List.ext_getElem?
      intro i
      rw [List.getElem?_map, List.getElem?_map, List.getElem?_mapIdx, Option.map_map]
      rfl
    have hentries := harranged.congr hkeys
    have htarget : parsed N root path = .object (fields.mapIdx fun i field =>
        (field.1, ofJson N (path ++ [i]) field.2)) hentries := by
      unfold parsed
      rw [hpath]
      dsimp only
      congr 1
      exact fromEntries_of_arranged hentries
    refine .object htarget hkeys ?_
    have hvalues : (fields.mapIdx fun i field =>
        (field.1, ofJson N (path ++ [i]) field.2)).map (·.2) =
          (fields.map (·.2)).mapIdx fun i value => ofJson N (path ++ [i]) value := by
      apply List.ext_getElem?
      intro i
      rw [List.getElem?_map, List.getElem?_mapIdx, List.getElem?_mapIdx, List.getElem?_map,
        Option.map_map, Option.map_map]
      rfl
    rw [hvalues]
    refine forall₂_mapIdx fun i value hi => ?_
    rw [List.getElem?_map, Option.map_eq_some_iff] at hi
    have ⟨field, hfield, hvalue⟩ := hi
    rw [← hvalue]
    refine ih field (List.mem_of_getElem? hfield) _ ?_
    rw [valueAt_append, hpath]
    show fields[i]?.map (·.2) = some field.2
    rw [hfield]
    rfl

end Js
