import Mathlib.Data.List.AList
import Mathlib.Data.List.Nodup
import Mathlib.Data.List.Perm.Subperm

/-!
# Session cookies

`writeSessionRef`, `readSessionRef` and `clearSession` of `handlers.ts`: a reference is split over
numbered chunk cookies and joined again.  A browser's jar is the cookies it presents, which
`Set-Cookie` lines update one by one.
-/

namespace Wallow.Bff

inductive BffCookieSameSite where
  | lax
  | strict
  deriving DecidableEq

/-- The cookie settings of `BffConfig`; `loadConfig` accepts positive lifetimes only. -/
structure CookieConfig where
  cookieName : String
  cookieSecure : Bool
  cookieSameSite : BffCookieSameSite
  sessionTtlSeconds : Int
  sessionTtlSeconds_pos : 1 ≤ sessionTtlSeconds

structure CookieAttributes where
  httpOnly : Bool
  sameSite : BffCookieSameSite
  secure : Bool
  maxAge : Option Int
  deriving DecidableEq

/-- One `Set-Cookie` line. -/
structure SetCookie where
  name : String
  value : String
  attributes : CookieAttributes
  deriving DecidableEq

def MAX_COOKIE_VALUE_LENGTH : Nat := 3800
def MAX_CHUNK_CLEAR : Nat := 16
def FIRST_CHUNK_INDEX : Nat := 0
def SECOND_CHUNK_INDEX : Nat := 1
def SINGLE_CHUNK : Nat := 1
def CLEARED_MAX_AGE : Int := 0

def baseCookieOpts (secure : Bool) (sameSite : BffCookieSameSite) : CookieAttributes :=
  { httpOnly := true, sameSite, secure, maxAge := none }

def sessionCookieOpts (config : CookieConfig) : CookieAttributes :=
  { baseCookieOpts config.cookieSecure config.cookieSameSite with
    maxAge := some config.sessionTtlSeconds }

def clearCookieOpts (config : CookieConfig) (httpOnly : Bool) : CookieAttributes :=
  { baseCookieOpts config.cookieSecure config.cookieSameSite with
    httpOnly, maxAge := some CLEARED_MAX_AGE }

def csrfCookieName (cookieName : String) : String := cookieName ++ "-csrf"

/-- Chunk 0 keeps the base name. -/
def chunkCookieName (cookieName : String) (index : Nat) : String :=
  if index = FIRST_CHUNK_INDEX then cookieName else cookieName ++ "." ++ toString index

def chunkCount (ref : String) : Nat :=
  max SINGLE_CHUNK ((ref.length + MAX_COOKIE_VALUE_LENGTH - 1) / MAX_COOKIE_VALUE_LENGTH)

/-- `ref.slice(start, start + MAX_COOKIE_VALUE_LENGTH)` for the chunk at `index`. -/
def chunkValue (ref : String) (index : Nat) : String :=
  String.ofList ((ref.toList.drop (index * MAX_COOKIE_VALUE_LENGTH)).take MAX_COOKIE_VALUE_LENGTH)

def chunkLine (config : CookieConfig) (ref : String) (index : Nat) : SetCookie :=
  ⟨chunkCookieName config.cookieName index, chunkValue ref index, sessionCookieOpts config⟩

def staleLine (config : CookieConfig) (index : Nat) : SetCookie :=
  ⟨chunkCookieName config.cookieName index, "", clearCookieOpts config true⟩

/-- The chunks of `ref`, then the expiry of the stale positions after them. -/
def writeSessionRef (config : CookieConfig) (ref : String) : List SetCookie :=
  (List.range (chunkCount ref)).map (chunkLine config ref) ++
  (List.range' (chunkCount ref) (MAX_CHUNK_CLEAR - chunkCount ref)).map (staleLine config)

/-! ## The browser -/

/-- The cookies a browser presents, by name. -/
abbrev Jar := AList fun _ : String => String

namespace Jar

/-- A line with no lifetime left removes its cookie. -/
def apply (jar : Jar) (line : SetCookie) : Jar :=
  match line.attributes.maxAge with
  | none => jar.insert line.name line.value
  | some maxAge => if maxAge ≤ 0 then jar.erase line.name else jar.insert line.name line.value

def applyAll (jar : Jar) (lines : List SetCookie) : Jar :=
  lines.foldl apply jar

end Jar

/-- The chunks from `index` on, up to the first missing or empty one.  The loop finds each chunk
under a name of its own, so it ends within `jar.keys.length` rounds. -/
def readChunks (jar : Jar) (cookieName : String) : Nat → Nat → String
  | 0, _ => ""
  | fuel + 1, index =>
    match jar.lookup (chunkCookieName cookieName index) with
    | none => ""
    | some part => if part = "" then "" else part ++ readChunks jar cookieName fuel (index + 1)

def readSessionRef (jar : Jar) (config : CookieConfig) : Option String :=
  match jar.lookup config.cookieName with
  | none => none
  | some first =>
    if first = "" then none
    else some (first ++ readChunks jar config.cookieName jar.keys.length SECOND_CHUNK_INDEX)

def clearSession (jar : Jar) (config : CookieConfig) : List SetCookie :=
  ⟨config.cookieName, "", clearCookieOpts config true⟩ ::
  ⟨csrfCookieName config.cookieName, "", clearCookieOpts config false⟩ ::
  (jar.keys.filter fun name => (config.cookieName ++ ".").toList.isPrefixOf name.toList).map
    fun name => ⟨name, "", clearCookieOpts config true⟩

/-! ## Chunk names -/

theorem chunkCookieName_injective (cookieName : String) :
    Function.Injective (chunkCookieName cookieName) := by
  have hdot : ∀ n : Nat, cookieName ≠ cookieName ++ "." ++ toString n := by
    intro n h
    have hlen := congrArg String.length h
    simp only [String.length_append] at hlen
    have hone : (".").length = 1 := rfl
    omega
  intro i j h
  unfold chunkCookieName FIRST_CHUNK_INDEX at h
  by_cases hi : i = 0 <;> by_cases hj : j = 0
  · rw [hi, hj]
  · rw [if_pos hi, if_neg hj] at h
    exact (hdot j h).elim
  · rw [if_neg hi, if_pos hj] at h
    exact (hdot i h.symm).elim
  · rw [if_neg hi, if_neg hj] at h
    have hlist := congrArg String.toList h
    simp only [String.toList_append, List.append_cancel_left_eq, String.toList_inj] at hlist
    have hdigits : Nat.toDigits 10 i = Nat.toDigits 10 j := by
      simpa [toString, Nat.repr] using congrArg String.toList hlist
    have hi' := Nat.ofDigitChars_ten_toDigits (n := i)
    rw [hdigits, Nat.ofDigitChars_ten_toDigits] at hi'
    exact hi'.symm

/-! ## Chunk values -/

theorem chunkCount_pos (ref : String) : 0 < chunkCount ref := by
  unfold chunkCount SINGLE_CHUNK
  omega

theorem length_le_chunks (ref : String) :
    ref.length ≤ chunkCount ref * MAX_COOKIE_VALUE_LENGTH := by
  unfold chunkCount SINGLE_CHUNK MAX_COOKIE_VALUE_LENGTH
  omega

theorem chunk_starts_inside {ref : String} (href : ref ≠ "") {index : Nat}
    (h : index < chunkCount ref) : index * MAX_COOKIE_VALUE_LENGTH < ref.length := by
  have hpos : 0 < ref.length := by
    rw [Nat.pos_iff_ne_zero]
    intro hzero
    exact href (String.length_eq_zero_iff.mp hzero)
  unfold chunkCount SINGLE_CHUNK MAX_COOKIE_VALUE_LENGTH at h
  unfold MAX_COOKIE_VALUE_LENGTH
  omega

theorem chunkValue_ne_empty {ref : String} (href : ref ≠ "") {index : Nat}
    (h : index < chunkCount ref) : chunkValue ref index ≠ "" := by
  intro hempty
  have hlen := congrArg String.length hempty
  have hstart := chunk_starts_inside href h
  have hpos : 0 < MAX_COOKIE_VALUE_LENGTH := by decide
  have hzero : ("" : String).length = 0 := rfl
  simp only [chunkValue, String.length_ofList, List.length_take, List.length_drop,
    String.length_toList, hzero] at hlen
  omega

/-- Joining `n` chunks from `index` on gives the text they cover. -/
theorem join_chunks (ref : String) (index n : Nat) :
    ((List.range' index n).map fun i => (chunkValue ref i).toList).flatten =
      (ref.toList.drop (index * MAX_COOKIE_VALUE_LENGTH)).take (n * MAX_COOKIE_VALUE_LENGTH) := by
  induction n generalizing index with
  | zero => simp
  | succ n ih =>
      have hsplit : (n + 1) * MAX_COOKIE_VALUE_LENGTH =
          MAX_COOKIE_VALUE_LENGTH + n * MAX_COOKIE_VALUE_LENGTH := by
        rw [Nat.succ_mul, Nat.add_comm]
      have hnext : (index + 1) * MAX_COOKIE_VALUE_LENGTH =
          index * MAX_COOKIE_VALUE_LENGTH + MAX_COOKIE_VALUE_LENGTH := Nat.succ_mul _ _
      rw [List.range'_succ, List.map_cons, List.flatten_cons, ih, hsplit, List.take_add, hnext,
        List.drop_drop, chunkValue, String.toList_ofList]

/-! ## The jar after a write -/

namespace Jar

variable {jar : Jar} {line : SetCookie} {lines : List SetCookie} {name : String}

theorem lookup_apply_of_ne (h : name ≠ line.name) :
    (jar.apply line).lookup name = jar.lookup name := by
  unfold apply
  split
  · exact AList.lookup_insert_ne h
  · split
    · exact AList.lookup_erase_ne h
    · exact AList.lookup_insert_ne h

theorem lookup_apply_kept {maxAge : Int} (h : line.attributes.maxAge = some maxAge)
    (hpos : 1 ≤ maxAge) : (jar.apply line).lookup line.name = some line.value := by
  have hlive : ¬ maxAge ≤ 0 := by omega
  simp [apply, h, hlive]

theorem lookup_apply_cleared (h : line.attributes.maxAge = some CLEARED_MAX_AGE) :
    (jar.apply line).lookup line.name = none := by
  simp [apply, h, CLEARED_MAX_AGE]

theorem applyAll_append (jar : Jar) (lines lines' : List SetCookie) :
    jar.applyAll (lines ++ lines') = (jar.applyAll lines).applyAll lines' :=
  List.foldl_append

theorem lookup_applyAll_of_ne (h : ∀ line ∈ lines, name ≠ line.name) :
    (jar.applyAll lines).lookup name = jar.lookup name := by
  induction lines generalizing jar with
  | nil => rfl
  | cons line lines ih =>
      have htail : ∀ line' ∈ lines, name ≠ line'.name := fun line' hmem =>
        h line' (List.mem_cons_of_mem _ hmem)
      have hhead : (jar.apply line).lookup name = jar.lookup name :=
        lookup_apply_of_ne (h line List.mem_cons_self)
      exact (ih htail).trans hhead

/-- Among lines about different chunks, the one about a chunk decides it. -/
theorem lookup_applyAll_chunk (jar : Jar) {cookieName : String} {f : Nat → SetCookie}
    (hname : ∀ i, (f i).name = chunkCookieName cookieName i) {indices : List Nat}
    (hnodup : indices.Nodup) {i : Nat} (hi : i ∈ indices) :
    ∃ jar' : Jar, (jar.applyAll (indices.map f)).lookup (chunkCookieName cookieName i) =
      (jar'.apply (f i)).lookup (chunkCookieName cookieName i) := by
  obtain ⟨before, after, rfl⟩ := List.append_of_mem hi
  have hafter : i ∉ after := by
    have hcons := (List.nodup_append.mp hnodup).2.1
    exact (List.nodup_cons.mp hcons).1
  refine ⟨jar.applyAll (before.map f), ?_⟩
  have hsplit : jar.applyAll ((before ++ i :: after).map f) =
      ((jar.applyAll (before.map f)).apply (f i)).applyAll (after.map f) := by
    rw [List.map_append, applyAll_append, List.map_cons]
    rfl
  rw [hsplit]
  refine lookup_applyAll_of_ne fun line hmem => ?_
  obtain ⟨j, hj, rfl⟩ := List.mem_map.mp hmem
  rw [hname]
  intro heq
  exact hafter (chunkCookieName_injective cookieName heq ▸ hj)

end Jar

variable {config : CookieConfig} {jar : Jar}

/-- What a write leaves at each chunk position. -/
theorem lookup_writeSessionRef (config : CookieConfig) (jar : Jar) (ref : String) (index : Nat) :
    (jar.applyAll (writeSessionRef config ref)).lookup
        (chunkCookieName config.cookieName index) =
      if index < chunkCount ref then some (chunkValue ref index)
      else if index < MAX_CHUNK_CLEAR then none
      else jar.lookup (chunkCookieName config.cookieName index) := by
  have hother : ∀ (f : Nat → SetCookie) (indices : List Nat) (jar : Jar),
      (∀ i, (f i).name = chunkCookieName config.cookieName i) → index ∉ indices →
      (jar.applyAll (indices.map f)).lookup (chunkCookieName config.cookieName index) =
        jar.lookup (chunkCookieName config.cookieName index) := by
    intro f indices jar hname hnot
    refine Jar.lookup_applyAll_of_ne fun line hmem => ?_
    obtain ⟨j, hj, rfl⟩ := List.mem_map.mp hmem
    rw [hname]
    intro heq
    exact hnot (chunkCookieName_injective _ heq ▸ hj)
  rw [writeSessionRef, Jar.applyAll_append]
  by_cases hwritten : index < chunkCount ref
  · have hcleared : index ∉ List.range' (chunkCount ref) (MAX_CHUNK_CLEAR - chunkCount ref) := by
      intro hmem
      have hle := (List.mem_range'_1.mp hmem).1
      omega
    rw [if_pos hwritten, hother _ _ _ (fun _ => rfl) hcleared]
    obtain ⟨jar', hjar'⟩ := Jar.lookup_applyAll_chunk jar (f := chunkLine config ref)
      (fun _ => rfl) List.nodup_range (List.mem_range.mpr hwritten)
    have hmaxAge : (chunkLine config ref index).attributes.maxAge =
        some config.sessionTtlSeconds := rfl
    rw [hjar']
    exact Jar.lookup_apply_kept hmaxAge config.sessionTtlSeconds_pos
  · rw [if_neg hwritten]
    by_cases hclear : index < MAX_CHUNK_CLEAR
    · have hmem : index ∈ List.range' (chunkCount ref) (MAX_CHUNK_CLEAR - chunkCount ref) :=
        List.mem_range'_1.mpr ⟨by omega, by omega⟩
      rw [if_pos hclear]
      obtain ⟨jar', hjar'⟩ := Jar.lookup_applyAll_chunk
        (jar.applyAll ((List.range (chunkCount ref)).map (chunkLine config ref)))
        (f := staleLine config) (fun _ => rfl) List.nodup_range' hmem
      have hmaxAge : (staleLine config index).attributes.maxAge = some CLEARED_MAX_AGE := rfl
      rw [hjar']
      exact Jar.lookup_apply_cleared hmaxAge
    · have hcleared : index ∉ List.range' (chunkCount ref) (MAX_CHUNK_CLEAR - chunkCount ref) := by
        intro hmem
        have hlt := (List.mem_range'_1.mp hmem).2
        omega
      have hrange : index ∉ List.range (chunkCount ref) := by
        rw [List.mem_range]
        exact hwritten
      rw [if_neg hclear, hother _ _ _ (fun _ => rfl) hcleared, hother _ _ _ (fun _ => rfl) hrange]

/-! ## The reference read back -/

/-- Chunks under names of their own need as many cookies. -/
theorem chunks_le_keys (cookieName : String) {n : Nat}
    (h : ∀ i < n, ∃ part, jar.lookup (chunkCookieName cookieName i) = some part) :
    n ≤ jar.keys.length := by
  have hnodup : ((List.range n).map (chunkCookieName cookieName)).Nodup :=
    List.nodup_range.map (chunkCookieName_injective cookieName)
  have hsub : (List.range n).map (chunkCookieName cookieName) ⊆ jar.keys := by
    intro name hmem
    obtain ⟨i, hi, rfl⟩ := List.mem_map.mp hmem
    obtain ⟨part, hpart⟩ := h i (List.mem_range.mp hi)
    exact AList.mem_keys.mp (AList.lookup_isSome.mp (by rw [hpart]; rfl))
  have hlen := (List.subperm_of_subset hnodup hsub).length_le
  simpa using hlen

/-- The loop joins the chunks it finds and goes on after them. -/
theorem readChunks_run (cookieName : String) (value : Nat → String) {n fuel index : Nat}
    (hn : n ≤ fuel) (h : ∀ i, index ≤ i → i < index + n →
      jar.lookup (chunkCookieName cookieName i) = some (value i) ∧ value i ≠ "") :
    (readChunks jar cookieName fuel index).toList =
      ((List.range' index n).map fun i => (value i).toList).flatten ++
        (readChunks jar cookieName (fuel - n) (index + n)).toList := by
  induction n generalizing fuel index with
  | zero => simp
  | succ n ih =>
      obtain ⟨fuel, rfl⟩ : ∃ k, fuel = k + 1 := ⟨fuel - 1, by omega⟩
      obtain ⟨hlookup, hne⟩ := h index (Nat.le_refl _) (by omega)
      have hrest := ih (Nat.le_of_succ_le_succ hn) fun i (hle : index + 1 ≤ i) hlt =>
        h i (by omega) (by omega)
      have hindex : index + 1 + n = index + (n + 1) := by omega
      rw [readChunks, hlookup]
      simp only [hne, if_false, String.toList_append, hrest, List.range'_succ, List.map_cons,
        List.flatten_cons, List.append_assoc, Nat.add_sub_add_right, hindex]

/-- Past the first missing chunk the remaining rounds do not matter. -/
theorem readChunks_fuel {jar jar' : Jar} {cookieName : String}
    (hsame : ∀ i, jar.lookup (chunkCookieName cookieName i) =
      jar'.lookup (chunkCookieName cookieName i))
    {last index fuel fuel' : Nat} (hlast : jar.lookup (chunkCookieName cookieName last) = none)
    (hindex : index ≤ last) (hfuel : last < index + fuel) (hfuel' : last < index + fuel') :
    readChunks jar cookieName fuel index = readChunks jar' cookieName fuel' index := by
  induction fuel generalizing index fuel' with
  | zero => omega
  | succ fuel ih =>
      obtain ⟨fuel', rfl⟩ : ∃ k, fuel' = k + 1 := ⟨fuel' - 1, by omega⟩
      rw [readChunks, readChunks, ← hsame index]
      cases hpart : jar.lookup (chunkCookieName cookieName index) with
      | none => rfl
      | some part =>
          have hne : index ≠ last := by
            intro heq
            rw [heq, hlast] at hpart
            cases hpart
          have hrest : readChunks jar cookieName fuel (index + 1) =
              readChunks jar' cookieName fuel' (index + 1) :=
            ih (by omega) (by omega) (by omega)
          simp only [hrest]

/-- The reference depends on the chunk cookies only. -/
theorem readSessionRef_congr {jar jar' : Jar}
    (hsame : ∀ i, jar.lookup (chunkCookieName config.cookieName i) =
      jar'.lookup (chunkCookieName config.cookieName i)) :
    readSessionRef jar config = readSessionRef jar' config := by
  have hmissing : ∃ last, last ≤ min jar.keys.length jar'.keys.length ∧
      jar.lookup (chunkCookieName config.cookieName last) = none := by
    by_contra hall
    have hpresent : ∀ i < min jar.keys.length jar'.keys.length + 1,
        ∃ part, jar.lookup (chunkCookieName config.cookieName i) = some part := by
      intro i hi
      cases hpart : jar.lookup (chunkCookieName config.cookieName i) with
      | none => exact (hall ⟨i, by omega, hpart⟩).elim
      | some part => exact ⟨part, rfl⟩
    have hleft := chunks_le_keys config.cookieName hpresent
    have hright := chunks_le_keys config.cookieName fun i hi => hsame i ▸ hpresent i hi
    omega
  obtain ⟨last, hle, hlast⟩ := hmissing
  have hbase := hsame 0
  have hname : chunkCookieName config.cookieName 0 = config.cookieName := rfl
  rw [hname] at hbase
  unfold readSessionRef
  rw [← hbase]
  cases hfirst : jar.lookup config.cookieName with
  | none => rfl
  | some first =>
      have hpos : SECOND_CHUNK_INDEX ≤ last := by
        unfold SECOND_CHUNK_INDEX
        rw [Nat.one_le_iff_ne_zero]
        rintro rfl
        rw [hname, hfirst] at hlast
        cases hlast
      have hleft : last < SECOND_CHUNK_INDEX + jar.keys.length := by
        unfold SECOND_CHUNK_INDEX
        omega
      have hright : last < SECOND_CHUNK_INDEX + jar'.keys.length := by
        unfold SECOND_CHUNK_INDEX
        omega
      simp only [readChunks_fuel hsame hlast hpos hleft hright]

/-- No stale chunk follows the last chunk of `ref`: either the write expires that position, or the
jar has nothing there. -/
def ChunksClear (config : CookieConfig) (jar : Jar) (ref : String) : Prop :=
  chunkCount ref < MAX_CHUNK_CLEAR ∨
    ∀ part, jar.lookup (chunkCookieName config.cookieName (chunkCount ref)) = some part →
      part = ""

theorem readSessionRef_empty (config : CookieConfig) (jar : Jar) :
    readSessionRef (jar.applyAll (writeSessionRef config "")) config = none := by
  have hbase := lookup_writeSessionRef config jar "" 0
  rw [if_pos (chunkCount_pos "")] at hbase
  have hname : chunkCookieName config.cookieName 0 = config.cookieName := rfl
  have hvalue : chunkValue "" 0 = "" := by decide +kernel
  rw [hname, hvalue] at hbase
  simp [readSessionRef, hbase]

/-- A written reference is read back whole, with a stale remainder only if the positions after it
are not clear. -/
theorem readSessionRef_written (config : CookieConfig) (jar : Jar) {ref : String}
    (href : ref ≠ "") :
    ∃ rest, readSessionRef (jar.applyAll (writeSessionRef config ref)) config =
        some (ref ++ rest) ∧ (rest = "" ↔ ChunksClear config jar ref) := by
  have hpos := chunkCount_pos ref
  have hchunk : ∀ i < chunkCount ref, (jar.applyAll (writeSessionRef config ref)).lookup
      (chunkCookieName config.cookieName i) = some (chunkValue ref i) := by
    intro i hi
    rw [lookup_writeSessionRef, if_pos hi]
  have hkeys : chunkCount ref ≤ (jar.applyAll (writeSessionRef config ref)).keys.length :=
    chunks_le_keys config.cookieName fun i hi => ⟨_, hchunk i hi⟩
  have hafter := lookup_writeSessionRef config jar ref (chunkCount ref)
  rw [if_neg (Nat.lt_irrefl _)] at hafter
  have hbase := hchunk 0 hpos
  have hname : chunkCookieName config.cookieName 0 = config.cookieName := rfl
  rw [hname] at hbase
  generalize hjar : jar.applyAll (writeSessionRef config ref) = jar' at *
  refine ⟨readChunks jar' config.cookieName (jar'.keys.length - (chunkCount ref - 1))
    (chunkCount ref), ?_, ?_⟩
  · have hfuel : chunkCount ref - 1 ≤ jar'.keys.length := by omega
    have hrun := readChunks_run config.cookieName (chunkValue ref) hfuel
      fun i (_ : 1 ≤ i) hlt => ⟨hchunk i (by omega), chunkValue_ne_empty href (by omega)⟩
    have hone : 1 + (chunkCount ref - 1) = chunkCount ref := by omega
    have hjoin : (chunkValue ref 0).toList ++ ((List.range' 1 (chunkCount ref - 1)).map
        fun i => (chunkValue ref i).toList).flatten = ref.toList := by
      have hall := join_chunks ref 0 (chunkCount ref)
      have hcover : ref.toList.length ≤ chunkCount ref * MAX_COOKIE_VALUE_LENGTH := by
        rw [String.length_toList]
        exact length_le_chunks ref
      rw [Nat.zero_mul, List.drop_zero, List.take_of_length_le hcover] at hall
      rw [← hall]
      obtain ⟨n, hn⟩ : ∃ n, chunkCount ref = n + 1 := ⟨chunkCount ref - 1, by omega⟩
      rw [hn, List.range'_succ, List.map_cons, List.flatten_cons]
      rfl
    simp only [readSessionRef, hbase, chunkValue_ne_empty href hpos, if_false, SECOND_CHUNK_INDEX,
      Option.some.injEq]
    rw [← String.toList_inj, String.toList_append, String.toList_append, hrun, hone,
      ← List.append_assoc, hjoin]
  · unfold ChunksClear
    by_cases hclear : chunkCount ref < MAX_CHUNK_CLEAR
    · rw [if_pos hclear] at hafter
      have hnone : ∀ fuel, readChunks jar' config.cookieName fuel (chunkCount ref) = "" := by
        intro fuel
        cases fuel with
        | zero => rfl
        | succ fuel => rw [readChunks, hafter]
      simp [hnone, hclear]
    · rw [if_neg hclear] at hafter
      rw [← hafter]
      cases hlast : jar'.lookup (chunkCookieName config.cookieName (chunkCount ref)) with
      | none =>
          have hnone : ∀ fuel, readChunks jar' config.cookieName fuel (chunkCount ref) = "" := by
            intro fuel
            cases fuel with
            | zero => rfl
            | succ fuel => rw [readChunks, hlast]
          simp [hnone]
      | some part =>
          -- the stale chunk is one more cookie, so the loop has a round left for it
          have hmore : chunkCount ref + 1 ≤ jar'.keys.length := by
            refine chunks_le_keys config.cookieName fun i hi => ?_
            by_cases hlt : i < chunkCount ref
            · exact ⟨_, hchunk i hlt⟩
            · have heq : i = chunkCount ref := by omega
              exact ⟨part, heq ▸ hlast⟩
          obtain ⟨fuel, hfuel⟩ : ∃ k, jar'.keys.length - (chunkCount ref - 1) = k + 1 :=
            ⟨jar'.keys.length - chunkCount ref, by omega⟩
          rw [hfuel, readChunks, hlast]
          by_cases hpart : part = ""
          · simp [hpart]
          · simp [hpart, hclear]

end Wallow.Bff
