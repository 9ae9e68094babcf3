import Wallow.Bff.Cookies
import Mathlib.Data.List.Induction

/-!
# Sequences of session cookie responses

A browser receives responses that write and clear the session cookie, several times in one
response if need be.  What it presents afterwards is decided by the last of them alone, however
many chunks the earlier references took.
-/

namespace Wallow.Bff

/-- The characters that `encodeURIComponent` leaves alone: these are one UTF-16 unit each and go
through a cookie unchanged. -/
def isCookieSafe (c : Char) : Bool :=
  c.isAlphanum || c ∈ ['-', '_', '.', '!', '~', '*', '\'', '(', ')']

/-- A reference a session store hands out: not empty, and within the chunk positions that a later
write expires. -/
structure SessionRef where
  text : String
  ne_empty : text ≠ ""
  safe : text.toList.all isCookieSafe = true
  fits : chunkCount text ≤ MAX_CHUNK_CLEAR

/-- One call on the headers of a response.  The request that a clear answers presents whatever
cookies the browser held when it was sent. -/
inductive CookieOp where
  | writeSessionRef (ref : SessionRef)
  | clearSession (request : Jar)

namespace CookieOp

def lines (config : CookieConfig) : CookieOp → List SetCookie
  | .writeSessionRef ref => Bff.writeSessionRef config ref.text
  | .clearSession request => Bff.clearSession request config

/-- What the browser should present once the call's lines are applied. -/
def outcome : CookieOp → Option String
  | .writeSessionRef ref => some ref.text
  | .clearSession _ => none

end CookieOp

/-- The jar after one response. -/
def receive (config : CookieConfig) (jar : Jar) (response : List CookieOp) : Jar :=
  jar.applyAll (response.flatMap (CookieOp.lines config))

def browse (config : CookieConfig) (jar : Jar) (responses : List (List CookieOp)) : Jar :=
  responses.foldl (receive config) jar

/-- The outcome of the last call of all; a browser that got none has no session. -/
def lastOutcome (responses : List (List CookieOp)) : Option String :=
  responses.flatten.getLast?.bind CookieOp.outcome

/-! ## The positions a write does not expire -/

/-- No chunk cookie stands at a position that writes leave alone. -/
def ChunksBounded (config : CookieConfig) (jar : Jar) : Prop :=
  ∀ index, MAX_CHUNK_CLEAR ≤ index →
    jar.lookup (chunkCookieName config.cookieName index) = none

variable {config : CookieConfig} {jar : Jar}

/-- Lines that only expire cookies take cookies away. -/
theorem lookup_applyAll_expired {lines : List SetCookie} {name : String}
    (h : ∀ line ∈ lines, line.attributes.maxAge = some CLEARED_MAX_AGE)
    (hnone : jar.lookup name = none) : (jar.applyAll lines).lookup name = none := by
  induction lines generalizing jar with
  | nil => exact hnone
  | cons line lines ih =>
    have htail : ∀ line' ∈ lines, line'.attributes.maxAge = some CLEARED_MAX_AGE :=
      fun line' hmem => h line' (List.mem_cons_of_mem _ hmem)
    refine ih htail ?_
    by_cases hname : name = line.name
    · rw [hname]
      exact Jar.lookup_apply_cleared (h line List.mem_cons_self)
    · rw [Jar.lookup_apply_of_ne hname]
      exact hnone

theorem clearSession_maxAge (request : Jar) (config : CookieConfig) :
    ∀ line ∈ clearSession request config, line.attributes.maxAge = some CLEARED_MAX_AGE := by
  intro line hmem
  simp only [clearSession, List.mem_cons, List.mem_map] at hmem
  obtain rfl | rfl | ⟨name, -, rfl⟩ := hmem
  · rfl
  · rfl
  · rfl

/-- The base cookie is the first thing a clear expires. -/
theorem lookup_clearSession_base (config : CookieConfig) (jar request : Jar) :
    (jar.applyAll (clearSession request config)).lookup config.cookieName = none := by
  have hrest : ∀ line ∈ (clearSession request config).tail,
      line.attributes.maxAge = some CLEARED_MAX_AGE := fun line hmem =>
    clearSession_maxAge request config line (List.mem_of_mem_tail hmem)
  have hage : (⟨config.cookieName, "", clearCookieOpts config true⟩ : SetCookie).attributes.maxAge =
      some CLEARED_MAX_AGE := rfl
  have hbase := @Jar.lookup_apply_cleared jar _ hage
  show ((jar.apply _).applyAll (clearSession request config).tail).lookup config.cookieName = none
  exact lookup_applyAll_expired hrest hbase

/-- Neither call puts a chunk where a later write would not expire it. -/
theorem ChunksBounded.applyOp (h : ChunksBounded config jar) (op : CookieOp) :
    ChunksBounded config (jar.applyAll (op.lines config)) := by
  intro index hindex
  cases op with
  | writeSessionRef ref =>
    have hfits := ref.fits
    have hbeyond : ¬ index < chunkCount ref.text := by omega
    have hkept : ¬ index < MAX_CHUNK_CLEAR := by omega
    rw [CookieOp.lines, lookup_writeSessionRef, if_neg hbeyond, if_neg hkept]
    exact h index hindex
  | clearSession request =>
    exact lookup_applyAll_expired (clearSession_maxAge request config) (h index hindex)

theorem readSessionRef_applyOp (h : ChunksBounded config jar) (op : CookieOp) :
    readSessionRef (jar.applyAll (op.lines config)) config = op.outcome := by
  cases op with
  | writeSessionRef ref =>
    have hclear : ChunksClear config jar ref.text := by
      by_cases hlt : chunkCount ref.text < MAX_CHUNK_CLEAR
      · exact Or.inl hlt
      · -- all sixteen positions are in use: the next one is empty by the invariant
        refine Or.inr fun part hpart => ?_
        rw [h _ (by omega)] at hpart
        cases hpart
    obtain ⟨rest, hread, hrest⟩ := readSessionRef_written config jar ref.ne_empty
    rw [hrest.mpr hclear] at hread
    simpa [CookieOp.lines, CookieOp.outcome] using hread
  | clearSession request =>
    simp [readSessionRef, CookieOp.lines, CookieOp.outcome, lookup_clearSession_base]

/-! ## Runs -/

/-- Response boundaries do not matter: the lines are applied in order. -/
theorem browse_eq_foldl (config : CookieConfig) (jar : Jar) (responses : List (List CookieOp)) :
    browse config jar responses =
      responses.flatten.foldl (fun jar op => jar.applyAll (op.lines config)) jar := by
  have hreceive : ∀ (response : List CookieOp) (jar : Jar), receive config jar response =
      response.foldl (fun jar op => jar.applyAll (op.lines config)) jar := by
    intro response
    induction response with
    | nil => exact fun _ => rfl
    | cons op ops ih =>
      intro jar
      rw [List.foldl_cons, ← ih, receive, receive, List.flatMap_cons, Jar.applyAll_append]
  induction responses generalizing jar with
  | nil => rfl
  | cons response responses ih =>
    rw [List.flatten_cons, List.foldl_append, ← hreceive response jar, ← ih]
    rfl

theorem ChunksBounded.foldl (h : ChunksBounded config jar) (ops : List CookieOp) :
    ChunksBounded config (ops.foldl (fun jar op => jar.applyAll (op.lines config)) jar) := by
  induction ops generalizing jar with
  | nil => exact h
  | cons op ops ih => exact ih (h.applyOp op)

/-- A browser that starts without a session presents exactly the reference last written, and none
after a clear. -/
theorem readSessionRef_browse (config : CookieConfig) (jar : Jar)
    (hjar : ∀ index, jar.lookup (chunkCookieName config.cookieName index) = none)
    (responses : List (List CookieOp)) :
    readSessionRef (browse config jar responses) config = lastOutcome responses := by
  have hbounded : ChunksBounded config jar := fun index _ => hjar index
  rw [browse_eq_foldl, lastOutcome]
  generalize responses.flatten = ops
  cases ops using List.reverseRecOn with
  | nil =>
    have hbase : jar.lookup config.cookieName = none := hjar 0
    simp [readSessionRef, hbase]
  | append_singleton ops op =>
    rw [List.foldl_append, List.foldl_cons, List.foldl_nil,
      readSessionRef_applyOp (hbounded.foldl ops), List.getLast?_concat, Option.bind_some]

/-- A reference of two chunks, then in one response a clear and a reference of one chunk. -/
def longRef : SessionRef where
  text := String.ofList (List.replicate 3801 'a')
  ne_empty := by
    intro h
    have hlen := congrArg String.length h
    rw [String.length_ofList, List.length_replicate] at hlen
    have hzero : ("" : String).length = 0 := rfl
    omega
  safe := by
    rw [String.toList_ofList, List.all_eq_true]
    intro c hc
    rw [List.eq_of_mem_replicate hc]
    decide
  fits := by
    unfold chunkCount
    rw [String.length_ofList, List.length_replicate]
    decide

def shortRef : SessionRef where
  text := "b"
  ne_empty := by decide
  safe := by decide +kernel
  fits := by decide +kernel

theorem readSessionRef_browse_shrinking :
    let config : CookieConfig := ⟨"wallow", true, .lax, 3600, by decide⟩
    readSessionRef (browse config ∅ [[.writeSessionRef longRef],
      [.clearSession ∅, .writeSessionRef shortRef]]) config = some "b" :=
  readSessionRef_browse ⟨"wallow", true, .lax, 3600, by decide⟩ ∅ (fun _ => AList.lookup_empty _)
    [[.writeSessionRef longRef], [.clearSession ∅, .writeSessionRef shortRef]]

end Wallow.Bff
