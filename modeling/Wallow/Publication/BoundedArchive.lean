import Wallow.Lib.TarReader

/-!
# Bounded archives

`bounded_tar` of `publication_archives.py` with plain headers: the compressed file is read up to a
limit, every header block is checked, and only then is the archive opened.  The check and the reader
walk the same bytes on their own; what the reader yields is what was checked.
-/

namespace Wallow.Publication

open Tar

/-- The errors that `prepare_site` catches.  A `PublicationError` is a `ValueError`. -/
inductive Caught
  | publication (message : String)
  /-- A `TarError`, or the `UnicodeError` of a name. -/
  | tar (failure : Failure)
  | os
  | eof
  /-- `ValueError`, of a number that fits in no header. -/
  | value
  deriving DecidableEq

/-- What Python raises here: `zlib.error`, of compressed data that is damaged, is none of these. -/
inductive Raised
  | caught (error : Caught)
  | zlib
  deriving DecidableEq

/-- How reading a compressed file ends. -/
inductive StreamEnd
  | complete
  | badGzip
  | truncated
  | corrupt
  deriving DecidableEq

/-- A compressed file: what each read of it delivers. -/
structure GzipStream where
  chunks : List Bytes
  ending : StreamEnd
  deriving DecidableEq

def StreamEnd.raised : StreamEnd → Option Raised
  | .complete => none
  | .badGzip => some (.caught .os)
  | .truncated => some (.caught .eof)
  | .corrupt => some .zlib

/-- The decompressed bytes.  An empty read is the end. -/
def readChunks (limit : Int) (ending : StreamEnd) : Bytes → List Bytes → Except Raised Bytes
  | raw, [] =>
    match ending.raised with
    | none => .ok raw
    | some error => .error error
  | raw, chunk :: chunks =>
    if chunk = [] then .ok raw
    else if limit < ((raw ++ chunk).length : Int) then
      .error (.caught (.publication "Archive exceeds its decompressed limit"))
    else readChunks limit ending (raw ++ chunk) chunks

/-- All that is delivered before an empty read. -/
def GzipStream.bytes (stream : GzipStream) : Bytes := (stream.chunks.takeWhile (· ≠ [])).flatten

/-! ## The header pass -/

/-- A header the pass let through, and where it stands. -/
structure Checked where
  offset : Nat
  info : TarInfo
  deriving DecidableEq

def isLongname (longnameLimit : Int) (member : TarInfo) : Bool :=
  member.type = gnuLongName ∧ 0 < member.size ∧ member.size ≤ longnameLimit

/-- The pass over the header blocks, from a position on. -/
def checkHeaders (raw : Bytes) (longnameLimit : Int) :
    Nat → Nat → Bool → Except Caught (List Checked)
  | 0, _, _ => .error (.tar .outOfFuel)
  | fuel + 1, position, pendingLongname =>
    if atEnd raw position then
      if pendingLongname then
        .error (.publication "Archive contains an unresolved extended name")
      else .ok []
    else
      match frombuf .strict (readAt raw position blockSize) with
      | .error failure => .error (.tar failure)
      | .ok member =>
        if pendingLongname ∧ isLongname longnameLimit member then
          .error (.publication "Archive contains chained extended names")
        else if (member.type ∉ plainTypes ∧ ¬isLongname longnameLimit member) ∨
            member.size < 0 then
          .error (.publication
            "Image archive requires plain regular-file or directory headers")
        else if member.isdir ∧ member.size ≠ 0 then
          .error (.publication "Image directory headers must have zero size")
        else if (raw.length : Int) < (position + blockSize : Nat) + member.size then
          .error (.publication "Archive member exceeds available bytes")
        else
          match checkHeaders raw longnameLimit fuel
              (position + blockSize + roundUp member.size.toNat)
              (isLongname longnameLimit member) with
          | .error error => .error error
          | .ok checked => .ok (⟨position, member⟩ :: checked)

/-- The archive `bounded_tar` opens, with the headers it checked.  Opening it reads the first
member. -/
def boundedTar (limit longnameLimit : Int) (stream : GzipStream) :
    Except Raised (Bytes × List Checked) :=
  if limit ≤ 0 then
    .error (.caught (.publication "Archive requires a positive decompressed size limit"))
  else
    match readChunks limit stream.ending [] stream.chunks with
    | .error error => .error error
    | .ok raw =>
      match checkHeaders raw longnameLimit (raw.length + 1) 0 false with
      | .error error => .error (.caught error)
      | .ok checked =>
        match members raw with
        | ([], some failure) => .error (.caught (.tar failure))
        | _ => .ok (raw, checked)

/-! ## What the pass lets through -/

/-- The size and header rules of one block. -/
structure Admitted (raw : Bytes) (longnameLimit : Int) (c : Checked) : Prop where
  plain : c.info.type ∈ plainTypes ∨ isLongname longnameLimit c.info = true
  nonneg : 0 ≤ c.info.size
  directory : c.info.isdir = true → c.info.size = 0
  fits : ((c.offset + blockSize : Nat) : Int) + c.info.size ≤ raw.length

section

variable {raw : Bytes} {longnameLimit : Int}

/-- What one round of the pass does when it finds nothing wrong. -/
theorem checkHeaders_cases {fuel position : Nat} {pending : Bool} {checked : List Checked}
    (h : checkHeaders raw longnameLimit (fuel + 1) position pending = .ok checked) :
    (atEnd raw position = true ∧ pending = false ∧ checked = []) ∨
      ∃ member rest, atEnd raw position = false ∧
        frombuf .strict (readAt raw position blockSize) = .ok member ∧
        ¬(pending = true ∧ isLongname longnameLimit member = true) ∧
        Admitted raw longnameLimit ⟨position, member⟩ ∧
        checkHeaders raw longnameLimit fuel (position + blockSize + roundUp member.size.toNat)
          (isLongname longnameLimit member) = .ok rest ∧
        checked = ⟨position, member⟩ :: rest := by
  rw [checkHeaders] at h
  cases hend : atEnd raw position with
  | true =>
    rw [hend, if_pos rfl] at h
    cases pending with
    | true => cases h
    | false =>
      rw [if_neg Bool.false_ne_true] at h
      exact Or.inl ⟨rfl, rfl, (Except.ok.inj h).symm⟩
  | false =>
    rw [hend, if_neg Bool.false_ne_true] at h
    apply Or.inr
    cases hframe : frombuf .strict (readAt raw position blockSize) with
    | error failure =>
      rw [hframe] at h
      cases h
    | ok member =>
      simp only [hframe] at h
      split at h
      · cases h
      · rename_i hchain
        split at h
        · cases h
        · rename_i hplain
          split at h
          · cases h
          · rename_i hdir
            split at h
            · cases h
            · rename_i hfits
              split at h
              · cases h
              · rename_i rest hrest
                have hadmitted : Admitted raw longnameLimit ⟨position, member⟩ :=
                  { plain := by
                      apply Decidable.byContradiction
                      intro hnot
                      rw [not_or] at hnot
                      exact hplain (Or.inl hnot)
                    nonneg := by
                      have := (not_or.mp hplain).2
                      exact Int.not_lt.mp this
                    directory := fun hd => Decidable.byContradiction fun hs => hdir ⟨hd, hs⟩
                    fits := Int.not_lt.mp hfits }
                exact ⟨member, rest, rfl, rfl, hchain, hadmitted, hrest,
                  (Except.ok.inj h).symm⟩

theorem Admitted.of_checkHeaders {fuel position : Nat} {pending : Bool} {checked : List Checked}
    (h : checkHeaders raw longnameLimit fuel position pending = .ok checked) :
    ∀ c ∈ checked, Admitted raw longnameLimit c := by
  induction fuel generalizing position pending checked with
  | zero => cases h
  | succ fuel ih =>
    rcases checkHeaders_cases h with ⟨_, _, hnil⟩ | ⟨member, rest, _, _, _, hadm, hrest, hcons⟩
    · rw [hnil]
      exact fun c hc => absurd hc List.not_mem_nil
    · rw [hcons]
      intro c hc
      rcases List.mem_cons.mp hc with rfl | hc
      · exact hadm
      · exact ih hrest c hc

/-- The pass reads every block it has to: its rounds never run out. -/
theorem checkHeaders_ne_outOfFuel {fuel position : Nat} {pending : Bool}
    (hfuel : raw.length < position + fuel) (hfirst : 0 < fuel) :
    checkHeaders raw longnameLimit fuel position pending ≠ .error (.tar .outOfFuel) := by
  induction fuel generalizing position pending with
  | zero => exact absurd hfirst (Nat.lt_irrefl 0)
  | succ fuel ih =>
    rw [checkHeaders]
    split
    · split <;> exact fun h => by cases h
    · rename_i hend
      split
      · rename_i failure hframe
        intro h
        have hfail : failure = .outOfFuel := Caught.tar.inj (Except.error.inj h)
        exact (frombuf_refines _).fueled (hfail ▸ hframe)
      · iterate 4 (split; · exact fun h => by cases h)
        split
        · rename_i error hrest
          intro h
          have hin := lt_length_of_not_atEnd (Bool.eq_false_iff.mpr hend)
          rw [Except.error.inj h] at hrest
          unfold blockSize at hrest
          exact ih (by omega) (by omega) hrest
        · exact fun h => by cases h

/-! ## The members the reader yields -/

/-- The members that the checked headers announce. -/
def announced (raw : Bytes) : Option Bytes → List Checked → List Member
  | _, [] => []
  | long, c :: rest =>
    if c.info.type = gnuLongName then announced raw (some (longText raw c.offset c.info)) rest
    else memberOf long c.offset c.info :: announced raw none rest

/-- A checked header that is not a long name's gives one member, of its type, size and place. -/
theorem announced_blocks (long : Option Bytes) (checked : List Checked) :
    (announced raw long checked).map (fun m => (m.info.type, m.info.size, m.offsetData)) =
      (checked.filter (·.info.type ≠ gnuLongName)).map
        fun c => (c.info.type, c.info.size, c.offset + blockSize) := by
  induction checked generalizing long with
  | nil => rfl
  | cons c rest ih =>
    rw [announced]
    by_cases hlong : c.info.type = gnuLongName
    · rw [if_pos hlong, ih, List.filter_cons_of_neg (by simpa using hlong)]
    · have ⟨htype, hsize, hoffset⟩ := memberOf_info long c.offset c.info
      rw [if_neg hlong, List.filter_cons_of_pos (by simpa using hlong), List.map_cons,
        List.map_cons,
        ih, htype, hsize, hoffset]

/-! ## The reader walks the same blocks -/

/-- From any block on, the reader yields what the checked headers announce; all that can go wrong is
that the archive ends too early after its last member. -/
theorem iterate_announced (fuel : Nat) :
    ∀ (fuel' position tell : Nat) {checked : List Checked},
      checkHeaders raw longnameLimit fuel position false = .ok checked → fuel ≤ fuel' →
      (tell = position ∨ 0 < position) →
      (iterate raw fuel' position tell).1 = announced raw none checked ∧
        ((iterate raw fuel' position tell).2 = none ∨
          (iterate raw fuel' position tell).2 = some .read) := by
  induction fuel using Nat.strong_induction_on with
  | _ fuel ih =>
    intro fuel' position tell checked h hfuel htell
    match fuel, fuel', hfuel with
    | 0, _, _ => cases h
    | fuel + 1, fuel' + 1, hfuel =>
      rcases checkHeaders_cases h with
        ⟨hend, _, hnil⟩ | ⟨member, rest, hend, hframe, _, hadm, hrest, hcons⟩
      · rw [hnil, iterate]
        rcases next_of_atEnd hend htell with hnext | hnext
        · rw [hnext]
          exact ⟨rfl, Or.inl rfl⟩
        · rw [hnext]
          exact ⟨rfl, Or.inr rfl⟩
      · cases hlong : isLongname longnameLimit member with
        | false =>
          rw [hlong] at hrest
          have htype : member.type ∈ plainTypes := by
            have := hadm.plain
            rw [hlong] at this
            exact this.resolve_right Bool.false_ne_true
          have hnot : member.type ≠ gnuLongName := by
            rcases plain_cases htype with (h | h) | h <;> rw [h] <;> decide
          have hnext := next_of_not_atEnd hend htell
            (fromtarfile_plain raw.length ((frombuf_refines _).agrees _ hframe) htype hadm.nonneg
              hadm.directory)
          have hstep := ih fuel (Nat.lt_succ_self fuel) fuel' _ (position + blockSize) hrest
            (by omega) (Or.inr (by unfold blockSize; omega))
          rw [iterate, hnext, hcons, announced, if_neg hnot]
          exact ⟨congrArg _ hstep.1, hstep.2⟩
        | true =>
          rw [hlong] at hrest
          have hname : member.type = gnuLongName := by
            rw [isLongname, decide_eq_true_iff] at hlong
            exact hlong.1
          match fuel, hrest with
          | 0, hrest => cases hrest
          | fuel + 1, hrest =>
            rcases checkHeaders_cases hrest with
              ⟨_, hpending, _⟩ | ⟨member', rest', hend', hframe', hchain, hadm', hrest', hcons'⟩
            · cases hpending
            · have hplain : isLongname longnameLimit member' = false :=
                Bool.eq_false_iff.mpr fun h => hchain ⟨rfl, h⟩
              rw [hplain] at hrest'
              have htype : member'.type ∈ plainTypes := by
                have := hadm'.plain
                rw [hplain] at this
                exact this.resolve_right Bool.false_ne_true
              have hnot : member'.type ≠ gnuLongName := by
                rcases plain_cases htype with (h | h) | h <;> rw [h] <;> decide
              have hin := lt_length_of_not_atEnd hend'
              have hpos := lt_length_of_not_atEnd hend
              have hfound := fromtarfile_long (raw.length - 1)
                ((frombuf_refines _).agrees _ hframe) hname hadm.nonneg
                ((frombuf_refines _).agrees _ hframe') (by omega) htype hadm'.nonneg
                hadm'.directory
              rw [show raw.length - 1 + 2 = raw.length + 1 by omega] at hfound
              have hnext := next_of_not_atEnd hend htell hfound
              have hstep := ih fuel (by omega) fuel' _
                (position + blockSize + roundUp member.size.toNat + blockSize) hrest' (by omega)
                (Or.inr (by unfold blockSize; omega))
              rw [iterate, hnext, hcons, hcons', announced, if_pos hname, announced, if_neg hnot]
              exact ⟨congrArg _ hstep.1, hstep.2⟩

/-- The members of an archive are those whose headers were checked. -/
theorem members_announced {checked : List Checked}
    (h : checkHeaders raw longnameLimit (raw.length + 1) 0 false = .ok checked) :
    (members raw).1 = announced raw none checked ∧
      ((members raw).2 = none ∨ (members raw).2 = some .read) :=
  iterate_announced _ _ _ _ h (Nat.le_refl _) (Or.inl rfl)

/-! ## Opening -/

theorem readChunks_ok {limit : Int} {ending : StreamEnd} {chunks : List Bytes} {raw result : Bytes}
    (h : readChunks limit ending raw chunks = .ok result) :
    result = raw ++ (chunks.takeWhile (· ≠ [])).flatten := by
  induction chunks generalizing raw with
  | nil =>
    rw [readChunks] at h
    split at h
    · rw [List.takeWhile_nil, List.flatten_nil, List.append_nil, Except.ok.inj h]
    · cases h
  | cons chunk chunks ih =>
    rw [readChunks] at h
    split at h
    · rename_i hnil
      rw [List.takeWhile_cons, if_neg (by simpa using hnil), List.flatten_nil, List.append_nil,
        Except.ok.inj h]
    · rename_i hnil
      split at h
      · cases h
      · rw [ih h, List.takeWhile_cons, if_pos (by simpa using hnil), List.flatten_cons,
          List.append_assoc]

/-- Damaged data is come to before the limit and before an empty read. -/
def ReachesCorrupt (limit : Int) (stream : GzipStream) : Prop :=
  stream.ending = .corrupt ∧ [] ∉ stream.chunks ∧ (stream.chunks.flatten.length : Int) ≤ limit

theorem readChunks_zlib {limit : Int} (ending : StreamEnd) (chunks : List Bytes) {raw : Bytes}
    (hraw : (raw.length : Int) ≤ limit) :
    readChunks limit ending raw chunks = .error .zlib ↔
      ending = .corrupt ∧ [] ∉ chunks ∧ ((raw ++ chunks.flatten).length : Int) ≤ limit := by
  induction chunks generalizing raw with
  | nil =>
    rw [readChunks, List.flatten_nil, List.append_nil]
    cases ending <;> simp [StreamEnd.raised, hraw]
  | cons chunk chunks ih =>
    rw [readChunks, List.flatten_cons, ← List.append_assoc, List.mem_cons, not_or]
    split
    · rename_i hnil
      exact ⟨fun h => (by cases h), fun h => absurd hnil.symm h.2.1.1⟩
    · rename_i hnil
      split
      · rename_i hlimit
        refine ⟨fun h => (by cases h), fun h => ?_⟩
        have hlong := h.2.2
        rw [List.length_append] at hlong
        omega
      · rename_i hlimit
        rw [ih (Int.not_lt.mp hlimit)]
        exact and_congr_right fun _ => and_congr_left fun _ =>
          ⟨fun h => ⟨Ne.symm hnil, h⟩, And.right⟩

theorem boundedTar_ok {limit : Int} {stream : GzipStream} {checked : List Checked}
    (h : boundedTar limit longnameLimit stream = .ok (raw, checked)) :
    0 < limit ∧ raw = stream.bytes ∧
      checkHeaders raw longnameLimit (raw.length + 1) 0 false = .ok checked := by
  rw [boundedTar] at h
  split at h
  · cases h
  · rename_i hlimit
    split at h
    · cases h
    · rename_i raw' hraw
      split at h
      · cases h
      · rename_i checked' hchecked
        split at h
        · cases h
        · have heq := Except.ok.inj h
          have hfirst : raw' = raw := congrArg Prod.fst heq
          have hsecond : checked' = checked := congrArg Prod.snd heq
          subst hfirst hsecond
          exact ⟨by omega, readChunks_ok hraw, hchecked⟩

/-- Damaged compressed data is the one error that is no `PublicationError` to a caller. -/
theorem boundedTar_zlib {limit : Int} {stream : GzipStream} :
    boundedTar limit longnameLimit stream = .error .zlib ↔
      0 < limit ∧ ReachesCorrupt limit stream := by
  rw [boundedTar]
  split
  · rename_i hlimit
    exact ⟨fun h => (by cases h), fun h => absurd h.1 (by omega)⟩
  · rename_i hlimit
    have hempty : (([] : Bytes).length : Int) ≤ limit := by
      rw [List.length_nil]
      omega
    have hzlib := readChunks_zlib stream.ending stream.chunks hempty
    rw [List.nil_append] at hzlib
    rw [ReachesCorrupt, ← hzlib, and_iff_right (by omega)]
    split
    · rename_i error herror
      rw [herror]
      exact ⟨fun h => congrArg _ (Except.error.inj h), fun h => congrArg _ (Except.error.inj h)⟩
    · rename_i raw hraw
      rw [hraw]
      refine ⟨fun h => ?_, fun h => by cases h⟩
      split at h
      · cases h
      · split at h <;> cases h

end

end Wallow.Publication
