import Mathlib

/-!
# Reading tar archives

What the reader of Python's `tarfile` makes of the bytes of an archive, for the members whose
headers are plain or announced by a GNU long name.  Names stay the bytes they are in the archive:
the reader decodes what is not UTF-8 with `surrogateescape` and loses nothing.
-/

namespace Tar

abbrev Bytes := List UInt8

def blockSize : Nat := 512

def regType : UInt8 := 0x30
def aregType : UInt8 := 0x00
def lnkType : UInt8 := 0x31
def symType : UInt8 := 0x32
def chrType : UInt8 := 0x33
def blkType : UInt8 := 0x34
def dirType : UInt8 := 0x35
def fifoType : UInt8 := 0x36
def contType : UInt8 := 0x37
def gnuLongName : UInt8 := 0x4C
def gnuLongLink : UInt8 := 0x4B
def gnuSparse : UInt8 := 0x53
def xhdType : UInt8 := 0x78
def xglType : UInt8 := 0x67
def solarisXhdType : UInt8 := 0x58

def supportedTypes : List UInt8 :=
  [regType, aregType, lnkType, symType, dirType, fifoType, contType, chrType, blkType,
    gnuLongName, gnuLongLink, gnuSparse]

def regularTypes : List UInt8 := [regType, aregType, contType, gnuSparse]

def gnuTypes : List UInt8 := [gnuLongName, gnuLongLink, gnuSparse]

inductive HeaderError
  | empty
  | truncated
  | endOfFile
  | invalid
  | subsequent
  deriving DecidableEq

inductive Failure
  | header (error : HeaderError)
  | read
  | unicode
  /-- A sparse member or a pax header: what follows these is not modelled. -/
  | extended
  | outOfFuel
  deriving DecidableEq

/-! ## Fields -/

/-- How a field becomes a name: UTF-8 only, or any bytes. -/
inductive Decoding
  | strict
  | surrogateEscape
  deriving DecidableEq

def validUtf8 (s : Bytes) : Bool := ByteArray.validateUTF8 ⟨s.toArray⟩

/-- What stands before the first null byte. -/
def nts (decoding : Decoding) (s : Bytes) : Except Failure Bytes :=
  let text := s.takeWhile (· ≠ 0)
  if decoding = .strict ∧ validUtf8 text = false then .error .unicode else .ok text

def isSpace (b : UInt8) : Bool := (0x09 ≤ b && b ≤ 0x0D) || (0x1C ≤ b && b ≤ 0x20)

def strip (s : Bytes) : Bytes := ((s.dropWhile isSpace).reverse.dropWhile isSpace).reverse

def isOctal (b : UInt8) : Bool := 0x30 ≤ b && b ≤ 0x37

/-- Octal digits, with single underscores between them. -/
def octalDigits (n : Nat) : Bytes → Option Nat
  | [] => some n
  | b :: rest =>
    if isOctal b then octalDigits (n * 8 + (b.toNat - 0x30)) rest
    else if b = 0x5F then
      match rest with
      | [] => none
      | c :: rest' => if isOctal c then octalDigits (n * 8 + (c.toNat - 0x30)) rest' else none
    else none

/-- Digits that do not start with an underscore. -/
def unsignedOctal : Bytes → Option Nat
  | [] => none
  | b :: rest => if b = 0x5F then none else octalDigits 0 (b :: rest)

/-- What stands after `0o`, where one underscore more may stand. -/
def octalBody (s : Bytes) : Bytes :=
  match s with
  | 0x30 :: o :: rest =>
    if o = 0x6F ∨ o = 0x4F then (if rest.head? = some 0x5F then rest.tail else rest) else s
  | _ => s

/-- `int(s, 8)` of a text without spaces around it. -/
def parseOctal (s : Bytes) : Option Int :=
  match s with
  | 0x2B :: rest => (unsignedOctal (octalBody rest)).map Int.ofNat
  | 0x2D :: rest => (unsignedOctal (octalBody rest)).map fun n => -(n : Int)
  | _ => (unsignedOctal (octalBody s)).map Int.ofNat

def bigEndian (s : Bytes) : Nat := s.foldl (fun n b => n * 256 + b.toNat) 0

/-- A number field: base 256 behind a marker, else octal text. -/
def nti (s : Bytes) : Except Failure Int :=
  if s.head? = some 0x80 then .ok (bigEndian s.tail)
  else if s.head? = some 0xFF then .ok (-((256 ^ s.tail.length : Nat) - (bigEndian s.tail : Int)))
  else
    let text := s.takeWhile (· ≠ 0)
    if text.all (· < 0x80) then
      match parseOctal (if strip text = [] then [0x30] else strip text) with
      | some n => .ok n
      | none => .error (.header .invalid)
    else .error (.header .invalid)

def field (buf : Bytes) (start stop : Nat) : Bytes := (buf.drop start).take (stop - start)

def unsignedSum (s : Bytes) : Int := (s.map fun b => (b.toNat : Int)).sum

def signedSum (s : Bytes) : Int := (s.map fun b => b.toInt8.toInt).sum

/-- The checksum field counts as spaces; both ways of adding up are in use. -/
def calcChksums (buf : Bytes) : Int × Int :=
  (256 + (unsignedSum (field buf 0 148) + unsignedSum (field buf 156 512)),
    256 + (signedSum (field buf 0 148) + signedSum (field buf 156 512)))

/-! ## Headers -/

structure TarInfo where
  name : Bytes
  mode : Int
  uid : Int
  gid : Int
  size : Int
  mtime : Int
  chksum : Int
  type : UInt8
  linkname : Bytes
  uname : Bytes
  gname : Bytes
  devmajor : Int
  devminor : Int
  deriving DecidableEq

def TarInfo.isdir (info : TarInfo) : Bool := info.type = dirType

def TarInfo.isreg (info : TarInfo) : Bool := info.type ∈ regularTypes

def rstripSlash (name : Bytes) : Bytes := name.rdropWhile (· = 0x2F)

def removeSlash (name : Bytes) : Bytes := if name.getLast? = some 0x2F then name.dropLast else name

/-- The type that counts: in the V7 format a directory is a file with a slash at its end. -/
def headerType (type : UInt8) (name : Bytes) : UInt8 :=
  if type = aregType ∧ name.getLast? = some 0x2F then dirType else type

/-- The name in full: no slashes at the end of a directory, and the prefix of `ustar`. -/
def headerName (type : UInt8) (name pfx : Bytes) : Bytes :=
  let base := if type = dirType then rstripSlash name else name
  if pfx ≠ [] ∧ type ∉ gnuTypes then pfx ++ [0x2F] ++ base else base

def frombuf (decoding : Decoding) (buf : Bytes) : Except Failure TarInfo :=
  if buf.length = 0 then .error (.header .empty)
  else if buf.length ≠ blockSize then .error (.header .truncated)
  else if buf.all (· = 0) then .error (.header .endOfFile)
  else do
    let chksum ← nti (field buf 148 156)
    if chksum ≠ (calcChksums buf).1 ∧ chksum ≠ (calcChksums buf).2 then
      .error (.header .invalid)
    else
      let name ← nts decoding (field buf 0 100)
      let mode ← nti (field buf 100 108)
      let uid ← nti (field buf 108 116)
      let gid ← nti (field buf 116 124)
      let size ← nti (field buf 124 136)
      let mtime ← nti (field buf 136 148)
      let linkname ← nts decoding (field buf 157 257)
      let uname ← nts decoding (field buf 265 297)
      let gname ← nts decoding (field buf 297 329)
      let devmajor ← nti (field buf 329 337)
      let devminor ← nti (field buf 337 345)
      let pfx ← nts decoding (field buf 345 500)
      let type := headerType (buf.getD 156 0) name
      -- a sparse header must have its real size as well
      let _ ← if type = gnuSparse then nti (field buf 483 495) else .ok 0
      .ok ⟨headerName type name pfx, mode, uid, gid, size, mtime, chksum, type, linkname, uname,
        gname, devmajor, devminor⟩

/-! ## Members -/

/-- A member as the reader yields it, with the place of its data. -/
structure Member where
  info : TarInfo
  offsetData : Nat
  deriving DecidableEq

def readAt (raw : Bytes) (position size : Nat) : Bytes := (raw.drop position).take size

/-- A byte count rounded up to whole blocks. -/
def roundUp (count : Nat) : Nat := (count + 511) / 512 * 512

/-- `_block`. -/
def block (count : Int) : Except Failure Nat :=
  if count < 0 then .error (.header .invalid) else .ok (roundUp count.toNat)

/-- What the reader makes of the header at a place: the member, where the next header is, and where
the file stands. -/
def fromtarfile (raw : Bytes) : Nat → Nat → Except Failure (Member × Nat × Nat)
  | 0, _ => .error .outOfFuel
  | fuel + 1, position => do
    let info ← frombuf .surrogateEscape (readAt raw position blockSize)
    let offsetData := position + blockSize
    if info.type = gnuLongName ∨ info.type = gnuLongLink then
      let size ← block info.size
      let buf := readAt raw offsetData size
      match fromtarfile raw fuel (offsetData + buf.length) with
      | .error (.header _) => .error (.header .subsequent)
      | .error failure => .error failure
      | .ok (next, offset, tell) =>
        let text ← nts .surrogateEscape buf
        let named := if info.type = gnuLongName then { next.info with name := text }
          else { next.info with linkname := text }
        .ok ({ next with
          info := if named.isdir then { named with name := removeSlash named.name } else named },
          offset, tell)
    else if info.type ∈ [gnuSparse, xhdType, xglType, solarisXhdType] then .error .extended
    else
      let size ← if info.isreg ∨ info.type ∉ supportedTypes then block info.size else .ok 0
      .ok (⟨if info.isdir then { info with name := rstripSlash info.name } else info, offsetData⟩,
        offsetData + size, offsetData)

/-- The next member, `none` at the end.  Only an archive's first header must be a good one. -/
def next (raw : Bytes) (offset tell : Nat) : Except Failure (Option (Member × Nat × Nat)) :=
  if offset ≠ tell ∧ offset = 0 then .ok none
  else if offset ≠ tell ∧ readAt raw (offset - 1) 1 = [] then .error .read
  else
    match fromtarfile raw (raw.length + 1) offset with
    | .ok found => .ok (some found)
    | .error (.header .endOfFile) => .ok none
    | .error (.header .subsequent) => .error .read
    | .error (.header _) => if offset = 0 then .error .read else .ok none
    | .error failure => .error failure

/-- The members an archive yields, and what ends it early. -/
def iterate (raw : Bytes) : Nat → Nat → Nat → List Member × Option Failure
  | 0, _, _ => ([], some .outOfFuel)
  | fuel + 1, offset, tell =>
    match next raw offset tell with
    | .error failure => ([], some failure)
    | .ok none => ([], none)
    | .ok (some (member, offset', tell')) =>
      let rest := iterate raw fuel offset' tell'
      (member :: rest.1, rest.2)

def members (raw : Bytes) : List Member × Option Failure := iterate raw (raw.length + 1) 0 0

/-- The bytes of a member. -/
def Member.contents (raw : Bytes) (member : Member) : Bytes :=
  readAt raw member.offsetData member.info.size.toNat

/-! ## Both decodings -/

/-- What the first computes the second does as well, and the first never lacks fuel. -/
structure Refines {α : Type} (x y : Except Failure α) : Prop where
  agrees : ∀ a, x = .ok a → y = .ok a
  fueled : x ≠ .error .outOfFuel

theorem Refines.of_fueled {α : Type} {x : Except Failure α} (h : x ≠ .error .outOfFuel) :
    Refines x x :=
  ⟨fun _ ha => ha, h⟩

theorem Refines.bind {α β : Type} {x y : Except Failure α} {f g : α → Except Failure β}
    (hxy : Refines x y) (hfg : ∀ a, Refines (f a) (g a)) : Refines (x >>= f) (y >>= g) := by
  cases hx : x with
  | error failure =>
    refine ⟨fun _ h => (by cases h), fun h => hxy.fueled ?_⟩
    rw [hx]
    exact congrArg Except.error (Except.error.inj h)
  | ok a =>
    rw [hxy.agrees a hx]
    exact hfg a

theorem nts_surrogateEscape (s : Bytes) :
    nts .surrogateEscape s = .ok (s.takeWhile (· ≠ 0)) := by
  rw [nts, if_neg]
  exact fun h => Decoding.noConfusion h.1

theorem nts_refines (s : Bytes) : Refines (nts .strict s) (nts .surrogateEscape s) := by
  rw [nts_surrogateEscape]
  unfold nts
  dsimp only
  split
  · exact ⟨fun _ h => (by cases h), fun h => by cases h⟩
  · exact ⟨fun _ h => h, fun h => by cases h⟩

theorem nti_refines (s : Bytes) : Refines (nti s) (nti s) := by
  apply Refines.of_fueled
  unfold nti
  split
  · exact fun h => by cases h
  · split
    · exact fun h => by cases h
    · dsimp only
      split
      · split <;> exact fun h => by cases h
      · exact fun h => by cases h

/-- A header of UTF-8 names reads alike under both decodings. -/
theorem frombuf_refines (buf : Bytes) :
    Refines (frombuf .strict buf) (frombuf .surrogateEscape buf) := by
  unfold frombuf
  split
  · exact Refines.of_fueled fun h => by cases h
  · split
    · exact Refines.of_fueled fun h => by cases h
    · split
      · exact Refines.of_fueled fun h => by cases h
      · apply Refines.bind (nti_refines _)
        intro chksum
        split
        · exact Refines.of_fueled fun h => by cases h
        · apply Refines.bind (nts_refines _)
          intro name
          apply Refines.bind (nti_refines _)
          intro mode
          apply Refines.bind (nti_refines _)
          intro uid
          apply Refines.bind (nti_refines _)
          intro gid
          apply Refines.bind (nti_refines _)
          intro size
          apply Refines.bind (nti_refines _)
          intro mtime
          apply Refines.bind (nts_refines _)
          intro linkname
          apply Refines.bind (nts_refines _)
          intro uname
          apply Refines.bind (nts_refines _)
          intro gname
          apply Refines.bind (nti_refines _)
          intro devmajor
          apply Refines.bind (nti_refines _)
          intro devminor
          apply Refines.bind (nts_refines _)
          intro pfx
          dsimp only
          split
          · exact (nti_refines _).bind fun _ => Refines.of_fueled fun h => by cases h
          · exact Refines.of_fueled fun h => by cases h

/-! ## Reading plain headers -/

/-- Members that have a name and data and nothing else. -/
def plainTypes : List UInt8 := [regType, aregType, dirType]

def atEnd (raw : Bytes) (position : Nat) : Bool :=
  readAt raw position blockSize = [] ∨ readAt raw position blockSize = List.replicate blockSize 0

/-- The text of a long name, up to its null byte. -/
def longText (raw : Bytes) (position : Nat) (long : TarInfo) : Bytes :=
  (readAt raw (position + blockSize) (roundUp long.size.toNat)).takeWhile (· ≠ 0)

/-- The member of a plain header, under its own name or under the long name before it. -/
def memberOf (long : Option Bytes) (position : Nat) (header : TarInfo) : Member :=
  let info := if header.isdir then { header with name := rstripSlash header.name } else header
  match long with
  | none => ⟨info, position + blockSize⟩
  | some text =>
    ⟨{ info with name := if header.isdir then removeSlash text else text }, position + blockSize⟩

theorem memberOf_info (long : Option Bytes) (position : Nat) (header : TarInfo) :
    (memberOf long position header).info.type = header.type ∧
      (memberOf long position header).info.size = header.size ∧
      (memberOf long position header).offsetData = position + blockSize := by
  unfold memberOf
  cases long with
  | none => dsimp only; split <;> exact ⟨rfl, rfl, rfl⟩
  | some text => dsimp only; split <;> exact ⟨rfl, rfl, rfl⟩

section

variable {raw : Bytes}

theorem plain_cases {type : UInt8} (h : type ∈ plainTypes) :
    (type = regType ∨ type = aregType) ∨ type = dirType := by
  simpa only [plainTypes, List.mem_cons, List.not_mem_nil, or_false, or_assoc] using h

/-- A plain header is a member of its own. -/
theorem fromtarfile_plain (fuel : Nat) {position : Nat} {info : TarInfo}
    (hframe : frombuf .surrogateEscape (readAt raw position blockSize) = .ok info)
    (htype : info.type ∈ plainTypes) (hnonneg : 0 ≤ info.size)
    (hdir : info.isdir = true → info.size = 0) :
    fromtarfile raw (fuel + 1) position =
      .ok (memberOf none position info,
        position + blockSize + roundUp info.size.toNat, position + blockSize) := by
  have hlong : ¬(info.type = gnuLongName ∨ info.type = gnuLongLink) := by
    rcases plain_cases htype with (h | h) | h <;> rw [h] <;> decide
  have hextended : ¬(info.type ∈ [gnuSparse, xhdType, xglType, solarisXhdType]) := by
    rcases plain_cases htype with (h | h) | h <;> rw [h] <;> decide
  have hblock : block info.size = .ok (roundUp info.size.toNat) := by
    rw [block, if_neg (Int.not_lt.mpr hnonneg)]
  rw [fromtarfile, hframe]
  show (if info.type = gnuLongName ∨ info.type = gnuLongLink then _ else _) = _
  rw [if_neg hlong, if_neg hextended]
  cases hd : info.isdir with
  | true =>
    have hnot : ¬(info.isreg = true ∨ info.type ∉ supportedTypes) := by
      have heq : info.type = dirType := by simpa [TarInfo.isdir] using hd
      rw [TarInfo.isreg, heq]
      decide
    have hround : roundUp info.size.toNat = 0 := by
      rw [hdir hd]
      rfl
    rw [if_neg hnot, hround]
    show Except.ok _ = _
    rw [memberOf]
    simp only [hd, if_true]
  | false =>
    have hreg : info.isreg = true ∨ info.type ∉ supportedTypes := by
      rcases plain_cases htype with (h | h) | h
      · exact Or.inl (by rw [TarInfo.isreg, h]; decide)
      · exact Or.inl (by rw [TarInfo.isreg, h]; decide)
      · rw [TarInfo.isdir, h] at hd
        exact absurd hd (by decide)
    rw [if_pos hreg, hblock]
    show Except.ok _ = _
    rw [memberOf]
    simp only [hd]

/-- A long name is given to the member of the plain header after it. -/
theorem fromtarfile_long (fuel : Nat) {position : Nat} {long info : TarInfo}
    (hframe : frombuf .surrogateEscape (readAt raw position blockSize) = .ok long)
    (hlong : long.type = gnuLongName) (hpos : 0 ≤ long.size)
    (hframe' : frombuf .surrogateEscape
      (readAt raw (position + blockSize + roundUp long.size.toNat) blockSize) = .ok info)
    (hin : position + blockSize + roundUp long.size.toNat ≤ raw.length)
    (htype : info.type ∈ plainTypes) (hnonneg : 0 ≤ info.size)
    (hdir : info.isdir = true → info.size = 0) :
    fromtarfile raw (fuel + 2) position =
      .ok (memberOf (some (longText raw position long))
          (position + blockSize + roundUp long.size.toNat) info,
        position + blockSize + roundUp long.size.toNat + blockSize + roundUp info.size.toNat,
        position + blockSize + roundUp long.size.toNat + blockSize) := by
  have hblock : block long.size = .ok (roundUp long.size.toNat) := by
    rw [block, if_neg (Int.not_lt.mpr hpos)]
  have hlength : (readAt raw (position + blockSize) (roundUp long.size.toNat)).length =
      roundUp long.size.toNat := by
    rw [readAt, List.length_take, List.length_drop]
    omega
  rw [fromtarfile, hframe]
  show (if long.type = gnuLongName ∨ long.type = gnuLongLink then _ else _) = _
  rw [if_pos (Or.inl hlong), hblock]
  show (match fromtarfile raw (fuel + 1) (position + blockSize +
    (readAt raw (position + blockSize) (roundUp long.size.toNat)).length) with
    | .error (.header _) => _
    | .error failure => _
    | .ok (next, offset, tell) => _) = _
  rw [hlength, fromtarfile_plain fuel hframe' htype hnonneg hdir]
  dsimp only
  rw [nts_surrogateEscape]
  show Except.ok _ = _
  rw [if_pos hlong, longText]
  cases hd : info.isdir with
  | true =>
    have heq : info.type = dirType := by simpa [TarInfo.isdir] using hd
    simp [memberOf, TarInfo.isdir, heq]
  | false =>
    have heq : info.type ≠ dirType := by simpa [TarInfo.isdir] using hd
    simp [memberOf, TarInfo.isdir, heq]

theorem lt_length_of_not_atEnd {position : Nat} (h : atEnd raw position = false) :
    position < raw.length := by
  apply Decidable.byContradiction
  intro hout
  rw [atEnd, decide_eq_false_iff_not] at h
  apply h
  rw [readAt, List.drop_eq_nil_of_le (by omega)]
  exact Or.inl rfl

theorem frombuf_nil (decoding : Decoding) : frombuf decoding [] = .error (.header .empty) := by
  rw [frombuf, List.length_nil, if_pos rfl]

theorem frombuf_zeros (decoding : Decoding) :
    frombuf decoding (List.replicate blockSize 0) = .error (.header .endOfFile) := by
  have hlen : (List.replicate blockSize (0 : UInt8)).length = blockSize := List.length_replicate
  rw [frombuf, if_neg (by rw [hlen]; decide), if_neg (fun hne => hne hlen), if_pos (by simp)]

/-- Where the reader has come to: only at the start may it stand on its first header. -/
theorem next_of_not_atEnd {position tell : Nat} {found : Member × Nat × Nat}
    (hend : atEnd raw position = false) (htell : tell = position ∨ 0 < position)
    (hfound : fromtarfile raw (raw.length + 1) position = .ok found) :
    next raw position tell = .ok (some found) := by
  have hin := lt_length_of_not_atEnd hend
  have hread : ¬(position ≠ tell ∧ readAt raw (position - 1) 1 = []) := by
    intro h
    have hlen := congrArg List.length h.2
    rw [readAt, List.length_take, List.length_drop, List.length_nil] at hlen
    omega
  rw [next, if_neg (by omega), if_neg hread, hfound]

/-- An empty block ends an archive. -/
theorem next_of_zeros {position tell : Nat}
    (hzeros : readAt raw position blockSize = List.replicate blockSize 0)
    (htell : tell = position ∨ 0 < position) : next raw position tell = .ok none := by
  have hlen := congrArg List.length hzeros
  rw [readAt, List.length_take, List.length_drop, List.length_replicate, blockSize] at hlen
  have hread : ¬(position ≠ tell ∧ readAt raw (position - 1) 1 = []) := by
    intro h
    have hone := congrArg List.length h.2
    rw [readAt, List.length_take, List.length_drop, List.length_nil] at hone
    omega
  rw [next, if_neg (by omega), if_neg hread, fromtarfile, hzeros, frombuf_zeros]
  rfl

/-- At the end the reader stops, or it misses the block before. -/
theorem next_of_atEnd {position tell : Nat} (hend : atEnd raw position = true)
    (htell : tell = position ∨ 0 < position) :
    next raw position tell = .ok none ∨ next raw position tell = .error .read := by
  rw [atEnd, decide_eq_true_iff] at hend
  rcases hend with h | h
  · rw [next, if_neg (by omega), fromtarfile, h, frombuf_nil]
    split
    · exact Or.inr rfl
    · show (if position = 0 then _ else _) = _ ∨ (if position = 0 then _ else _) = _
      split
      · exact Or.inr rfl
      · exact Or.inl rfl
  · exact Or.inl (next_of_zeros h htell)

end

end Tar
