import Mathlib

/-!
# Length-prefixed frames

A text of bytes is sent as chunks, each after its length in four bytes, the most significant
first; a length of zero ends it.
-/

namespace Frames

/-- The `width` low bytes of a number, the most significant first. -/
def bigEndian : Nat → Nat → List UInt8
  | 0, _ => []
  | width + 1, n => bigEndian width (n / 256) ++ [UInt8.ofNat (n % 256)]

def value (bytes : List UInt8) : Nat :=
  bytes.foldl (fun n byte => n * 256 + byte.toNat) 0

theorem length_bigEndian (width n : Nat) : (bigEndian width n).length = width := by
  induction width generalizing n with
  | zero => rfl
  | succ width ih => rw [bigEndian, List.length_append, ih, List.length_singleton]

theorem value_bigEndian {width n : Nat} (h : n < 256 ^ width) : value (bigEndian width n) = n := by
  induction width generalizing n with
  | zero =>
    have hzero : n = 0 := by
      rw [Nat.pow_zero] at h
      omega
    rw [hzero]
    rfl
  | succ width ih =>
    -- the higher bytes are those of `n / 256`, the last is `n % 256`
    have hdiv : n / 256 < 256 ^ width := by
      rw [Nat.pow_succ] at h
      exact Nat.div_lt_of_lt_mul (by rwa [Nat.mul_comm] at h)
    have hbyte : (UInt8.ofNat (n % 256)).toNat = n % 256 :=
      UInt8.toNat_ofNat_of_lt' (Nat.mod_lt n (by decide))
    rw [bigEndian, value, List.foldl_append]
    show value (bigEndian width (n / 256)) * 256 + (UInt8.ofNat (n % 256)).toNat = n
    rw [ih hdiv, hbyte]
    omega

def frame (chunk : List UInt8) : List UInt8 :=
  bigEndian 4 chunk.length ++ chunk

def frames (chunks : List (List UInt8)) : List UInt8 :=
  (chunks.map frame).flatten

def terminator : List UInt8 := [0, 0, 0, 0]

/-- What the frames before the terminator carry; `none` when there is none, or a frame is cut
short. -/
def unframe (wire : List UInt8) : Option (List UInt8) :=
  if wire.length < 4 then none
  else if value (wire.take 4) = 0 then some []
  else if (wire.drop 4).length < value (wire.take 4) then none
  else (unframe ((wire.drop 4).drop (value (wire.take 4)))).map
    ((wire.drop 4).take (value (wire.take 4)) ++ ·)
termination_by wire.length
decreasing_by
  rw [List.length_drop, List.length_drop]
  omega

theorem unframe_terminator : unframe terminator = some [] := by
  rw [unframe, if_neg (by decide), if_pos (by decide)]

/-- One frame is taken off. -/
theorem unframe_frame {chunk : List UInt8} (hpos : 0 < chunk.length)
    (hlt : chunk.length < 256 ^ 4) (rest : List UInt8) :
    unframe (frame chunk ++ rest) = (unframe rest).map (chunk ++ ·) := by
  have hlength : (bigEndian 4 chunk.length).length = 4 := length_bigEndian 4 _
  have htake : (frame chunk ++ rest).take 4 = bigEndian 4 chunk.length := by
    rw [frame, List.append_assoc, List.take_left' hlength]
  have hdrop : (frame chunk ++ rest).drop 4 = chunk ++ rest := by
    rw [frame, List.append_assoc, List.drop_left' hlength]
  -- a length of at least one, so this is no terminator
  have hlong : ¬ (frame chunk ++ rest).length < 4 := by
    rw [frame, List.length_append, List.length_append, hlength]
    omega
  rw [unframe, if_neg hlong, htake, hdrop, value_bigEndian hlt, if_neg (by omega),
    if_neg (by rw [List.length_append]; omega), List.drop_left, List.take_left]

/-- The frames carry the chunks, in their order. -/
theorem unframe_frames {chunks : List (List UInt8)}
    (h : ∀ chunk ∈ chunks, 0 < chunk.length ∧ chunk.length < 256 ^ 4) :
    unframe (frames chunks ++ terminator) = some chunks.flatten := by
  induction chunks with
  | nil => exact unframe_terminator
  | cons chunk chunks ih =>
    have hchunk := h chunk List.mem_cons_self
    have hlater := ih fun c hc => h c (List.mem_cons_of_mem _ hc)
    show unframe (frame chunk ++ frames chunks ++ terminator) = some (chunk ++ chunks.flatten)
    rw [List.append_assoc, unframe_frame hchunk.1 hchunk.2, hlater]
    rfl

end Frames
