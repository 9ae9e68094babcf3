import Mathlib.Data.List.Basic

/-!
# Streams that are read from a position

A stream is a sequence with a position.  Reading hands over what stands there and moves on; a
stream that can seek may be put back.
-/

namespace ReadStream

structure Stream (α : Type*) where
  items : List α
  position : Nat
  canSeek : Bool
  deriving DecidableEq

variable {α : Type*}

namespace Stream

/-- At its start, and seekable. -/
def opened (items : List α) : Stream α :=
  ⟨items, 0, true⟩

/-- What has not been read. -/
def rest (s : Stream α) : List α :=
  s.items.drop s.position

def advance (s : Stream α) (count : Nat) : Stream α :=
  { s with position := s.position + count }

/-- As many as asked for, or as many as there are. -/
def read (s : Stream α) (count : Nat) : List α × Stream α :=
  (s.rest.take count, s.advance (s.rest.take count).length)

/-- Set the position. -/
def seek (s : Stream α) (position : Nat) : Stream α :=
  { s with position := position }

/-- Everything from the position on. -/
def readToEnd (s : Stream α) : List α × Stream α :=
  (s.rest, s.advance s.rest.length)

theorem rest_advance (s : Stream α) (count : Nat) : (s.advance count).rest = s.rest.drop count := by
  rw [rest, rest, List.drop_drop]
  rfl

theorem advance_advance (s : Stream α) (m n : Nat) :
    (s.advance m).advance n = s.advance (m + n) := by
  rw [advance, advance, advance, Nat.add_assoc]

/-- A stream put back where it stood is the stream it was. -/
theorem seek_read (s : Stream α) (count : Nat) : (s.read count).2.seek s.position = s := rfl

/-! ## Reading in chunks -/

theorem read_ne_nil {s : Stream α} {count : Nat} (h : (s.read count).1 ≠ []) :
    (s.read count).2.rest.length < s.rest.length := by
  have hsnd : (s.read count).2.rest = s.rest.drop (s.rest.take count).length := rest_advance s _
  -- the position moves on by what was read, which is something
  have hpos : 0 < (s.rest.take count).length := List.length_pos_iff.mpr h
  have hle : (s.rest.take count).length ≤ s.rest.length := by
    rw [List.length_take]
    omega
  rw [hsnd, List.length_drop]
  omega

/-- `while ((read = stream.Read(buffer)) > 0)`: the chunks, and the stream after them. -/
def readChunks (count : Nat) (s : Stream α) : List (List α) × Stream α :=
  if _h : (s.read count).1 = [] then ([], (s.read count).2)
  else
    let later := readChunks count (s.read count).2
    ((s.read count).1 :: later.1, later.2)
termination_by s.rest.length
decreasing_by exact read_ne_nil _h

theorem read_fst_eq_nil {s : Stream α} {count : Nat} (hcount : 0 < count)
    (h : (s.read count).1 = []) : s.rest = [] := by
  have htake : s.rest.take count = [] := h
  cases List.take_eq_nil_iff.mp htake with
  | inl hzero => omega
  | inr hnil => exact hnil

theorem read_append (s : Stream α) (count : Nat) :
    (s.read count).1 ++ (s.read count).2.rest = s.rest := by
  show s.rest.take count ++ (s.advance (s.rest.take count).length).rest = s.rest
  -- a short read has taken everything
  rw [rest_advance, List.length_take]
  by_cases hle : count ≤ s.rest.length
  · rw [Nat.min_eq_left hle, List.take_append_drop]
  · rw [Nat.min_eq_right (by omega), List.drop_length, List.append_nil,
      List.take_of_length_le (by omega)]

/-- The chunks are what had not been read. -/
theorem flatten_readChunks {count : Nat} (hcount : 0 < count) (s : Stream α) :
    (s.readChunks count).1.flatten = s.rest := by
  induction s using readChunks.induct count with
  | case1 s h =>
    rw [readChunks, dif_pos h, read_fst_eq_nil hcount h]
    rfl
  | case2 s h ih =>
    rw [readChunks, dif_neg h]
    show (s.read count).1 ++ ((s.read count).2.readChunks count).1.flatten = s.rest
    rw [ih, read_append]

/-- The stream is left at its end. -/
theorem readChunks_snd (count : Nat) (s : Stream α) :
    (s.readChunks count).2 = s.advance (s.readChunks count).1.flatten.length := by
  induction s using readChunks.induct count with
  | case1 s h =>
    rw [readChunks, dif_pos h]
    show s.advance (s.read count).1.length = s.advance 0
    rw [h]
    rfl
  | case2 s h ih =>
    rw [readChunks, dif_neg h]
    show ((s.read count).2.readChunks count).2 =
      s.advance ((s.read count).1 ++ ((s.read count).2.readChunks count).1.flatten).length
    -- the first read moves the stream by its chunk, the later ones by theirs
    rw [ih, List.length_append, ← advance_advance]
    rfl

theorem mem_readChunks {count : Nat} {s : Stream α} {chunk : List α}
    (h : chunk ∈ (s.readChunks count).1) : 0 < chunk.length ∧ chunk.length ≤ count := by
  induction s using readChunks.induct count with
  | case1 s hnil =>
    rw [readChunks, dif_pos hnil] at h
    cases h
  | case2 s hne ih =>
    rw [readChunks, dif_neg hne] at h
    cases List.mem_cons.mp h with
    | inl heq =>
      subst heq
      exact ⟨List.length_pos_iff.mpr hne, List.length_take_le _ _⟩
    | inr hlater => exact ih hlater

end Stream

/-! ## Reads that return less than was asked for -/

/-- How much each call may return: something, as long as there is something. -/
structure Schedule where
  amount : Nat → Nat
  pos : ∀ call, 0 < amount call

/-- A stream with its schedule and the number of calls made. -/
structure Delivered (α : Type*) where
  stream : Stream α
  schedule : Schedule
  calls : Nat

namespace Delivered

variable (d : Delivered α) (count : Nat)

def readSome : List α × Delivered α :=
  let read := d.stream.read (min count (d.schedule.amount d.calls))
  (read.1, { d with stream := read.2, calls := d.calls + 1 })

def seek (position : Nat) : Delivered α :=
  { d with stream := d.stream.seek position }

/-- Put back where it stood, it has only counted the call. -/
theorem seek_readSome : (d.readSome count).2.seek d.stream.position =
    { d with calls := d.calls + 1 } := rfl

end Delivered

end ReadStream
