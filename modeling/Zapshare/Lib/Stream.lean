import Mathlib.Data.List.Basic
import Mathlib.Tactic.Common

/-!
# File streams

`std::ifstream` and `std::ofstream` in binary mode, as far as reads, writes and seeks go. The
input stream carries its two sticky flags, because a stream that has hit the end of its file stays
unreadable until the flags are cleared, and a seek clears only one of them.

## Main results

* `Stream.IfStream.read_seekg` — what a seek and a read return on a stream that has not failed
* `Stream.IfStream.read_seekg_of_fail` — and on one that has: nothing, and no change but `gcount`
* `Stream.OfStream.write_seekp_length` — writing at the end of the file appends
-/

namespace Stream

variable {α : Type*}

/-! ### Input -/

/-- An input file stream. -/
structure IfStream (α : Type*) where
  isOpen : Bool
  content : List α
  pos : ℕ
  eofbit : Bool
  failbit : Bool
  gcount : ℕ
  deriving DecidableEq, Repr

namespace IfStream

/-- A stream that is not attached to a file. -/
def closed : IfStream α := ⟨false, [], 0, false, false, 0⟩

/-- A stream freshly opened on a file. -/
def opened (content : List α) : IfStream α := ⟨true, content, 0, false, false, 0⟩

/-- Seek from the beginning: clears `eofbit`, and moves only a stream that has not failed. -/
def seekg (s : IfStream α) (p : ℕ) : IfStream α :=
  if s.failbit then { s with eofbit := false }
  else if s.isOpen then { s with eofbit := false, pos := p }
  else { s with eofbit := false, failbit := true }

/-- Unformatted read of `n` elements. A stream that is not good fails; a short read sets both
flags. -/
def read (s : IfStream α) (n : ℕ) : List α × IfStream α :=
  if s.eofbit || s.failbit then ([], { s with failbit := true, gcount := 0 })
  else
    let chunk := (s.content.drop s.pos).take n
    let short := decide (chunk.length < n)
    (chunk, { s with
      pos := s.pos + chunk.length, eofbit := short, failbit := short, gcount := chunk.length })

/-- The flags and position of an open stream after a read of `n` elements at `p`, counted from a
stream that had not failed. -/
def afterRead (content : List α) (p n : ℕ) : IfStream α :=
  let chunk := (content.drop p).take n
  let short := decide (chunk.length < n)
  ⟨true, content, p + chunk.length, short, short, chunk.length⟩

theorem read_seekg {s : IfStream α} (hopen : s.isOpen = true) (hfail : s.failbit = false)
    (p n : ℕ) :
    (s.seekg p).read n = ((s.content.drop p).take n, afterRead s.content p n) := by
  obtain ⟨isOpen, content, pos, eofbit, failbit, gcount⟩ := s
  obtain rfl : isOpen = true := hopen
  obtain rfl : failbit = false := hfail
  rfl

theorem read_seekg_of_fail {s : IfStream α} (hfail : s.failbit = true) (p n : ℕ) :
    (s.seekg p).read n = ([], { s with eofbit := false, gcount := 0 }) := by
  obtain ⟨isOpen, content, pos, eofbit, failbit, gcount⟩ := s
  obtain rfl : failbit = true := hfail
  rfl

/-- A read that got everything it asked for leaves the stream good. -/
theorem afterRead_failbit {content : List α} {p n : ℕ} :
    (afterRead content p n).failbit = decide (content.length - p < n) := by
  simp only [afterRead, List.length_take, List.length_drop, decide_eq_decide]
  omega

/-- **Reading block by block.** On a good stream at `p`, what a read returns and what is still to
read make up what was to read. -/
theorem read_append_drop {s : IfStream α} (heof : s.eofbit = false) (hfail : s.failbit = false)
    (n : ℕ) :
    (s.read n).1 ++ s.content.drop (s.read n).2.pos = s.content.drop s.pos := by
  have hlen : ((s.content.drop s.pos).take n).length
      = min n (s.content.drop s.pos).length := List.length_take
  simp only [read, heof, hfail, Bool.or_self, Bool.false_eq_true, if_false]
  rw [← List.drop_drop]
  conv_rhs => rw [← List.take_append_drop n (s.content.drop s.pos)]
  congr 1
  rw [hlen]
  rcases Nat.le_total n (s.content.drop s.pos).length with h | h
  · rw [Nat.min_eq_left h]
  · rw [Nat.min_eq_right h, List.drop_length, List.drop_of_length_le h]

end IfStream

/-! ### Output -/

/-- An output file stream: the file, and the position of the next write. -/
structure OfStream (α : Type*) where
  content : List α
  pos : ℕ
  deriving DecidableEq, Repr

namespace OfStream

variable [Inhabited α]

/-- A stream on a file that was truncated when it was opened. -/
def truncated : OfStream α := ⟨[], 0⟩

/-- Set the position of the next write. -/
def seekp (s : OfStream α) (p : ℕ) : OfStream α := { s with pos := p }

/-- Write at the current position: overwrites what is there, and fills a gap behind the end of the
file with zeros. Writing nothing changes nothing. -/
def write (s : OfStream α) (xs : List α) : OfStream α :=
  if xs = [] then s
  else
    { content := s.content.take s.pos ++ List.replicate (s.pos - s.content.length) default ++ xs ++
        s.content.drop (s.pos + xs.length)
      pos := s.pos + xs.length }

/-- **Writing at the end of the file appends.** -/
theorem write_seekp_length (s : OfStream α) (xs : List α) :
    ((s.seekp s.content.length).write xs).content = s.content ++ xs := by
  rw [write, seekp]
  split
  · rename_i h
    rw [h, List.append_nil]
  · simp

end OfStream

end Stream
