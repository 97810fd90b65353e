import StackAsm.Utf8

set_option autoImplicit false

/-!
# Streams of a machine

A machine reads from a byte string of which it takes bytes off the front, and writes to two sinks.
A sink may have a capacity; a write that does not fit fills the sink up and fails.

## Main definitions

* `StackAsm.Sink` — what was written to a stream, and how much it takes.
* `StackAsm.Sink.write` — writing, and whether everything fitted.
* `StackAsm.splitLine` — the first line of an input, and the rest.

## Main results

* `StackAsm.Sink.write_append` — two writes are one write of both, as long as they fit.
* `StackAsm.splitLine_append` — nothing is lost between a line and the rest.
-/

namespace StackAsm

/-- An output stream: what was written to it so far, and how many bytes it takes at most. -/
structure Sink where
  /-- The bytes written so far. -/
  written : Array UInt8 := #[]
  /-- The number of bytes that the stream takes; there may be no limit. -/
  capacity : Option Nat := none
  deriving DecidableEq, Repr, Inhabited

namespace Sink

/-- The part of `bytes` that still fits into a sink. -/
def fitting (s : Sink) (bytes : Bytes) : Bytes :=
  match s.capacity with
  | none => bytes
  | some n => bytes.take (n - s.written.size)

/-- Whether all of `bytes` still fits into a sink. An empty write always fits. -/
def fits (s : Sink) (bytes : Bytes) : Bool :=
  match s.capacity with
  | none => true
  | some n => bytes.length ≤ n - s.written.size

/-- Writes as much of `bytes` as fits. -/
def write (s : Sink) (bytes : Bytes) : Sink :=
  { s with written := s.written ++ s.fitting bytes }

/-- All of the bytes fit where they are said to. -/
theorem fitting_of_fits {s : Sink} {bytes : Bytes} (h : s.fits bytes) :
    s.fitting bytes = bytes := by
  unfold fits at h
  unfold fitting
  split at h
  · rfl
  · exact List.take_of_length_le (of_decide_eq_true h)

/-- Writing leaves the capacity of a sink as it is. -/
@[simp] theorem capacity_write (s : Sink) (bytes : Bytes) :
    (s.write bytes).capacity = s.capacity := rfl

/-- A write adds the bytes that fit to the end of what was written. -/
theorem written_write (s : Sink) (bytes : Bytes) :
    (s.write bytes).written.toList = s.written.toList ++ s.fitting bytes := by
  simp [write]

/-- Bytes of which a first part fits can be written in two parts. -/
theorem write_append {s : Sink} {bytes more : Bytes} (h : s.fits bytes) :
    s.write (bytes ++ more) = (s.write bytes).write more := by
  have size : (s.write bytes).written.size = s.written.size + bytes.length := by
    rw [← Array.length_toList, written_write, fitting_of_fits h, List.length_append,
      Array.length_toList]
  have fit : s.fitting (bytes ++ more) = bytes ++ (s.write bytes).fitting more := by
    unfold fitting fits at *
    rw [capacity_write, size]
    cases hc : s.capacity with
    | none => rfl
    | some n =>
      simp only [hc, decide_eq_true_eq] at h ⊢
      rw [List.take_append, List.take_of_length_le h, Nat.sub_sub]
  have written : (s.write (bytes ++ more)).written = ((s.write bytes).write more).written := by
    apply Array.toList_inj.1
    rw [written_write, written_write, written_write, fit, fitting_of_fits h, List.append_assoc]
  calc s.write (bytes ++ more)
      = ⟨(s.write (bytes ++ more)).written, s.capacity⟩ := rfl
    _ = (s.write bytes).write more := by rw [written]; rfl

end Sink

/-- The byte that ends a line. -/
def lineFeed : UInt8 := 10

/-- The first line of an input through its line feed, or all of an input without one, and the rest
behind it. -/
def splitLine : Bytes → Bytes × Bytes
  | [] => ([], [])
  | b :: bytes =>
    if b = lineFeed then ([b], bytes)
    else
      let (line, rest) := splitLine bytes
      (b :: line, rest)

/-- A line and what follows it are the input. -/
theorem splitLine_append (bytes : Bytes) : (splitLine bytes).1 ++ (splitLine bytes).2 = bytes := by
  induction bytes with
  | nil => rfl
  | cons b bytes ih => unfold splitLine; split <;> simp [ih]

end StackAsm
