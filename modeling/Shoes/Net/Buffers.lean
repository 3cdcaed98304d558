import Mathlib.Data.List.Basic

/-! # The sliding buffer

`SlideBuffer` keeps what has been read and not yet consumed in a buffer of fixed capacity. What is
consumed leaves a gap in front, which only `compact` and an empty buffer close. The model keeps the
gap and the contents. -/
namespace Shoes.Net.Buffers

structure SlideBuffer where
  capacity : Nat
  start : Nat
  bytes : List UInt8
  fits : start + bytes.length ≤ capacity
  deriving DecidableEq

namespace SlideBuffer

def new (capacity : Nat) : SlideBuffer := ⟨capacity, 0, [], Nat.zero_le _⟩

section
variable (b : SlideBuffer)

def remainingCapacity : Nat := b.capacity - (b.start + b.bytes.length)

/-- What a read into `write_slice` leaves; it brings no more than the slice holds. -/
def advanceWrite (got : List UInt8) (h : got.length ≤ b.remainingCapacity) : SlideBuffer where
  capacity := b.capacity
  start := b.start
  bytes := b.bytes ++ got
  fits := by
    have := b.fits
    unfold remainingCapacity at h
    rw [List.length_append]
    omega

/-- `consume`; a buffer that is empty starts over. -/
def consume (n : Nat) : SlideBuffer :=
  if h : b.bytes.length ≤ n then ⟨b.capacity, 0, [], Nat.zero_le _⟩
  else ⟨b.capacity, b.start + n, b.bytes.drop n, by
    have := b.fits
    rw [List.length_drop]
    omega⟩

def compact : SlideBuffer :=
  ⟨b.capacity, 0, b.bytes, by have := b.fits; omega⟩

def maybeCompact (threshold : Nat) : SlideBuffer :=
  if b.start > threshold then b.compact else b

def release : SlideBuffer := if b.bytes = [] then b.compact else b

end

variable (b : SlideBuffer)

@[simp] theorem maybeCompact_bytes (t) : (b.maybeCompact t).bytes = b.bytes := by
  unfold maybeCompact
  split <;> rfl

@[simp] theorem maybeCompact_capacity (t) : (b.maybeCompact t).capacity = b.capacity := by
  unfold maybeCompact
  split <;> rfl

theorem maybeCompact_start (t) : (b.maybeCompact t).start = if b.start > t then 0 else b.start := by
  unfold maybeCompact
  split <;> rfl

@[simp] theorem release_bytes : b.release.bytes = b.bytes := by
  unfold release
  split <;> rfl

@[simp] theorem release_capacity : b.release.capacity = b.capacity := by
  unfold release
  split <;> rfl

theorem release_start : b.release.start = if b.bytes.length = 0 then 0 else b.start := by
  unfold release
  by_cases h : b.bytes = []
  · simp [h, compact]
  · simp [h]

@[simp] theorem consume_bytes (n) : (b.consume n).bytes = b.bytes.drop n := by
  unfold consume
  split
  · rename_i h
    exact (List.drop_of_length_le h).symm
  · rfl

@[simp] theorem consume_capacity (n) : (b.consume n).capacity = b.capacity := by
  unfold consume
  split <;> rfl

theorem consume_start (n) :
    (b.consume n).start = if b.bytes.length ≤ n then 0 else b.start + n := by
  unfold consume
  split <;> rfl

end SlideBuffer

end Shoes.Net.Buffers
