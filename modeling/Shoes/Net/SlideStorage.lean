import Shoes.Lib.Machine

/-! # The storage of the sliding buffer

The allocation of a `SlideBuffer` and its two indices. Storage is taken by the first write and
given back by `release`; its bytes outside of the indices are arbitrary, here zero at first. -/
namespace Shoes.Net
open Lib Lib.Machine List

structure SlideStorage where
  data : List UInt8
  capacity : Nat
  start : Nat
  stop : Nat

namespace SlideStorage

def new (capacity : Nat) : SlideStorage := ⟨[], capacity, 0, 0⟩

section
variable (b : SlideStorage)

def ensure : SlideStorage :=
  if b.data = [] ∧ 0 < b.capacity then { b with data := replicate b.capacity 0 } else b

def release : SlideStorage :=
  if b.stop ≤ b.start then { b with data := [], start := 0, stop := 0 } else b

def asSlice : List UInt8 := (b.data.take b.stop).drop b.start

/-- `extend_from_slice`, and a write into `write_slice` with its `advance_write`. A range outside
of the storage is a panic. -/
def extendFromSlice (bytes : List UInt8) : Option SlideStorage :=
  let b := b.ensure
  let stop := b.stop + bytes.length
  if stop ≤ b.data.length then
    some { b with data := b.data.take b.stop ++ bytes ++ b.data.drop stop, stop }
  else none

/-- `consume`; more than there is fails its assertion. -/
def consume (n : Nat) : Option SlideStorage :=
  if n ≤ b.stop - b.start then
    some (if b.stop ≤ b.start + n then { b with start := 0, stop := 0 }
      else { b with start := b.start + n })
  else none

def compact : SlideStorage :=
  if 0 < b.start ∧ b.start < b.stop then
    { b with
      data := b.asSlice ++ b.data.drop (b.stop - b.start)
      start := 0
      stop := b.stop - b.start }
  else if b.stop ≤ b.start then { b with start := 0, stop := 0 } else b

def maybeCompact (threshold : Nat) : SlideStorage :=
  if threshold < b.start then b.compact else b

end

inductive Op
  | append (bytes : List UInt8)
  | consume (n : Nat)
  | compact
  | maybeCompact (threshold : Nat)
  | ensure
  | release

def next (b : SlideStorage) : Op → Option SlideStorage
  | .append bytes => b.extendFromSlice bytes
  | .consume n => b.consume n
  | .compact => some b.compact
  | .maybeCompact threshold => some (b.maybeCompact threshold)
  | .ensure => some b.ensure
  | .release => some b.release

/-- The same on a byte queue. -/
def queue (q : List UInt8) : Op → List UInt8
  | .append bytes => q ++ bytes
  | .consume n => q.drop n
  | _ => q

/-- The indices are in order and within the storage. -/
structure Ordered (b : SlideStorage) : Prop where
  le : b.start ≤ b.stop
  within : b.stop ≤ b.data.length
  held : b.data = [] ∨ b.data.length = b.capacity

theorem ensure_same (b : SlideStorage) :
    b.ensure.capacity = b.capacity ∧ b.ensure.stop = b.stop := by
  unfold ensure
  split <;> exact ⟨rfl, rfl⟩

section
variable {b b' : SlideStorage} (h : b.Ordered)
include h

namespace Ordered

theorem length_asSlice : b.asSlice.length = b.stop - b.start := by
  simp [asSlice, Nat.min_eq_left h.within]

theorem ensure :
    b.ensure.Ordered ∧ b.ensure.asSlice = b.asSlice ∧ b.ensure.data.length = b.capacity := by
  have := h.le
  have := h.within
  have := h.held
  unfold SlideStorage.ensure
  split
  · have hstop : b.stop = 0 := by simp_all
    exact ⟨⟨h.le, by simp [hstop], by simp⟩, by simp [asSlice, hstop], by simp⟩
  · exact ⟨h, rfl, by grind⟩

theorem empty (hempty : b.stop ≤ b.start) :
    { b with start := 0, stop := 0 : SlideStorage }.Ordered ∧ [] = b.asSlice := by
  have hlen := h.length_asSlice
  exact ⟨⟨Nat.le_refl _, Nat.zero_le _, h.held⟩, (eq_nil_of_length_eq_zero (by omega)).symm⟩

theorem consume {n} (hop : b.consume n = some b') :
    b'.Ordered ∧ b'.asSlice = b.asSlice.drop n := by
  have hlen := h.length_asSlice
  obtain ⟨-, hop⟩ := Option.ite_none_right_eq_some.mp hop
  cases hop
  split
  · exact ⟨⟨Nat.le_refl _, Nat.zero_le _, h.held⟩, (drop_eq_nil_of_le (by omega)).symm⟩
  · exact ⟨⟨by grind, h.within, h.held⟩, by simp [asSlice]⟩

theorem compact : b.compact.Ordered ∧ b.compact.asSlice = b.asSlice := by
  have hlen := h.length_asSlice
  have hwithin := h.within
  unfold SlideStorage.compact
  split
  · have hheld : b.data.length = b.capacity := h.held.resolve_left (by grind)
    refine ⟨⟨Nat.zero_le _, by simp [hlen], .inr ?_⟩, ?_⟩
    · simp [hlen]
      omega
    · rw [asSlice, drop_zero, ← hlen, take_left]
  split
  · exact h.empty ‹_›
  · exact ⟨h, rfl⟩

theorem release : b.release.Ordered ∧ b.release.asSlice = b.asSlice := by
  unfold SlideStorage.release
  split
  · exact ⟨⟨Nat.le_refl _, Nat.le_refl _, .inl rfl⟩, (h.empty ‹_›).2⟩
  · exact ⟨h, rfl⟩

theorem extendFromSlice {bytes} (hop : b.extendFromSlice bytes = some b') :
    b'.Ordered ∧ b'.asSlice = b.asSlice ++ bytes := by
  obtain ⟨he, hslice, hheld⟩ := h.ensure
  obtain ⟨hfits, hop⟩ := Option.ite_none_right_eq_some.mp hop
  cases hop
  have hle := he.le
  have hlen : (b.ensure.data.take b.ensure.stop).length = b.ensure.stop :=
    length_take_of_le he.within
  refine ⟨⟨by grind, by grind, .inr (by grind [ensure_same])⟩, ?_⟩
  rw [← hslice, asSlice, take_left' (by simp [hlen]), drop_append_of_le_length (hlen.symm ▸ hle)]
  rfl

theorem next {op} (hop : b.next op = some b') :
    b'.Ordered ∧ b'.asSlice = queue b.asSlice op := by
  cases op with
  | append => exact h.extendFromSlice hop
  | consume => exact h.consume hop
  | compact =>
    cases hop
    exact h.compact
  | maybeCompact =>
    cases hop
    unfold maybeCompact
    split
    · exact h.compact
    · exact ⟨h, rfl⟩
  | ensure =>
    cases hop
    exact ⟨h.ensure.1, h.ensure.2.1⟩
  | release =>
    cases hop
    exact h.release

theorem run {ops} (hrun : Machine.run SlideStorage.next b ops = some b') :
    b'.Ordered ∧ b'.asSlice = ops.foldl queue b.asSlice := by
  induction ops generalizing b with
  | nil =>
    cases hrun
    exact ⟨h, rfl⟩
  | cons op ops ih =>
    unfold Machine.run at hrun
    split at hrun
    · cases hrun
    obtain ⟨hnext, hslice⟩ := h.next ‹_›
    rw [foldl_cons, ← hslice]
    exact ih hnext hrun

end Ordered

end

/-- **The buffer is a byte queue.** Whatever was done, it shows what the appends and consumes leave
on a queue, its indices are in order within the storage, and only an append beyond the capacity
and a consume beyond the contents panic. -/
theorem storage_is_queue {capacity ops b} (hrun : run next (new capacity) ops = some b) :
    b.asSlice = ops.foldl queue [] ∧ b.Ordered ∧
      ∀ op, b.next op = none ↔
        (∃ bytes, op = .append bytes ∧ b.capacity < b.stop + bytes.length) ∨
        ∃ n, op = .consume n ∧ b.asSlice.length < n := by
  have hnew : (new capacity).Ordered := ⟨Nat.le_refl _, Nat.le_refl _, .inl rfl⟩
  obtain ⟨h, hslice⟩ := hnew.run hrun
  refine ⟨hslice, h, fun op => ?_⟩
  cases op with
  | append => simp [next, extendFromSlice, h.ensure.2.2, ensure_same]
  | consume => simp [next, consume, h.length_asSlice]
  | _ => simp [next]

theorem ordered_after_compact : (⟨[3, 4, 5, 0], 4, 0, 3⟩ : SlideStorage).Ordered :=
  (storage_is_queue (rfl : run next (new 4)
    [.append [1, 2, 3], .consume 2, .compact, .append [4, 5]] = some _)).2.1

end SlideStorage

end Shoes.Net
