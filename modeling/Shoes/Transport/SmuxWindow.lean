import Shoes.Lib.Io

/-! # Windows of smux v2 streams

What a v2 stream may send, by the updates of its peer. The counters are `u32` and wrap, and are
compared as `i32`. -/
namespace Shoes.Transport.SmuxWindow
open Lib.Io

/-- A number modulo `2 ^ 32` as an `i32`. -/
def asI32 (n : Int) : Int := n.bmod (2 ^ 32)

theorem asI32_spec (n) :
    ∃ k, asI32 n = n + 2 ^ 32 * k ∧ -2 ^ 31 ≤ asI32 n ∧ asI32 n < 2 ^ 31 := by
  rw [asI32, Int.bmod]
  split
  · exact ⟨-(n / 2 ^ 32), by omega, by omega, by omega⟩
  · exact ⟨-(n / 2 ^ 32) - 1, by omega, by omega, by omega⟩

/-- A difference of signed numbers that wraps is not too large if nothing negative is taken off. -/
theorem wrapped_sub_le {w i} (hw : 0 ≤ w ∧ w < 2 ^ 32) (hi : 0 ≤ i ∧ i < 2 ^ 32)
    (hpos : ¬asI32 i < 0) : max (asI32 (asI32 w - asI32 i)) 0 ≤ max (w - i) 0 := by
  obtain ⟨_, hi32⟩ := asI32_spec i
  obtain ⟨_, hw32⟩ := asI32_spec w
  obtain ⟨_, hroom⟩ := asI32_spec (asI32 w - asI32 i)
  omega

structure SmuxV2FlowControl where
  numWritten : UInt32
  peerConsumed : UInt32
  peerWindow : UInt32
  deriving DecidableEq

namespace SmuxV2FlowControl

def initialPeerWindow : UInt32 := 262144

def new : SmuxV2FlowControl := ⟨0, 0, initialPeerWindow⟩

def consumedMore : IoError := ⟨.invalidData, "smux v2 peer consumed more bytes than were sent"⟩

variable (f : SmuxV2FlowControl)

def update (consumed window : UInt32) : Except IoError Unit × SmuxV2FlowControl :=
  if asI32 (f.numWritten - consumed).toNat < 0 then (.error consumedMore, f)
  else (.ok (), { f with peerConsumed := consumed, peerWindow := window })

theorem update_cases (consumed window) : f.update consumed window = (.error consumedMore, f) ∨
    f.update consumed window =
      (.ok (), { f with peerConsumed := consumed, peerWindow := window }) := by
  unfold update
  split
  · exact .inl rfl
  · exact .inr rfl

def available : Except IoError Nat :=
  let inflight := asI32 (f.numWritten - f.peerConsumed).toNat
  if inflight < 0 then .error consumedMore
  -- the difference wraps in a release build
  else .ok (max (asI32 (asI32 f.peerWindow.toNat - inflight)) 0).toNat

def recordWrite (count : Nat) : SmuxV2FlowControl :=
  { f with numWritten := f.numWritten + UInt32.ofNat count }

end SmuxV2FlowControl

inductive Event
  | update (consumed window : UInt32)
  | recordWrite (count : Nat)

/-- A stream and its history: all bytes written, and the last update that was taken. -/
structure Sender where
  flow : SmuxV2FlowControl
  written : Nat
  acknowledged : UInt32
  advertised : UInt32

namespace Sender

def new : Sender := ⟨.new, 0, 0, SmuxV2FlowControl.initialPeerWindow⟩

def updated (s : Sender) (consumed window : UInt32) :
    Except IoError Unit × SmuxV2FlowControl → Sender
  | (.error _, flow) => { s with flow }
  | (.ok (), flow) => ⟨flow, s.written, consumed, window⟩

def step (s : Sender) : Event → Sender
  | .update consumed window => s.updated consumed window (s.flow.update consumed window)
  | .recordWrite count => { s with flow := s.flow.recordWrite count, written := s.written + count }

def after (events : List Event) : Sender := events.foldl step new

/-- Written and not acknowledged, modulo `2 ^ 32`. -/
def inFlight (s : Sender) : Int := (s.written - s.acknowledged.toNat) % 2 ^ 32

/-- The counters are the history. -/
structure Tracks (s : Sender) : Prop where
  written : s.flow.numWritten = UInt32.ofNat s.written
  acknowledged : s.flow.peerConsumed = s.acknowledged
  advertised : s.flow.peerWindow = s.advertised

variable {s : Sender}

theorem Tracks.step (h : Tracks s) (e) : Tracks (s.step e) := by
  cases e with
  | recordWrite count =>
    have hwritten : s.flow.numWritten + UInt32.ofNat count = UInt32.ofNat (s.written + count) := by
      rw [h.written, UInt32.ofNat_add]
    exact { h with written := hwritten }
  | update consumed window =>
    rcases s.flow.update_cases consumed window with hu | hu <;> rw [Sender.step, hu]
    · exact h
    · exact ⟨h.written, rfl, rfl⟩

theorem Tracks.available_le (h : Tracks s) (hn : s.flow.available = .ok n) :
    (n : Int) ≤ max (s.advertised.toNat - s.inFlight) 0 := by
  have hin : ((s.flow.numWritten - s.flow.peerConsumed).toNat : Int) = s.inFlight := by
    rw [UInt32.toNat_sub, h.written, h.acknowledged, UInt32.toNat_ofNat', inFlight]
    have := s.acknowledged.toNat_lt
    omega
  have hmod : 0 ≤ s.inFlight ∧ s.inFlight < 2 ^ 32 := by
    unfold inFlight
    omega
  have hwindow := s.advertised.toNat_lt
  simp only [SmuxV2FlowControl.available, hin, h.advertised] at hn
  split_ifs at hn with hneg
  have hle := wrapped_sub_le (w := s.advertised.toNat) ⟨by omega, by omega⟩ hmod hneg
  rw [← Except.ok.inj hn, Int.toNat_of_nonneg (le_max_right ..)]
  exact hle

/-- **The peer's window is respected**, whatever the peer announces and however much is written. -/
theorem window_respected (events : List Event) (n : Nat)
    (h : (after events).flow.available = .ok n) :
    (n : Int) ≤ max ((after events).advertised.toNat - (after events).inFlight) 0 := by
  have htracks : Tracks (after events) :=
    List.foldlRecOn (motive := Tracks) events step ⟨rfl, rfl, rfl⟩ fun _ h e _ => h.step e
  exact htracks.available_le h

theorem window_respected_written :
    (after [.recordWrite 5, .update 2 10]).flow.available = .ok 7 ∧
      (7 : Int) ≤ max ((after [.recordWrite 5, .update 2 10]).advertised.toNat -
        (after [.recordWrite 5, .update 2 10]).inFlight) 0 :=
  ⟨by decide +kernel, window_respected _ 7 (by decide +kernel)⟩

end Sender

end Shoes.Transport.SmuxWindow
