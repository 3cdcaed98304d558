import Shoes.Lib.Machine
import Shoes.Lib.Slots
import Shoes.Net.Location

/-! # Packets in fragments

The entry that the TUIC and the Hysteria2 server keep for a UDP packet of which some fragments
have come. `Partial` says what an entry looks like when certain fragments of a known packet
have come, in whatever order. -/
namespace Shoes.Net.Fragments
open Lib.Io Lib.Machine Lib.Slots Location List

def maxFragmentCacheSize : Nat := 256
def maxReassembledUdpPacketSize : Nat := 65535
def maxFragmentCacheBytes : Nat := 4 * 1024 * 1024

/-- A datagram from the remote, as it lies in `read_buf`: an empty one ends the session, a
longer one does not fit. -/
structure Payload where
  bytes : List UInt8
  ne_nil : bytes ≠ []
  fits : bytes.length ≤ 65535
  deriving DecidableEq

/-- One slot for each fragment. -/
structure FragmentedPacket where
  fragmentCount : UInt8
  fragmentReceived : UInt8
  packetLen : Nat
  received : List (Option (List UInt8))
  remoteLocation : Option NetLocation
  received_length : received.length = fragmentCount.toNat
  deriving DecidableEq

/-- A packet ready to be forwarded. -/
structure PreparedUdpPacket where
  remoteLocation : NetLocation
  payload : List UInt8
  deriving DecidableEq

namespace FragmentedPacket

def empty (fragmentCount : UInt8) : FragmentedPacket where
  fragmentCount
  fragmentReceived := 0
  packetLen := 0
  received := List.replicate fragmentCount.toNat none
  remoteLocation := none
  received_length := List.length_replicate

/-- What is written through `get_mut`. -/
def receive (packet : FragmentedPacket) (fragmentId : UInt8) (remoteLocation : Option NetLocation)
    (payload : List UInt8) : FragmentedPacket where
  fragmentCount := packet.fragmentCount
  fragmentReceived := packet.fragmentReceived + 1
  packetLen := packet.packetLen + payload.length
  received := packet.received.set fragmentId.toNat (some payload)
  remoteLocation := if fragmentId = 0 then remoteLocation else packet.remoteLocation
  received_length := by rw [List.length_set, packet.received_length]

@[simp] theorem empty_received (fragmentCount) :
    (empty fragmentCount).received = List.replicate fragmentCount.toNat none := rfl

@[simp] theorem receive_received (packet : FragmentedPacket) (fragmentId : UInt8)
    (remoteLocation payload) : (packet.receive fragmentId remoteLocation payload).received =
      packet.received.set fragmentId.toNat (some payload) := rfl

end FragmentedPacket

/-- The loop that puts the fragments together. -/
def joinFragments : List (Option (List UInt8)) → Option (List UInt8)
  | [] => some []
  | none :: _ => none
  | some fragment :: rest => (joinFragments rest).map (fragment ++ ·)

theorem joinFragments_some (ps : List (List UInt8)) :
    joinFragments (ps.map some) = some ps.flatten := by
  induction ps with
  | nil => rfl
  | cons p ps ih => simp [joinFragments, ih]

/-- What becomes of a packet once as many fragments have come as it has. -/
def FragmentedPacket.finish (packet : FragmentedPacket) (sessionId packetId : Nat) :
    Except IoError PreparedUdpPacket :=
  match packet.remoteLocation with
  | none => .error (IoError.other
      s!"Missing first fragment address for session {sessionId} packet {packetId}")
  | some remoteLocation =>
    match joinFragments packet.received with
    | none => .error (IoError.other s!"Missing fragment for session {sessionId} packet {packetId}")
    | some payload => .ok ⟨remoteLocation, payload⟩

/-! ## A known packet -/

/-- A packet cut into pieces. -/
structure Whole where
  location : NetLocation
  pieces : List (List UInt8)
  count_le : pieces.length ≤ 255
  size_le : pieces.flatten.length ≤ maxReassembledUdpPacketSize

theorem toNat_ofNat {i} (h : i ≤ 255) : (UInt8.ofNat i).toNat = i := by
  rw [UInt8.toNat_ofNat']; omega

namespace Whole
variable (w : Whole)

def piece (i : Nat) : List UInt8 := w.pieces.getD i []

def count : UInt8 := UInt8.ofNat w.pieces.length

/-- The packet that was cut. -/
def prepared : PreparedUdpPacket := ⟨w.location, w.pieces.flatten⟩

theorem count_toNat : w.count.toNat = w.pieces.length := toNat_ofNat w.count_le

theorem sum_range : ((List.range w.pieces.length).map fun i => (w.piece i).length).sum =
    w.pieces.flatten.length := by
  have h := congrArg (fun ps => (ps.map List.length).sum) (map_getD_range w.pieces [])
  simp only [map_map] at h
  rw [length_flatten]
  exact h

theorem length_le {seen : List Nat} (hn : seen.Nodup) (hlt : ∀ j ∈ seen, j < w.pieces.length) :
    seen.length ≤ w.pieces.length := by
  have hsub : seen.Subperm (List.range w.pieces.length) :=
    subperm_of_subset hn fun j hj => mem_range.mpr (hlt j hj)
  simpa using hsub.length_le

structure Partial (seen : List Nat) (packet : FragmentedPacket) : Prop where
  count : packet.fragmentCount = w.count
  received_count : packet.fragmentReceived = UInt8.ofNat seen.length
  len : packet.packetLen = (seen.map fun i => (w.piece i).length).sum
  received : packet.received = filled w.piece w.pieces.length seen
  location : packet.remoteLocation = if 0 ∈ seen then some w.location else none

theorem partial_empty : w.Partial [] (.empty w.count) where
  count := rfl
  received_count := rfl
  len := rfl
  received := by rw [filled_nil, FragmentedPacket.empty_received, w.count_toNat]
  location := by simp [FragmentedPacket.empty]

variable {w} {seen : List Nat} {i : Nat} {packet : FragmentedPacket}

section
variable (h : w.Partial seen packet)
include h

theorem Partial.slot (hi : i < w.pieces.length) :
    (packet.received.getD (UInt8.ofNat i).toNat none).isSome = decide (i ∈ seen) := by
  have hcount := w.count_le
  rw [toNat_ofNat (by omega), h.received, getD_eq_getElem?_getD, filled_get _ hi]
  by_cases hs : i ∈ seen <;> simp [hs]

theorem Partial.len_le (hn : (i :: seen).Nodup) (hlt : ∀ j ∈ i :: seen, j < w.pieces.length) :
    packet.packetLen + (w.piece i).length ≤ maxReassembledUdpPacketSize := by
  have hsum := sum_le_sum_range (fun i => (w.piece i).length) hn hlt
  rw [w.sum_range, map_cons, sum_cons, ← h.len] at hsum
  have hsize := w.size_le
  omega

theorem Partial.receive (hi : i < w.pieces.length)
    {remoteLocation} (hl : i = 0 → remoteLocation = some w.location) :
    w.Partial (i :: seen) (packet.receive (UInt8.ofNat i) remoteLocation (w.piece i)) where
  count := h.count
  received_count := by
    rw [FragmentedPacket.receive, h.received_count, length_cons, UInt8.ofNat_add]
    rfl
  len := by rw [FragmentedPacket.receive, h.len, map_cons, sum_cons, Nat.add_comm]
  received := by
    have hcount := w.count_le
    rw [FragmentedPacket.receive_received, h.received, toNat_ofNat (by omega), filled_set]
  location := by
    have hcount := w.count_le
    have hzero : UInt8.ofNat i = 0 ↔ i = 0 := by
      rw [← UInt8.toNat_inj, toNat_ofNat (by omega)]
      rfl
    rw [FragmentedPacket.receive, h.location]
    simp only [hzero, mem_cons]
    by_cases hi0 : i = 0
    · simp [hi0, hl hi0]
    · simp [hi0, Ne.symm hi0]

theorem Partial.complete_iff (hn : seen.Nodup) (hlt : ∀ j ∈ seen, j < w.pieces.length) :
    packet.fragmentReceived = packet.fragmentCount ↔ seen.length = w.pieces.length := by
  have hle := w.length_le hn hlt
  have hcount := w.count_le
  rw [h.received_count, h.count, ← UInt8.toNat_inj, toNat_ofNat (by omega), w.count_toNat]

theorem Partial.finish (hn : seen.Nodup) (hlt : ∀ j ∈ seen, j < w.pieces.length)
    (hlast : seen.length = w.pieces.length) (hpos : 0 < w.pieces.length) (sessionId packetId) :
    packet.finish sessionId packetId = .ok w.prepared := by
  have hall : ∀ j < w.pieces.length, j ∈ seen := fun j hj =>
    mem_of_length hn hlt hlast.symm.le hj
  have hpieces : packet.received = w.pieces.map some := by
    have hmap := congrArg (List.map some) (map_getD_range w.pieces [])
    rw [map_map] at hmap
    rw [h.received, filled_all _ hall]
    exact hmap
  unfold FragmentedPacket.finish
  rw [h.location, if_pos (hall 0 hpos), hpieces]
  simp only [joinFragments_some]
  rfl

end

end Whole

/-! ## One packet among others -/

section Keys
variable {D P K C S : Type} [DecidableEq K]

def delivered : Except IoError (Option PreparedUdpPacket) → Option PreparedUdpPacket
  | .ok (some prepared) => some prepared
  | _ => none

/-- The complete packets with a key that have been got. -/
def completed (keyOf : P → K) (key : K)
    (results : List (P × Except IoError (Option PreparedUdpPacket))) : List PreparedUdpPacket :=
  results.filterMap fun r => if keyOf r.1 = key then delivered r.2 else none

def HasKey (packetOf : D → Option P) (keyOf : P → K) (key : K) (data : D) : Bool :=
  (packetOf data).any fun p => decide (keyOf p = key)

variable {packetOf : D → Option P} {keyOf : P → K}

theorem filterMap_hasKey (key) (datagrams : List D) :
    (datagrams.filter (HasKey packetOf keyOf key)).filterMap packetOf =
      (datagrams.filterMap packetOf).filter fun p => decide (keyOf p = key) := by
  rw [filter_filterMap, filterMap_filter]
  apply filterMap_congr
  intro data _
  cases hp : packetOf data with
  | none => simp [HasKey, hp]
  | some p => by_cases hk : keyOf p = key <;> simp [HasKey, hp, hk, Option.filter]

theorem completed_outputs {step : C → P → Except IoError (Option PreparedUdpPacket) × C}
    {ok : C → P → Prop} {view : C → K → S}
    {slot : S → P → Except IoError (Option PreparedUdpPacket) × S}
    (h : Keyed step ok keyOf view slot) (key : K) {c : C} {datagrams : List D}
    (hok : Along step ok c (datagrams.filterMap packetOf)) :
    completed keyOf key (outputs step c (datagrams.filterMap packetOf)) =
      ((outputs slot (view c key) ((datagrams.filter (HasKey packetOf keyOf key)).filterMap
        packetOf)).map Prod.snd).filterMap delivered := by
  rw [filterMap_hasKey, ← h.outputs_filter key _ c hok, completed, filterMap_map, filterMap_filter]
  apply filterMap_congr
  rintro ⟨p, r⟩ _
  by_cases hk : keyOf p = key <;> simp [hk]

end Keys

end Shoes.Net.Fragments
