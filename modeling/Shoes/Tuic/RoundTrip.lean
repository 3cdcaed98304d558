import Shoes.Tuic.Reassembly

/-! # TUIC fragmentation is undone by reassembly

The fragments of one packet, in whatever order they come and whatever comes between them,
give the packet back once, when the last of them has come. -/
namespace Shoes.Tuic.RoundTrip
open Lib.Io Lib.LruCache Lib.Machine Lib.Slots List
open Net.Location Net.Fragments Codec Reply Datagram
open Reassembly

/-! ## One packet in any order -/

structure Sent extends Whole where
  key : UdpFragmentKey

namespace Sent
variable (w : Sent)

def fragment (i : Nat) : Packet where
  assocId := w.key.assocId
  packetId := w.key.packetId
  fragTotal := w.count
  fragId := UInt8.ofNat i
  remoteLocation := if i = 0 then some w.location else none
  payload := w.piece i

variable {w} {seen : List Nat} {i : Nat} {packet : FragmentedPacket}

theorem no_error (h : w.Partial seen packet) (hn : (i :: seen).Nodup)
    (hlt : ∀ j ∈ i :: seen, j < w.pieces.length) : fragmentError packet (w.fragment i) = none := by
  have hcount := w.count_le
  have hi := hlt i (by simp)
  have hslot : (packet.received.getD (w.fragment i).fragId.toNat none).isSome = false := by
    rw [fragment, h.slot hi]
    simpa using (nodup_cons.mp hn).1
  have hlen : ¬packet.packetLen + (w.fragment i).payload.length > maxReassembledUdpPacketSize :=
    not_lt.mpr (h.len_le hn hlt)
  have hloc : ¬((w.fragment i).fragId = 0 ∧ (w.fragment i).remoteLocation = none) := by
    rintro ⟨h0, hnone⟩
    have hi0 : i = 0 := by
      have := congrArg UInt8.toNat h0
      rwa [fragment, toNat_ofNat (by omega)] at this
    simp [fragment, hi0] at hnone
  unfold fragmentError
  rw [hslot, if_neg (by simp [h.count, fragment]), if_neg (by simp), if_neg hloc, if_neg hlen]

/-- The entry of a packet of which nothing has come is not there, or as good as new. -/
def Waiting (w : Sent) (seen : List Nat) (entry : Option FragmentedPacket) : Prop :=
  w.Partial seen (entry.getD (.empty w.count))

/-- **One fragment.** It is kept as long as others are missing; the last one gives the packet. -/
theorem slotFragment_fragment (h : w.Waiting seen entry) (hn : (i :: seen).Nodup)
    (hlt : ∀ j ∈ i :: seen, j < w.pieces.length) : if (i :: seen).length = w.pieces.length then
      (slotFragment entry (w.fragment i)).1 = .ok (some w.prepared)
    else (slotFragment entry (w.fragment i)).1 = .ok none ∧
      w.Waiting (i :: seen) (slotFragment entry (w.fragment i)).2 := by
  have hpart : w.Partial seen (entry.getD (.empty (w.fragment i).fragTotal)) := h
  have hnext : w.Partial (i :: seen)
      (receivePacket (entry.getD (.empty (w.fragment i).fragTotal)) (w.fragment i)) :=
    hpart.receive (hlt i (by simp)) fun hi => by rw [fragment, if_pos hi]
  have hdone := hnext.complete_iff hn hlt
  unfold slotFragment
  simp only [no_error hpart hn hlt]
  by_cases hlast : (i :: seen).length = w.pieces.length
  · rw [if_pos hlast, if_neg (fun hne => hne (hdone.mpr hlast))]
    have hpos : 0 < w.pieces.length := Nat.lt_of_le_of_lt (Nat.zero_le i) (hlt i (by simp))
    rw [finishPacket, hnext.finish hn hlt hlast hpos]
    rfl
  rw [if_neg hlast, if_pos (fun he => hlast (hdone.mp he))]
  exact ⟨rfl, hnext⟩

theorem slot_fragment (hmany : 1 < w.pieces.length) (hi : i < w.pieces.length) (entry) :
    slot entry (w.fragment i) = slotFragment entry (w.fragment i) := by
  have hcount := w.count_le
  have htotal : ((w.fragment i).fragTotal).toNat = w.pieces.length := w.count_toNat
  have hid : ((w.fragment i).fragId).toNat = i := toNat_ofNat (by omega)
  have h0 : (w.fragment i).fragTotal ≠ 0 := by intro h; rw [h] at htotal; simp at htotal; omega
  have h1 : (w.fragment i).fragTotal ≠ 1 := by intro h; rw [h] at htotal; simp at htotal; omega
  have hlt : ¬(w.fragment i).fragId ≥ (w.fragment i).fragTotal := by
    rw [ge_iff_le, UInt8.le_iff_toNat_le, htotal, hid]; omega
  rw [slot, if_neg h0, if_neg hlt, if_neg h1]

/-- **The fragments of one packet, in any order.** -/
theorem slot_run (hmany : 1 < w.pieces.length) :
    ∀ (rest seen : List Nat) (entry : Option FragmentedPacket), w.Waiting seen entry →
      (seen ++ rest).Perm (range w.pieces.length) → rest ≠ [] →
      (outputs slot entry (rest.map w.fragment)).map Prod.snd =
        replicate (rest.length - 1) (.ok none) ++ [.ok (some w.prepared)]
  | [], _, _, _, _, hne => absurd rfl hne
  | i :: rest, seen, entry, h, hperm, _ => by
    have hmove : ((i :: seen) ++ rest).Perm (range w.pieces.length) :=
      (perm_middle.symm).trans hperm
    have hnodup : ((i :: seen) ++ rest).Nodup := hmove.nodup_iff.mpr nodup_range
    have hn : (i :: seen).Nodup := hnodup.of_append_left
    have hlt : ∀ j ∈ i :: seen, j < w.pieces.length := fun j hj =>
      mem_range.mp (hmove.mem_iff.mp (mem_append_left rest hj))
    have hlen : (i :: seen).length + rest.length = w.pieces.length := by
      have := hmove.length_eq
      rwa [length_append, length_range] at this
    have hstep := slotFragment_fragment h hn hlt
    rw [← slot_fragment hmany (hlt i (by simp))] at hstep
    simp only [map_cons, outputs, length_cons, Nat.add_sub_cancel]
    rcases rest with _ | ⟨j, rest⟩
    · rw [if_pos (by simpa using hlen)] at hstep
      simp [outputs, hstep]
    rw [if_neg (by simp only [length_cons] at hlen ⊢; omega)] at hstep
    rw [slot_run hmany (j :: rest) (i :: seen) _ hstep.2 hmove (by simp), hstep.1]
    simp [replicate_succ]

theorem slot_results (hpos : 0 < w.pieces.length) {ids : List Nat}
    (hids : ids.Perm (range w.pieces.length)) :
    (outputs slot none (ids.map w.fragment)).map Prod.snd =
      replicate (ids.length - 1) (.ok none) ++ [.ok (some w.prepared)] := by
  have hlen : ids.length = w.pieces.length := by simpa using hids.length_eq
  by_cases hmany : 1 < w.pieces.length
  · exact slot_run hmany ids [] none w.partial_empty hids (by rintro rfl; simp at hlen; omega)
  obtain ⟨p, hp⟩ := length_eq_one_iff.mp (by omega : w.pieces.length = 1)
  rw [hp] at hids
  have hone : ids = [0] := perm_singleton.mp hids
  simp [hone, outputs, slot, fragment, Whole.count, Whole.prepared, hp, Whole.piece]

end Sent

/-! ## The datagram loop -/

section
variable (L : FragmentLru)

/-- The packets of the datagrams that come, with what `prepare_udp_packet` makes of each. A
datagram that does not parse ends the loop; an error in a packet is reported and the loop
goes on. -/
def datagramLoop : L.Cache → List (List UInt8) →
    List (Packet × Except IoError (Option PreparedUdpPacket))
  | _, [] => []
  | c, data :: rest =>
    match parseDatagram data with
    | .error _ => []
    | .ok .heartbeat => datagramLoop c rest
    | .ok (.packet p) =>
      (p, (prepareUdpPacket L c p).1) :: datagramLoop (prepareUdpPacket L c p).2 rest

def packetOf (data : List UInt8) : Option Packet :=
  match parseDatagram data with
  | .ok (.packet p) => some p
  | _ => none

def OfPacket (key : UdpFragmentKey) : List UInt8 → Bool := HasKey packetOf Packet.key key

/-- Every datagram parses, and none overflows the cache when it comes. -/
def Admitted (c : L.Cache) (datagrams : List (List UInt8)) : Prop :=
  (∀ data ∈ datagrams, ∃ m, parseDatagram data = .ok m) ∧
    Along (prepareUdpPacket L) (HasRoom L) c (datagrams.filterMap packetOf)

theorem datagramLoop_eq (h : ∀ data ∈ datagrams, ∃ m, parseDatagram data = .ok m) :
    datagramLoop L c datagrams = outputs (prepareUdpPacket L) c (datagrams.filterMap packetOf) := by
  induction datagrams generalizing c with
  | nil => rfl
  | cons data rest ih =>
    have hrest := fun c => ih (c := c) fun d hd => h d (by simp [hd])
    obtain ⟨m, hm⟩ := h data (by simp)
    cases m with
    | heartbeat => simp [datagramLoop, packetOf, hm, hrest]
    | packet p => simp [datagramLoop, packetOf, hm, hrest, outputs]

variable {L}

theorem completed_loop (h : Admitted L c datagrams) (key) :
    completed Packet.key key (datagramLoop L c datagrams) =
      ((outputs slot (L.find c key) ((datagrams.filter (OfPacket key)).filterMap packetOf)).map
        Prod.snd).filterMap delivered := by
  rw [datagramLoop_eq L h.1]
  exact completed_outputs (prepare_keyed L) key h.2

/-! ## Round trip -/

def Sent.ofCut {maxDatagramSize : Nat} {s : Session} {packetId : UInt16} {payload : Payload}
    {datagrams pieces : List (List UInt8)}
    (h : Cut maxDatagramSize s packetId payload.bytes datagrams pieces) : Sent where
  key := ⟨s.assocId, packetId⟩
  location := s.location.toNetLocation
  pieces := pieces
  count_le := h.count_le
  size_le := by rw [h.flatten_eq]; exact payload.fits

section
variable {maxDatagramSize : Nat} {s : Session} {packetId : UInt16} {payload : Payload}
  {datagrams pieces : List (List UInt8)}

theorem packets_of_cut (h : Cut maxDatagramSize s packetId payload.bytes datagrams pieces) :
    datagrams.filterMap packetOf = (range pieces.length).map (Sent.ofCut h).fragment := by
  have hdatagrams : datagrams = (range pieces.length).map fun i =>
      packetDatagram s packetId pieces.length i (pieces.getD i []) := by
    refine h.datagrams_eq.trans (ext_getElem (by simp) fun i _ hi => ?_)
    have hi' : i < pieces.length := by simpa using hi
    simp [hi']
  conv_lhs => rw [hdatagrams]
  rw [filterMap_map, ← filterMap_eq_map]
  refine filterMap_congr fun i hi => ?_
  have hle : (pieces.getD i []).length ≤ 65535 := by
    refine Nat.le_trans ?_ payload.fits
    rw [← h.flatten_eq, length_flatten]
    refine le_sum_of_mem (mem_map_of_mem ?_)
    simp [mem_range.mp hi]
  rw [Function.comp_apply, packetOf, parseDatagram_packetDatagram s packetId pieces.length i hle]
  rfl

theorem Sent.fragments_perm (w : Sent) (h : packets.Perm ((range w.pieces.length).map w.fragment)) :
    ∃ ids : List Nat, ids.Perm (range w.pieces.length) ∧ packets = ids.map w.fragment := by
  have hid : ∀ i < w.pieces.length, (w.fragment i).fragId.toNat = i := fun i hi =>
    toNat_ofNat ((le_of_lt hi).trans w.count_le)
  refine ⟨packets.map fun p => p.fragId.toNat, ?_, ?_⟩
  · have hp := h.map fun p => p.fragId.toNat
    rw [map_map] at hp
    have hmap : (range w.pieces.length).map ((fun p => p.fragId.toNat) ∘ w.fragment) =
        range w.pieces.length :=
      (map_congr_left fun i hi => hid i (mem_range.mp hi)).trans (map_id' _)
    rwa [hmap] at hp
  rw [map_map]
  refine ((map_congr_left fun p hp => ?_).trans (map_id' packets)).symm
  obtain ⟨i, hi, rfl⟩ := mem_map.mp (h.mem_iff.mp hp)
  exact congrArg w.fragment (hid i (mem_range.mp hi))

theorem packets_length (key) (trace : List (List UInt8)) :
    ((trace.filter (OfPacket key)).filterMap packetOf).length =
      (trace.filter (OfPacket key)).length := by
  induction trace with
  | nil => rfl
  | cons data rest ih =>
    cases hp : packetOf data with
    | none => simpa [OfPacket, HasKey, hp] using ih
    | some p => by_cases hk : Packet.key p = key <;> simpa [OfPacket, HasKey, hp, hk] using ih

/-- **Fragmentation is undone in every order.** The datagrams that a reply sends fit the limit.
Whenever they come among other datagrams that parse, are of other packets and do not overflow the
cache, exactly one packet is completed for them, the one that was sent, and none before the last
of them has come. -/
theorem datagramReply_reassembled (L : FragmentLru)
    (hsend : datagramReply maxDatagramSize s packetId payload = .ok datagrams) :
    (∀ d ∈ datagrams, d.length ≤ maxDatagramSize) ∧
    ∀ (c : L.Cache) (trace : List (List UInt8)), L.find c ⟨s.assocId, packetId⟩ = none →
      (trace.filter (OfPacket ⟨s.assocId, packetId⟩)).Perm datagrams → Admitted L c trace →
      completed Packet.key ⟨s.assocId, packetId⟩ (datagramLoop L c trace) =
          [⟨s.location.toNetLocation, payload.bytes⟩] ∧
        ∀ early, early <+: trace →
          (early.filter (OfPacket ⟨s.assocId, packetId⟩)).length < datagrams.length →
          completed Packet.key ⟨s.assocId, packetId⟩ (datagramLoop L c early) = [] := by
  obtain ⟨pieces, hcut⟩ := datagramReply_cut hsend
  refine ⟨hcut.length_le, fun c trace hnew hperm hadm => ?_⟩
  have hpackets := hperm.filterMap packetOf
  rw [packets_of_cut hcut] at hpackets
  obtain ⟨ids, hids, hall⟩ := (Sent.ofCut hcut).fragments_perm hpackets
  have hresults := Sent.slot_results (w := Sent.ofCut hcut) hcut.pos hids
  rw [← hall] at hresults
  have hprepared : (Sent.ofCut hcut).prepared = ⟨s.location.toNetLocation, payload.bytes⟩ := by
    simp [Whole.prepared, Sent.ofCut, hcut.flatten_eq]
  have hcount : ids.length = datagrams.length := by
    have h1 := hids.length_eq
    have h2 := congrArg length hcut.datagrams_eq
    rw [length_range] at h1
    rw [length_mapIdx] at h2
    exact h1.trans h2.symm
  refine ⟨?_, ?_⟩
  · rw [completed_loop hadm, hnew, hresults, hprepared]
    simp [filterMap_append, delivered]
  rintro early ⟨late, rfl⟩ hshort
  have hearly : Admitted L c early := by
    refine ⟨fun d hd => hadm.1 d (by simp [hd]), ?_⟩
    have h2 := hadm.2
    rw [filterMap_append] at h2
    exact h2.left
  -- the results so far are the first ones of the whole run, and those are all `none`
  rw [filter_append, filterMap_append, outputs_append, map_append] at hresults
  have hfirst := prefix_of_prefix_length_le ⟨_, hresults⟩ (prefix_append ..) (by
    rw [length_map, outputs_length, packets_length, length_replicate]
    omega)
  rw [completed_loop hearly, hnew, (prefix_replicate_iff.mp hfirst).2]
  exact filterMap_replicate_of_none rfl

/-- Three bytes to a client that takes 18: two datagrams, which come in the wrong order and
with a heartbeat between them. -/
theorem datagramReply_reassembled_swapped :
    let L := listLru UdpFragmentKey FragmentedPacket
    let first := packetDatagram sampleSession 0 2 0 [1]
    let second := packetDatagram sampleSession 0 2 1 [2, 3]
    datagramReply 18 sampleSession 0 ⟨[1, 2, 3], by decide, by decide⟩ = .ok [first, second] ∧
      completed Packet.key ⟨7, 0⟩
    (datagramLoop L (L.new maxFragmentCacheSize) [second, [5, 4], first]) =
        [⟨⟨.ipv4 ⟨192, 0, 2, 1⟩, 53⟩, [1, 2, 3]⟩] := by
  have hsend : datagramReply 18 sampleSession 0 ⟨[1, 2, 3], by decide, by decide⟩ = .ok
      [packetDatagram sampleSession 0 2 0 [1], packetDatagram sampleSession 0 2 1 [2, 3]] := by
    decide
  refine ⟨hsend, ((datagramReply_reassembled _ hsend).2 _ _ rfl ?_ ⟨?_, ?_⟩).1⟩
  · exact isPerm_iff.mp (by decide)
  · intro data hd
    simp only [mem_cons, not_mem_nil, or_false] at hd
    rcases hd with rfl | rfl | rfl <;> exact ⟨_, rfl⟩
  · decide

end

end

end Shoes.Tuic.RoundTrip
