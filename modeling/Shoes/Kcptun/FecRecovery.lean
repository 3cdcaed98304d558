import Mathlib.Data.List.Dedup
import Shoes.Kcptun.FecDecoding

/-! # Recovery of lost packets

The packets of a shard set are determined by its number and its payloads. The encoder sends set after
set; the decoder, given enough packets of one set in any order, gives out exactly its payloads. -/
namespace Shoes.Kcptun.FecRecovery
open Lib.Assoc Lib.Bytes Lib.Io Lib.Slots Fec List
open FecDecoding (entry_keeps ok_of_mapError decoder_new)

/-! ## Shards and packets -/

theorem resize_length (shard n) : (resize shard n).length = n := by
  rw [resize, length_append, length_take, length_replicate]
  omega

theorem resize_eq {shard n} (h : shard.length ≤ n) :
    resize shard n = shard ++ replicate (n - shard.length) 0 := by
  rw [resize, take_of_length_le h]

theorem resize_self (shard) : resize shard shard.length = shard := by
  rw [resize_eq le_rfl, Nat.sub_self]
  simp

theorem dataShard_length (payload) : (dataShard payload).length = payload.length + 2 := by
  rw [dataShard, length_append, leBytes_length, add_comm]

theorem packet_length (sequence packetType shard) :
    (packet sequence packetType shard).length = 6 + shard.length := by
  simp only [packet, length_append, leBytes_length]

theorem packet_drop (sequence packetType shard) :
    (packet sequence packetType shard).drop fecHeaderSize = shard := by
  have hheader : (leBytes 4 sequence ++ leBytes 2 packetType).length = fecHeaderSize := by
    simp [fecHeaderSize]
  rw [packet, ← hheader]
  exact drop_left

theorem packet_sequence {sequence} (h : sequence < 256 ^ 4) (packetType shard) : leNat
    ((packet sequence packetType shard).take 4) = sequence := by
  have htake : (packet sequence packetType shard).take 4 = leBytes 4 sequence := by
    rw [packet, append_assoc]
    exact take_left' (leBytes_length 4 sequence)
  rw [htake, leNat_leBytes h]

theorem packet_type (sequence) {packetType} (h : packetType < 256 ^ 2)
    (shard) : leNat (slice (packet sequence packetType shard) 4 6) = packetType := by
  rw [packet, slice_append_left _ _ _ (leBytes_length 4 sequence) (by simp), leNat_leBytes h]

theorem directPayload_data (sequence) {payload} (h : payload.length + 2 ≤ 65535) :
    FecDecoder.directPayload (packet sequence fecTypeData (dataShard payload)) fecTypeData =
      .ok [payload] := by
  have hlen : (packet sequence fecTypeData (dataShard payload)).length = payload.length + 8 := by
    rw [packet_length, dataShard_length]
    omega
  have hparts : packet sequence fecTypeData (dataShard payload) =
      (leBytes 4 sequence ++ leBytes 2 fecTypeData) ++ leBytes 2 (payload.length + 2) ++ payload := by
    simp [packet, dataShard]
  have hdeclared : leNat (slice (packet sequence fecTypeData (dataShard payload)) 6 8) =
      payload.length + 2 := by
    rw [hparts, slice_append_left _ _ _ (by simp) (by simp), leNat_leBytes (h.trans_lt (by decide))]
  have hdrop : (packet sequence fecTypeData (dataShard payload)).drop fecDataHeaderSize =
      payload := by
    rw [hparts]
    exact drop_left' (by simp [fecDataHeaderSize])
  have hshort : ¬(packet sequence fecTypeData (dataShard payload)).length < fecDataHeaderSize := by
    rw [hlen, fecDataHeaderSize]
    omega
  have hright : ¬(payload.length + 2 < 2 ∨ payload.length + 2 ≠
      (packet sequence fecTypeData (dataShard payload)).length - fecHeaderSize) := by
    rw [hlen, fecHeaderSize]
    omega
  simp only [FecDecoder.directPayload, if_true, hdeclared, hdrop, if_neg hshort, if_neg hright]

theorem recoverOne_padded {shards index n payload} (h : payload.length + 2 ≤ 65535)
    (hn : payload.length + 2 ≤ n)
    (hget : shards[index]? = some (some (resize (dataShard payload) n))) :
    FecDecoder.recoverOne shards index = .ok payload := by
  have hlen : (resize (dataShard payload) n).length = n := resize_length _ _
  have hparts : resize (dataShard payload) n = leBytes 2 (payload.length + 2) ++ payload ++
      replicate (n - (dataShard payload).length) 0 := by
    rw [resize_eq (by rw [dataShard_length]; exact hn), dataShard]
  have hdeclared : leNat ((resize (dataShard payload) n).take 2) = payload.length + 2 := by
    rw [hparts, append_assoc, take_left' (leBytes_length 2 _),
      leNat_leBytes (h.trans_lt (by decide))]
  have hslice : slice (resize (dataShard payload) n) 2 (payload.length + 2) = payload := by
    rw [hparts, slice_append_left _ _ _ (leBytes_length 2 _) (add_comm _ _)]
  have hlong : ¬n < 2 := by omega
  have hright : ¬(payload.length + 2 < 2 ∨ n < payload.length + 2) := by omega
  simp only [FecDecoder.recoverOne, hget, hlen, hdeclared, hslice, if_neg hlong, if_neg hright]

/-! ## Shard sets -/

/-- A complete shard set: its number, its payloads, and the parity shards that go with them. -/
structure CodedSet (codec : Codec) (d p m : Nat) where
  number : Nat
  payloads : List (List UInt8)
  shardLen : Nat
  parity : List (List UInt8)
  count : payloads.length = d
  size : ∀ payload ∈ payloads, payload.length ≤ m
  longest : ∀ payload ∈ payloads, payload.length + 2 ≤ shardLen
  shardLen_le : shardLen ≤ m + 2
  parity_length : parity.length = p
  parity_shards : ∀ shard ∈ parity, shard.length = shardLen
  recovers : ∀ shards : List (Option (List UInt8)), shards.length = d + p →
    (∀ (i : Nat) (shard : List UInt8), shards[i]? = some (some shard) →
      (payloads.map (fun payload => resize (dataShard payload) shardLen) ++ parity)[i]? =
        some shard) →
    d ≤ shards.countP Option.isSome →
    ∃ shards', codec.reconstructData shards = .ok shards' ∧
      ∀ i < d, shards'[i]? =
        some (payloads.map fun payload => resize (dataShard payload) shardLen)[i]?

def numbered (total n packetType : Nat) (shard : List UInt8) : List UInt8 :=
  packet (n % sequenceLimit total) packetType shard

namespace CodedSet
variable {codec : Codec} {d p m : Nat} (c : CodedSet codec d p m)

/-- The shards as they are sent. -/
def shard (i : Nat) : List UInt8 := (c.payloads.map dataShard ++ c.parity).getD i []

def packetAt (i : Nat) : List UInt8 :=
  numbered (d + p) (c.number * (d + p) + i) (if i < d then fecTypeData else fecTypeParity)
    (c.shard i)

def packets : List (List UInt8) := (range (d + p)).map c.packetAt

end CodedSet

/-! ## The encoder sends sets -/

theorem sequenceLimit_pos {total} (h : 0 < total) (h' : total ≤ 256) : 0 < sequenceLimit total := by
  have hdiv : 0 < 4294967295 / total := Nat.div_pos (by omega) h
  exact Nat.mul_pos hdiv h

theorem sequenceLimit_le (total) : sequenceLimit total ≤ u32Max := Nat.div_mul_le_self ..

theorem next_mod {limit n} (hpos : 0 < limit) (hle : limit ≤ u32Max) :
    (if limit ≤ (n % limit + 1) % (u32Max + 1) then 0 else (n % limit + 1) % (u32Max + 1)) =
      (n + 1) % limit := by
  have hlt : n % limit < limit := Nat.mod_lt n hpos
  have hsmall : (n % limit + 1) % (u32Max + 1) = n % limit + 1 :=
    Nat.mod_eq_of_lt (by omega)
  have hadd : (n + 1) % limit = (n % limit + 1) % limit := (Nat.mod_add_mod n limit 1).symm
  rw [hsmall, hadd]
  by_cases hend : n % limit + 1 = limit
  · rw [hend, if_pos le_rfl, Nat.mod_self]
  have hnot : n % limit + 1 < limit := by omega
  rw [if_neg (not_le.mpr hnot), Nat.mod_eq_of_lt hnot]

section
variable {codec : Codec} {d p m : Nat}

/-- The encoder when `n` packets have been sent. -/
def encoderAt (codec : Codec) (d p m n : Nat) (pending : List (List UInt8)) : FecEncoder :=
  ⟨codec, d, p, d + p, m, n % sequenceLimit (d + p), sequenceLimit (d + p), pending⟩

theorem takeSequence_at (hd : 0 < d) (htotal : d + p ≤ 256) (n pending) :
    (encoderAt codec d p m n pending).takeSequence = encoderAt codec d p m (n + 1) pending := by
  have hnext := @next_mod (sequenceLimit (d + p)) n (sequenceLimit_pos (by omega) htotal)
    (sequenceLimit_le _)
  unfold FecEncoder.takeSequence encoderAt
  dsimp only
  rw [hnext]

theorem parityPackets_at (hd : 0 < d) (htotal : d + p ≤ 256) (parity n pending) :
    (encoderAt codec d p m n pending).parityPackets parity =
      (parity.mapIdx fun i shard => numbered (d + p) (n + i) fecTypeParity shard,
        encoderAt codec d p m (n + parity.length) pending) := by
  induction parity generalizing n with
  | nil => rfl
  | cons shard rest ih =>
    have hshift : ∀ i, n + 1 + i = n + (i + 1) := fun i => by omega
    simp only [FecEncoder.parityPackets, takeSequence_at hd htotal, ih, mapIdx_cons,
      length_cons, hshift]
    rfl

def tailPackets (d p n : Nat) (tail : List (List UInt8)) : List (List UInt8) :=
  tail.mapIdx fun i payload => numbered (d + p) (n + i) fecTypeData (dataShard payload)

theorem tailPackets_concat (d p n tail payload) :
    tailPackets d p n (tail ++ [payload]) = tailPackets d p n tail ++
      [numbered (d + p) (n + tail.length) fecTypeData (dataShard payload)] :=
  mapIdx_concat

theorem CodedSet.packets_eq (c : CodedSet codec d p m) :
    c.packets = tailPackets d p (c.number * (d + p)) c.payloads ++ c.parity.mapIdx fun i shard =>
        numbered (d + p) (c.number * (d + p) + d + i) fecTypeParity shard := by
  apply ext_getElem?
  intro i
  have hcount := c.count
  have hparity := c.parity_length
  have hlen : (tailPackets d p (c.number * (d + p)) c.payloads).length = d := by
    rw [tailPackets, length_mapIdx, hcount]
  by_cases hi : i < d + p
  · rw [CodedSet.packets, getElem?_map, getElem?_range hi, Option.map_some]
    unfold CodedSet.packetAt CodedSet.shard
    rw [getD_eq_getElem?_getD]
    by_cases hdata : i < d
    · have hi' : i < c.payloads.length := by omega
      rw [if_pos hdata, getElem?_append_left (by simpa), getElem?_append_left (by omega),
        tailPackets, getElem?_mapIdx, getElem?_map, getElem?_eq_getElem hi']
      rfl
    have hi' : i - d < c.parity.length := by omega
    have hsum : c.number * (d + p) + d + (i - d) = c.number * (d + p) + i := by omega
    rw [if_neg hdata, getElem?_append_right (by simp; omega),
      getElem?_append_right (by omega), getElem?_mapIdx, length_map, hlen,
      hcount, getElem?_eq_getElem hi', Option.map_some, Option.getD_some, hsum]
  · rw [getElem?_eq_none (by rw [packets]; simp; omega), getElem?_eq_none (by
      rw [length_append, hlen, length_mapIdx]
      omega)]

/-- What the parameters of an encoder must be. -/
structure Valid (d p m : Nat) : Prop where
  data : 0 < d
  parity : 0 < p
  total : d + p ≤ 256
  size : m ≤ 65533

def Taken (m : Nat) (payload : List UInt8) : Prop := payload ≠ [] ∧ payload.length ≤ m

theorem encode_taken (hv : Valid d p m) {payload} (hpayload : Taken m payload) (n tail) :
    (encoderAt codec d p m n (tail.map dataShard)).encode payload =
      if tail.length + 1 ≠ d then
        (.ok [numbered (d + p) n fecTypeData (dataShard payload)],
          encoderAt codec d p m (n + 1) ((tail ++ [payload]).map dataShard))
      else
        (encoderAt codec d p m (n + 1) ((tail ++ [payload]).map dataShard)).finishSet
          (numbered (d + p) n fecTypeData (dataShard payload)) := by
  have hsize := hv.size
  have hle := hpayload.2
  have hok : ¬(payload = [] ∨ m < payload.length) := fun h => h.elim hpayload.1 (by omega)
  have hshort : ¬65535 < payload.length + 2 := by omega
  unfold FecEncoder.encode
  dsimp only
  rw [show (encoderAt codec d p m n (tail.map dataShard)).maxKcpPacket = m from rfl, if_neg hok,
    if_neg hshort, takeSequence_at hv.data hv.total, packet_drop]
  simp only [encoderAt, map_append, map_cons, map_nil, length_append, length_map, length_singleton]
  rfl

theorem encode_refused {payload} (hpayload : ¬Taken m payload) (n pending) :
    ∃ error, (encoderAt codec d p m n pending).encode payload =
      (.error error, encoderAt codec d p m n pending) := by
  have hbad : payload = [] ∨ m < payload.length :=
    (not_and_or.mp hpayload).imp not_not.mp Nat.lt_of_not_le
  unfold FecEncoder.encode
  rw [show (encoderAt codec d p m n pending).maxKcpPacket = m from rfl, if_pos hbad]
  exact ⟨_, rfl⟩

theorem finishSet_at (hv : Valid d p m) (hcodec : codec.Correct d p) (k) {payloads}
    (hcount : payloads.length = d) (htaken : ∀ payload ∈ payloads, Taken m payload) (dataPacket) :
    ∃ c : CodedSet codec d p m, c.number = k ∧ c.payloads = payloads ∧
      (encoderAt codec d p m (k * (d + p) + d) (payloads.map dataShard)).finishSet dataPacket =
        (.ok (dataPacket :: c.parity.mapIdx fun i shard =>
            numbered (d + p) (k * (d + p) + d + i) fecTypeParity shard),
          encoderAt codec d p m ((k + 1) * (d + p)) []) := by
  have hne : payloads ≠ [] := ne_nil_of_length_pos (hcount ▸ hv.data)
  obtain ⟨shardLen, hmax⟩ : ∃ n, ((payloads.map dataShard).map length).max? = some n :=
    Option.ne_none_iff_exists'.mp fun h => hne (by simpa using h)
  obtain ⟨hmem, hmost⟩ := max?_eq_some_iff.mp hmax
  have hlongest : ∀ payload ∈ payloads, payload.length + 2 ≤ shardLen := by
    intro payload hp
    rw [← dataShard_length]
    exact hmost _ (mem_map_of_mem (mem_map_of_mem hp))
  obtain ⟨hpos, hle⟩ : 0 < shardLen ∧ shardLen ≤ m + 2 := by
    obtain ⟨shard, hshard, rfl⟩ := mem_map.mp hmem
    obtain ⟨payload, hp, rfl⟩ := mem_map.mp hshard
    have hlen := (htaken payload hp).2
    rw [dataShard_length]
    omega
  have hpadded : (payloads.map dataShard).map (resize · shardLen) =
      payloads.map fun payload => resize (dataShard payload) shardLen := by
    rw [map_map]
    rfl
  obtain ⟨parity, hparity, hshards, hencode, hrecovers⟩ := hcodec.recovers
    (payloads.map fun payload => resize (dataShard payload) shardLen) shardLen hpos
    (by rw [length_map, hcount])
    (by
      intro shard hshard
      obtain ⟨payload, -, rfl⟩ := mem_map.mp hshard
      exact resize_length _ _)
  refine ⟨⟨k, payloads, shardLen, parity, hcount, fun payload hp => (htaken payload hp).2, hlongest,
    hle, hparity, hshards, hrecovers⟩, rfl, rfl, ?_⟩
  have hrest : (payloads.map (fun payload => resize (dataShard payload) shardLen) ++ parity).drop d =
      parity := drop_left' (by rw [length_map, hcount])
  have hend : k * (d + p) + d + parity.length = (k + 1) * (d + p) := by
    rw [hparity, Nat.succ_mul]
    omega
  have hloop := @parityPackets_at codec d p m hv.data hv.total parity (k * (d + p) + d) []
  rw [hend] at hloop
  unfold encoderAt at hloop ⊢
  simp only [FecEncoder.finishSet, hmax, hpadded, hencode, hrest, hloop]

/-- **The encoder sends set after set**, and then the data packets of one that is not complete. -/
theorem feed_sets (hv : Valid d p m) (hcodec : codec.Correct d p) (fed) :
    ∀ (k : Nat) (tail : List (List UInt8)), tail.length < d → (∀ x ∈ tail, Taken m x) →
      ∃ (sets : List (CodedSet codec d p m)) (rest : List (List UInt8)),
        tail ++ accepted m fed = (sets.map CodedSet.payloads).flatten ++ rest ∧
        rest.length < d ∧
        tailPackets d p (k * (d + p)) tail ++
            (encoderAt codec d p m (k * (d + p) + tail.length) (tail.map dataShard)).feed fed =
          (sets.map CodedSet.packets).flatten ++
            tailPackets d p ((k + sets.length) * (d + p)) rest := by
  induction fed with
  | nil =>
    intro k tail hlen _
    exact ⟨[], tail, by simp [accepted], hlen, by simp [FecEncoder.feed]⟩
  | cons payload fed ih =>
    intro k tail hlen htail
    by_cases hpayload : Taken m payload
    · have htail' : ∀ x ∈ tail ++ [payload], Taken m x :=
        forall_mem_append.mpr ⟨htail, forall_mem_singleton.mpr hpayload⟩
      have hacc : tail ++ accepted m (payload :: fed) = tail ++ [payload] ++ accepted m fed := by
        simp [accepted, hpayload.1, hpayload.2]
      have hencode := @encode_taken codec d p m hv payload hpayload (k * (d + p) + tail.length) tail
      by_cases hlast : tail.length + 1 ≠ d
      · -- the set goes on
        have hlen' : (tail ++ [payload]).length = tail.length + 1 := by simp
        obtain ⟨sets, rest, hpayloads, hrest, hpackets⟩ :=
          ih k (tail ++ [payload]) (by omega) htail'
        refine ⟨sets, rest, hacc.trans hpayloads, hrest, ?_⟩
        rw [← hpackets, tailPackets_concat, hlen', FecEncoder.feed, hencode, if_pos hlast]
        simp [add_assoc]
      -- the set is complete
      have hcount : (tail ++ [payload]).length = d := by
        simp only [length_append, length_singleton]
        omega
      obtain ⟨c, hnumber, hc, hfinish⟩ := finishSet_at hv hcodec k hcount htail'
        (numbered (d + p) (k * (d + p) + tail.length) fecTypeData (dataShard payload))
      obtain ⟨sets, rest, hpayloads, hrest, hpackets⟩ := ih (k + 1) [] hv.data (by simp)
      refine ⟨c :: sets, rest, ?_, hrest, ?_⟩
      · rw [nil_append] at hpayloads
        rw [hacc, map_cons, flatten_cons, hc, hpayloads, append_assoc, append_assoc, append_assoc]
      have hstate : k * (d + p) + tail.length + 1 = k * (d + p) + d := by omega
      have hsets : k + (c :: sets).length = k + 1 + sets.length := by
        rw [length_cons]
        omega
      rw [FecEncoder.feed, hencode, if_neg hlast, hstate, hfinish, map_cons,
        flatten_cons, c.packets_eq, hnumber, hc, tailPackets_concat, hsets, append_assoc _ _
          (tailPackets d p ((k + 1 + sets.length) * (d + p)) rest), ← hpackets]
      simp [tailPackets]
    · obtain ⟨_, hencode⟩ := @encode_refused codec d p m payload hpayload
        (k * (d + p) + tail.length) (tail.map dataShard)
      rw [accepted, filter_cons_of_neg (by simpa [Taken] using hpayload), FecEncoder.feed, hencode]
      exact ih k tail hlen htail

end

/-! ## The decoder collects a set -/

namespace CodedSet
variable {codec : Codec} {d p m : Nat} (c : CodedSet codec d p m)

def setId : Nat := c.number % (u32Max / (d + p))

def payload (i : Nat) : List UInt8 := c.payloads.getD i []

/-- What is passed on at once for a packet. -/
def direct (i : Nat) : List (List UInt8) := if i < d then [c.payload i] else []

def missing (seen : List Nat) : List (List UInt8) :=
  ((range d).filter fun j => decide (j ∉ seen)).map c.payload

variable {i : Nat}

theorem sequence_eq (hi : i < d + p) :
    (c.number * (d + p) + i) % sequenceLimit (d + p) = i + (d + p) * c.setId := by
  have hpos : 0 < d + p := by omega
  have hmod : (c.number * (d + p) + i) % (d + p) = i := by
    rw [add_comm, Nat.add_mul_mod_self_right, Nat.mod_eq_of_lt hi]
  have hdiv : (c.number * (d + p) + i) / (d + p) = c.number := by
    rw [add_comm, Nat.add_mul_div_right _ _ hpos, Nat.div_eq_of_lt hi, zero_add]
  rw [sequenceLimit, mul_comm (u32Max / (d + p)), Nat.mod_mul, hmod, hdiv, setId]

theorem payloads_get (hi : i < d) : c.payloads[i]? = some (c.payload i) := by
  have hi' : i < c.payloads.length := by rw [c.count]; exact hi
  rw [payload, getD_eq_getElem?_getD, getElem?_eq_getElem hi']
  rfl

theorem payload_mem (hi : i < d) : c.payload i ∈ c.payloads :=
  mem_of_getElem? (c.payloads_get hi)

theorem shard_data (hi : i < d) : c.shard i = dataShard (c.payload i) := by
  have hcount := c.count
  rw [shard, getD_eq_getElem?_getD, getElem?_append_left (by simp; omega), getElem?_map,
    c.payloads_get hi]
  rfl

theorem shard_parity (hi : ¬i < d) (hi' : i < d + p) :
    c.parity[i - d]? = some (c.shard i) ∧ (c.shard i).length = c.shardLen := by
  have hcount := c.count
  have hlt : i - d < c.parity.length := by
    rw [c.parity_length]
    omega
  have hshard : c.shard i = c.parity[i - d] := by
    rw [shard, getD_eq_getElem?_getD, getElem?_append_right (by simp; omega),
      length_map, hcount, getElem?_eq_getElem hlt]
    rfl
  rw [hshard]
  exact ⟨getElem?_eq_getElem hlt, c.parity_shards _ (getElem_mem hlt)⟩

theorem shard_length_le (hi : i < d + p) : (c.shard i).length ≤ c.shardLen := by
  by_cases hdata : i < d
  · rw [c.shard_data hdata, dataShard_length]
    exact c.longest _ (c.payload_mem hdata)
  · rw [(c.shard_parity hdata hi).2]

theorem shard_ne_nil (hd : 0 < d) (hi : i < d + p) : c.shard i ≠ [] := by
  intro h
  by_cases hdata : i < d
  · have hlen := dataShard_length (c.payload i)
    rw [← c.shard_data hdata, h] at hlen
    simp at hlen
  have hlen := (c.shard_parity hdata hi).2
  have hlong := c.longest _ (c.payload_mem hd)
  rw [h] at hlen
  simp at hlen
  omega

theorem padded_get (hi : i < d + p) :
    (c.payloads.map (fun payload => resize (dataShard payload) c.shardLen) ++ c.parity)[i]? =
      some (resize (c.shard i) c.shardLen) := by
  have hcount := c.count
  by_cases hdata : i < d
  · rw [getElem?_append_left (by simp; omega), getElem?_map, c.shard_data hdata,
      c.payloads_get hdata]
    rfl
  obtain ⟨hget, hlen⟩ := c.shard_parity hdata hi
  rw [getElem?_append_right (by simp; omega), length_map, hcount, hget, ← hlen, resize_self]

/-- The longest of the shards that have come. -/
def longestOf : List Nat → Nat
  | [] => 0
  | i :: seen => max (longestOf seen) (c.shard i).length

theorem longestOf_le {seen} (h : ∀ i ∈ seen, i < d + p) : c.longestOf seen ≤ c.shardLen := by
  induction seen with
  | nil => exact Nat.zero_le _
  | cons i seen ih =>
    exact Nat.max_le.mpr ⟨ih (forall_mem_cons.mp h).2, c.shard_length_le (h i mem_cons_self)⟩

theorem le_longestOf {seen} (h : i ∈ seen) : (c.shard i).length ≤ c.longestOf seen := by
  induction seen with
  | nil => cases h
  | cons j seen ih =>
    rcases mem_cons.mp h with rfl | h
    · exact Nat.le_max_right _ _
    · exact (ih h).trans (Nat.le_max_left _ _)

/-- If a data shard is missing among as many as there are data shards, a parity shard has come. -/
theorem longestOf_eq {seen} (hn : seen.Nodup) (hlt : ∀ i ∈ seen, i < d + p) (hlen : seen.length = d)
    {j} (hj : j < d) (hmissing : j ∉ seen) : c.longestOf seen = c.shardLen := by
  have hparity : ∃ i ∈ seen, ¬i < d := by
    by_contra hall
    have hdata : ∀ i ∈ seen, i < d := fun i hi => Classical.byContradiction fun h => hall ⟨i, hi, h⟩
    exact hmissing (mem_of_length hn hdata hlen.symm.le hj)
  obtain ⟨i, hi, hnot⟩ := hparity
  apply le_antisymm (c.longestOf_le hlt)
  rw [← (c.shard_parity hnot (hlt i hi)).2]
  exact c.le_longestOf hi

end CodedSet

theorem mapM_ok {α β ε : Type} {f : α → Except ε β} {g : α → β} :
    ∀ {xs : List α}, (∀ x ∈ xs, f x = .ok (g x)) → xs.mapM f = .ok (xs.map g)
  | [], _ => rfl
  | x :: xs, h => by
    have hrest := @mapM_ok α β ε f g xs (forall_mem_cons.mp h).2
    rw [mapM_cons, h x mem_cons_self, hrest]
    rfl

theorem le_countP_filled {α : Type} (piece : Nat → α) {n seen} (hn : seen.Nodup)
    (hlt : ∀ i ∈ seen, i < n) : seen.length ≤ (filled piece n seen).countP Option.isSome := by
  have hsub : seen ⊆ (range n).filter fun i => decide (i ∈ seen) := by
    intro i hi
    exact mem_filter.mpr ⟨mem_range.mpr (hlt i hi), decide_eq_true hi⟩
  have hle := (subperm_of_subset hn hsub).length_le
  rw [filled, countP_map, countP_eq_length_filter]
  refine hle.trans (Nat.le_of_eq ?_)
  congr 1
  apply filter_congr
  intro i _
  by_cases hi : i ∈ seen <;> simp [hi]

theorem map_filled {α β : Type} (f : α → β) (piece : Nat → α) (n : Nat) (seen : List Nat) :
    (filled piece n seen).map (Option.map f) = filled (fun i => f (piece i)) n seen := by
  rw [filled, filled, map_map]
  apply map_congr_left
  intro i _
  by_cases hi : i ∈ seen <;> simp [hi]

section
variable {codec : Codec} {d p m : Nat}

/-- **Missing payloads are recovered** from as many packets as there are data packets. -/
theorem recover_eq (c : CodedSet codec d p m) (hm : m ≤ 65533) {dec : FecDecoder}
    (hcodec : dec.codec = codec) {seen missing : List Nat} {arrival} (hn : seen.Nodup)
    (hlt : ∀ i ∈ seen, i < d + p) (hlen : seen.length = d)
    (hmissing : ∀ j ∈ missing, j < d ∧ j ∉ seen) (hne : missing ≠ []) :
    dec.recover ⟨filled c.shard (d + p) seen, seen.length, c.longestOf seen, arrival⟩ missing =
      .ok (missing.map c.payload) := by
  obtain ⟨j, hj⟩ := exists_mem_of_ne_nil missing hne
  have hlong := c.longestOf_eq hn hlt hlen (hmissing j hj).1 (hmissing j hj).2
  have htable := map_filled (resize · c.shardLen) c.shard (d + p) seen
  obtain ⟨_, hreconstruct, hshards⟩ := c.recovers
    (filled (fun i => resize (c.shard i) c.shardLen) (d + p) seen) (filled_length ..)
    (by
      intro i shard hget
      have hi : i < d + p := by
        have hbound := (List.getElem?_eq_some_iff.mp hget).1
        rwa [filled_length] at hbound
      rw [filled_get _ hi] at hget
      by_cases hseen : i ∈ seen
      · rw [if_pos hseen] at hget
        rw [c.padded_get hi]
        exact Option.some.inj hget
      · rw [if_neg hseen] at hget
        cases hget)
    (hlen.symm.le.trans (le_countP_filled _ hn hlt))
  unfold FecDecoder.recover
  rw [hcodec, hlong, htable, hreconstruct]
  refine mapM_ok ?_
  intro i hi
  have hidx := (hmissing i hi).1
  have hmem := c.payload_mem hidx
  have hsize := c.size _ hmem
  refine recoverOne_padded (n := c.shardLen) (by omega) (c.longest _ hmem) ?_
  rw [hshards i hidx, getElem?_map, c.payloads_get hidx]
  rfl

/-- A decoder for the packets of an encoder. -/
structure Config (codec : Codec) (d p m : Nat) (dec : FecDecoder) : Prop where
  codec : dec.codec = codec
  dataShards : dec.dataShards = d
  totalShards : dec.totalShards = d + p
  sequenceLimit : dec.sequenceLimit = Fec.sequenceLimit (d + p)
  size : m + 8 ≤ dec.maxPacketSize
  sets : 0 < dec.maxShardSets

theorem checkPosition_ok {dec : FecDecoder} (hd : dec.dataShards = d) (i) :
    dec.checkPosition (if i < d then fecTypeData else fecTypeParity) i = .ok () := by
  unfold FecDecoder.checkPosition
  rw [hd]
  by_cases hi : i < d
  · rw [if_pos hi, if_pos ⟨rfl, hi⟩]
  · rw [if_neg hi, if_neg fun h => hi h.2, if_pos ⟨rfl, not_lt.mp hi⟩]

theorem decode_packetAt (hv : Valid d p m) {dec : FecDecoder} (h : Config codec d p m dec)
    (c : CodedSet codec d p m) {i} (hi : i < d + p) : dec.decode (c.packetAt i) =
      if dec.completed.contains c.setId then (.ok (c.direct i), dec)
      else dec.insertShard c.setId i (c.shard i) (c.direct i) := by
  have hseq := c.sequence_eq hi
  have hlimit := sequenceLimit_le (d + p)
  have hpos := sequenceLimit_pos (by omega : 0 < d + p) hv.total
  have hlt : (c.number * (d + p) + i) % sequenceLimit (d + p) < sequenceLimit (d + p) :=
    Nat.mod_lt _ hpos
  have hshard := c.shard_length_le hi
  have hshardLen := c.shardLen_le
  have hsize := h.size
  have hlen : (c.packetAt i).length = 6 + (c.shard i).length := packet_length ..
  have hfits : ¬((c.packetAt i).length < fecHeaderSize ∨
      dec.maxPacketSize < (c.packetAt i).length) := by
    rw [hlen, fecHeaderSize]
    omega
  have hsequence : leNat ((c.packetAt i).take 4) = i + (d + p) * c.setId := by
    rw [CodedSet.packetAt, numbered, packet_sequence (Nat.lt_of_lt_of_le hlt
      (hlimit.trans (by decide))), hseq]
  have htype : leNat (slice (c.packetAt i) 4 6) = if i < d then fecTypeData else fecTypeParity :=
    packet_type _ (by split <;> decide) _
  have hbound : ¬dec.sequenceLimit ≤ i + (d + p) * c.setId := by
    rw [h.sequenceLimit, ← hseq]
    omega
  have hindex : (i + (d + p) * c.setId) % dec.totalShards = i := by
    rw [h.totalShards, Nat.add_mul_mod_self_left, Nat.mod_eq_of_lt hi]
  have hid : (i + (d + p) * c.setId) / dec.totalShards = c.setId := by
    rw [h.totalShards, Nat.add_mul_div_left _ _ (by omega), Nat.div_eq_of_lt hi, zero_add]
  have hdirect : FecDecoder.directPayload (c.packetAt i)
      (if i < d then fecTypeData else fecTypeParity) = .ok (c.direct i) := by
    unfold CodedSet.direct
    by_cases hdata : i < d
    · have hm := hv.size
      have hpayload := c.size _ (c.payload_mem hdata)
      rw [if_pos hdata, if_pos hdata, CodedSet.packetAt, if_pos hdata, c.shard_data hdata]
      exact directPayload_data _ (by omega)
    rw [if_neg hdata, if_neg hdata]
    rfl
  have hdrop : (c.packetAt i).drop fecHeaderSize = c.shard i := packet_drop ..
  unfold FecDecoder.decode
  rw [if_neg hfits]
  dsimp only
  rw [hsequence, if_neg hbound, htype, hindex, hid, checkPosition_ok h.dataShards, hdirect, hdrop]

/-! ### What the decoder holds -/

structure Opened (c : CodedSet codec d p m) (dec : FecDecoder) (seen : List Nat) : Prop where
  config : Config codec d p m dec
  completed : dec.completed = []
  order : dec.completedOrder = []
  entry : ∃ arrival, (dec.entry c.setId).1 =
    ⟨filled c.shard (d + p) seen, seen.length, c.longestOf seen, arrival⟩
  nodup : seen.Nodup
  lt : ∀ i ∈ seen, i < d + p
  few : seen.length < d

structure Finished (c : CodedSet codec d p m) (dec : FecDecoder) : Prop where
  config : Config codec d p m dec
  completed : dec.completed.contains c.setId = true

theorem Config.withSets {dec} (h : Config codec d p m dec) (arrival sets) :
    Config codec d p m { dec with arrival := arrival, sets := sets } :=
  { h with }

theorem entry_of_get {dec : FecDecoder} {setId set}
    (h : dec.sets.get setId = some set) : (dec.entry setId).1 = set := by
  unfold FecDecoder.entry
  rw [h]

theorem markCompleted_contains {dec : FecDecoder} (setId) (hcompleted : dec.completed = [])
    (horder : dec.completedOrder = []) (hsets : 0 < dec.maxShardSets) :
    (dec.markCompleted setId).completed.contains setId = true := by
  have hextra : 1 - dec.maxShardSets * 2 = 0 := by omega
  simp [FecDecoder.markCompleted, hcompleted, horder, hextra]

theorem join_filled (piece : Nat → List UInt8) {n i} (hi : i < n) (seen : List Nat) :
    ((filled piece n seen)[i]?).join = if i ∈ seen then some (piece i) else none := by
  rw [filled_get piece hi]
  rfl

section
variable {c : CodedSet codec d p m} {dec : FecDecoder} {seen : List Nat} {i : Nat}

theorem Finished.decode (hv : Valid d p m) (h : Finished c dec) (hi : i < d + p) :
    dec.decode (c.packetAt i) = (.ok (c.direct i), dec) := by
  rw [decode_packetAt hv h.config c hi, if_pos h.completed]

theorem Opened.decode_again (hv : Valid d p m) (h : Opened c dec seen) (hi : i < d + p)
    (hseen : i ∈ seen) : ∃ dec', dec.decode (c.packetAt i) = (.ok [], dec') ∧ Opened c dec' seen :=
    by
  obtain ⟨arrival, hentry⟩ := h.entry
  obtain ⟨_, _, hkeeps, hget, -⟩ := entry_keeps dec c.setId
  have hthere : (((dec.entry c.setId).1.shards[i]?).join).isSome = true := by
    rw [hentry, join_filled _ hi, if_pos hseen]
    rfl
  refine ⟨(dec.entry c.setId).2, ?_, ?_⟩
  · rw [decode_packetAt hv h.config c hi, h.completed]
    show dec.insertShard c.setId i (c.shard i) (c.direct i) = _
    unfold FecDecoder.insertShard
    dsimp only
    rw [if_pos hthere]
  rw [hkeeps]
  refine ⟨h.config.withSets _ _, h.completed, h.order, ⟨arrival, ?_⟩, h.nodup, h.lt, h.few⟩
  rw [entry_of_get hget, hentry]

theorem Opened.decode_new (hv : Valid d p m) (h : Opened c dec seen) (hi : i < d + p)
    (hnew : i ∉ seen) : ∃ arrived sets arrival, dec.decode (c.packetAt i) =
      if seen.length + 1 < dec.dataShards then
        (.ok (c.direct i), { dec with
          arrival := arrived
          sets := sets.insert c.setId ⟨filled c.shard (d + p) (i :: seen), (i :: seen).length,
            c.longestOf (i :: seen), arrival⟩ })
      else
        FecDecoder.finishSet { dec with arrival := arrived, sets := sets } c.setId
          ⟨filled c.shard (d + p) (i :: seen), (i :: seen).length, c.longestOf (i :: seen), arrival⟩
          (c.direct i) := by
  obtain ⟨arrival, hentry⟩ := h.entry
  obtain ⟨arrived, sets, hkeeps, -⟩ := entry_keeps dec c.setId
  have hopen : ¬dec.completed.contains c.setId = true := by
    rw [h.completed]
    simp
  have hnone : ¬(((filled c.shard (d + p) seen)[i]?).join).isSome = true := by
    rw [join_filled _ hi, if_neg hnew]
    simp
  refine ⟨arrived, sets, arrival, ?_⟩
  rw [decode_packetAt hv h.config c hi, if_neg hopen]
  unfold FecDecoder.insertShard
  rw [show dec.entry c.setId = ((dec.entry c.setId).1, (dec.entry c.setId).2) from rfl, hentry,
    hkeeps]
  dsimp only
  rw [if_neg hnone, if_neg (c.shard_ne_nil hv.data hi), filled_set]
  rfl

theorem Opened.decode_more (hv : Valid d p m) (h : Opened c dec seen) (hi : i < d + p)
    (hnew : i ∉ seen) (hfew : seen.length + 1 < d) :
    ∃ dec', dec.decode (c.packetAt i) = (.ok (c.direct i), dec') ∧ Opened c dec' (i :: seen) := by
  obtain ⟨_, _, arrival, hdecode⟩ := h.decode_new hv hi hnew
  rw [if_pos (by rw [h.config.dataShards]; exact hfew)] at hdecode
  refine ⟨_, hdecode, h.config.withSets _ _, h.completed, h.order, ⟨arrival, ?_⟩,
    nodup_cons.mpr ⟨hnew, h.nodup⟩, forall_mem_cons.mpr ⟨hi, h.lt⟩, hfew⟩
  exact entry_of_get (Map.get_insert_self ..)

theorem missing_eq (c : CodedSet codec d p m) (seen) {n} (hn : n = d) :
    ((range n).filter fun j => (((filled c.shard (d + p) seen)[j]?).join).isNone) =
      (range d).filter fun j => decide (j ∉ seen) := by
  rw [hn]
  apply filter_congr
  intro j hj
  have hj' : j < d := mem_range.mp hj
  rw [join_filled _ (by omega)]
  by_cases hmem : j ∈ seen
  · rw [if_pos hmem, decide_eq_false (not_not_intro hmem)]
    rfl
  rw [if_neg hmem, decide_eq_true hmem]
  rfl

/-- A set that has as many packets as there are data packets gives the payloads of the others. -/
theorem finishSet_eq (hv : Valid d p m) (h : Config codec d p m dec) (hn : seen.Nodup)
    (hlt : ∀ j ∈ seen, j < d + p) (hlen : seen.length = d) (arrival result) : dec.finishSet c.setId
        ⟨filled c.shard (d + p) seen, seen.length, c.longestOf seen, arrival⟩ result =
      (.ok (result ++ c.missing seen),
        FecDecoder.markCompleted { dec with sets := dec.sets.remove c.setId } c.setId) := by
  unfold FecDecoder.finishSet CodedSet.missing
  dsimp only
  rw [missing_eq c seen h.dataShards]
  by_cases hall : ((range d).filter fun j => decide (j ∉ seen)) = []
  · rw [if_pos hall, hall, map_nil, append_nil]
  have hout : ∀ j ∈ (range d).filter (fun j => decide (j ∉ seen)), j < d ∧ j ∉ seen := by
    intro j hj
    obtain ⟨hj, hout⟩ := mem_filter.mp hj
    exact ⟨mem_range.mp hj, of_decide_eq_true hout⟩
  rw [if_neg hall, @recover_eq codec d p m c hv.size { dec with sets := dec.sets.remove c.setId }
    h.codec seen _ arrival hn hlt hlen hout hall]

theorem Opened.decode_last (hv : Valid d p m) (h : Opened c dec seen) (hi : i < d + p)
    (hnew : i ∉ seen) (hlast : seen.length + 1 = d) : ∃ dec', dec.decode (c.packetAt i) =
        (.ok (c.direct i ++ c.missing (i :: seen)), dec') ∧ Finished c dec' := by
  obtain ⟨arrived, sets, _, hdecode⟩ := h.decode_new hv hi hnew
  have hconfig := h.config.withSets arrived sets
  rw [if_neg (by rw [h.config.dataShards]; omega), finishSet_eq hv hconfig
    (nodup_cons.mpr ⟨hnew, h.nodup⟩) (forall_mem_cons.mpr ⟨hi, h.lt⟩) hlast] at hdecode
  have hleft := h.config.withSets arrived (sets.remove c.setId)
  exact ⟨_, hdecode, { hleft with }, markCompleted_contains _ h.completed h.order hleft.sets⟩

theorem direct_subset {i} : ∀ x ∈ c.direct i, x ∈ c.payloads := by
  intro x hx
  unfold CodedSet.direct at hx
  split at hx
  · next hi =>
    rw [mem_singleton.mp hx]
    exact c.payload_mem hi
  · cases hx

theorem missing_subset : ∀ x ∈ c.missing seen, x ∈ c.payloads := by
  intro x hx
  obtain ⟨j, hj, rfl⟩ := mem_map.mp hx
  exact c.payload_mem (mem_range.mp (mem_of_mem_filter hj))

theorem mem_direct (hi : i < d) : c.payload i ∈ c.direct i := by
  rw [CodedSet.direct, if_pos hi]
  exact mem_singleton_self _

theorem mem_missing (hi : i < d) (hnot : i ∉ seen) : c.payload i ∈ c.missing seen :=
  mem_map_of_mem (mem_filter.mpr ⟨mem_range.mpr hi, decide_eq_true hnot⟩)

theorem Finished.run (hv : Valid d p m) (h : Finished c dec) :
    ∀ {indices : List Nat}, (∀ i ∈ indices, i < d + p) →
      dec.decodeAll (indices.map c.packetAt) = (indices.map c.direct).map .ok
  | [], _ => rfl
  | i :: indices, hlt => by
    obtain ⟨hi, hlt⟩ := forall_mem_cons.mp hlt
    rw [map_cons, FecDecoder.decodeAll, h.decode hv hi, Finished.run hv h hlt]
    rfl

/-- **A set is recovered from enough of its packets**, in whatever order and however often they come:
what is given out are payloads of the set, and once enough have come, all of them. -/
theorem Opened.run (hv : Valid d p m) {indices : List Nat} (hlt : ∀ i ∈ indices, i < d + p)
    (h : Opened c dec seen) :
    ∃ outs : List (List (List UInt8)), dec.decodeAll (indices.map c.packetAt) = outs.map .ok ∧
      (∀ x ∈ outs.flatten, x ∈ c.payloads) ∧
      ((∃ distinct : List Nat, distinct.Nodup ∧ (∀ j ∈ distinct, j ∈ seen ∨ j ∈ indices) ∧
        d ≤ distinct.length) → ∀ j < d, j ∉ seen → c.payload j ∈ outs.flatten) := by
  induction indices generalizing dec seen with
  | nil =>
    refine ⟨[], rfl, by simp, ?_⟩
    rintro ⟨distinct, hn, hsub, hlen⟩
    -- what has come is too little for the set to be complete
    have hle := (subperm_of_subset hn fun j hj =>
      (hsub j hj).resolve_right (not_mem_nil)).length_le
    have hfew := h.few
    omega
  | cons i indices ih =>
    obtain ⟨hi, hlt'⟩ := forall_mem_cons.mp hlt
    by_cases hseen : i ∈ seen
    · obtain ⟨dec', hdecode, hopen⟩ := h.decode_again hv hi hseen
      obtain ⟨outs, hrun, hsub, hall⟩ := ih hlt' hopen
      refine ⟨[] :: outs, ?_, by simpa using hsub, ?_⟩
      · rw [map_cons, FecDecoder.decodeAll, hdecode, hrun]
        rfl
      rintro ⟨distinct, hn, hcome, hlen⟩ j hj hnot
      refine hall ⟨distinct, hn, fun x hx => ?_, hlen⟩ j hj hnot
      rcases hcome x hx with hx | hx
      · exact .inl hx
      · exact (mem_cons.mp hx).elim (fun heq => .inl (heq ▸ hseen)) .inr
    have hlen := h.few
    by_cases hlast : seen.length + 1 = d
    · obtain ⟨dec', hdecode, hfinished⟩ := h.decode_last hv hi hseen hlast
      refine ⟨(c.direct i ++ c.missing (i :: seen)) :: indices.map c.direct, ?_, ?_, ?_⟩
      · rw [map_cons, FecDecoder.decodeAll, hdecode, hfinished.run hv hlt']
        rfl
      · intro x hx
        rw [flatten_cons, mem_append, mem_append] at hx
        rcases hx with (hx | hx) | hx
        · exact direct_subset x hx
        · exact missing_subset x hx
        obtain ⟨_, hout, hx⟩ := mem_flatten.mp hx
        obtain ⟨j, -, rfl⟩ := mem_map.mp hout
        exact direct_subset x hx
      intro _ j hj hnot
      rw [flatten_cons, mem_append, mem_append]
      refine .inl ?_
      by_cases hji : j = i
      · exact .inl (hji ▸ mem_direct hj)
      · exact .inr (mem_missing hj fun hmem => (mem_cons.mp hmem).elim hji hnot)
    obtain ⟨_, hdecode, hopen⟩ := h.decode_more hv hi hseen (by omega)
    obtain ⟨outs, hrun, hsub, hall⟩ := ih hlt' hopen
    refine ⟨c.direct i :: outs, ?_, ?_, ?_⟩
    · rw [map_cons, FecDecoder.decodeAll, hdecode, hrun]
      rfl
    · rw [flatten_cons]
      exact forall_mem_append.mpr ⟨direct_subset, hsub⟩
    rintro ⟨distinct, hn, hcome, hlen'⟩ j hj hnot
    rw [flatten_cons, mem_append]
    by_cases hji : j = i
    · exact .inl (hji ▸ mem_direct hj)
    refine .inr (hall ⟨distinct, hn, fun x hx => ?_, hlen'⟩ j hj ?_)
    · rcases hcome x hx with hx | hx
      · exact .inl (mem_cons_of_mem i hx)
      · exact (mem_cons.mp hx).elim (fun heq => .inl (heq ▸ mem_cons_self)) .inr
    · exact fun hmem => (mem_cons.mp hmem).elim hji hnot

end

theorem validate_ok {maxPayload} (h : validateParameters d p maxPayload = .ok ()) :
    Valid d p maxPayload := by
  unfold validateParameters at h
  split at h
  · cases h
  split at h
  · cases h
  · constructor <;> omega

variable {reedSolomon : Nat → Nat → Except String Codec}

theorem encoder_new {enc} (h : FecEncoder.new reedSolomon d p m = .ok enc) :
    Valid d p m ∧ ∃ codec, reedSolomon d p = .ok codec ∧ enc = encoderAt codec d p m 0 [] := by
  obtain ⟨u, hvalid, h⟩ := exists_of_bind_ok h
  obtain ⟨codec, hlib, h⟩ := exists_of_bind_ok h
  cases h
  refine ⟨validate_ok hvalid, codec, ok_of_mapError hlib, ?_⟩
  rw [encoderAt, Nat.zero_mod]

theorem feed_set (hv : Valid d p m) (hcodec : codec.Correct d p) (fed) {k}
    (hset : (k + 1) * d ≤ (accepted m fed).length) : ∃ c : CodedSet codec d p m,
      ((accepted m fed).drop (k * d)).take d = c.payloads ∧
      (((encoderAt codec d p m 0 []).feed fed).drop (k * (d + p))).take (d + p) = c.packets := by
  obtain ⟨sets, rest, hpayloads, _, hsent⟩ :=
    feed_sets hv hcodec fed 0 [] hv.data (by simp)
  simp only [nil_append, tailPackets, mapIdx_nil, map_nil, length_nil,
    zero_mul, zero_add] at hpayloads hsent
  have hgroups : ∀ g ∈ sets.map CodedSet.payloads, g.length = d :=
    forall_mem_map.mpr fun c _ => c.count
  have hblocks : ∀ b ∈ sets.map CodedSet.packets, b.length = d + p := by simp [CodedSet.packets]
  have hcounts : (sets.map CodedSet.payloads).map length = replicate sets.length d := by
    simp [eq_replicate_iff, CodedSet.count]
  have hk : k < sets.length := by
    rw [hpayloads, length_append, length_flatten, hcounts, sum_replicate, smul_eq_mul] at hset
    by_contra hnot
    have hle : (sets.length + 1) * d ≤ (k + 1) * d := Nat.mul_le_mul_right d (by omega)
    rw [Nat.succ_mul] at hle
    omega
  have hget : sets[k]? = some sets[k] := getElem?_eq_getElem hk
  refine ⟨sets[k], ?_, ?_⟩
  · rw [hpayloads]
    exact take_drop_flatten hgroups (by rw [getElem?_map, hget]; rfl) rest
  rw [hsent]
  exact take_drop_flatten hblocks (by rw [getElem?_map, hget]; rfl) _

theorem exists_indices (c : CodedSet codec d p m) {delivered}
    (h : ∀ packet ∈ delivered, packet ∈ c.packets) :
    ∃ indices : List Nat, (∀ i ∈ indices, i < d + p) ∧ indices.map c.packetAt = delivered := by
  induction delivered with
  | nil => exact ⟨[], by simp, rfl⟩
  | cons packet delivered ih =>
    obtain ⟨indices, hlt, hmap⟩ := ih (forall_mem_cons.mp h).2
    obtain ⟨i, hi, hp⟩ := mem_map.mp (h packet mem_cons_self)
    exact ⟨i :: indices, forall_mem_cons.mpr ⟨mem_range.mp hi, hlt⟩, by rw [map_cons, hp, hmap]⟩

theorem opened_new (c : CodedSet codec d p m) (hv : Valid d p m) {maxPacketSize maxShardSets}
    (hsize : m + 8 ≤ maxPacketSize) (hsets : 0 < maxShardSets) :
    Opened c ⟨codec, d, d + p, sequenceLimit (d + p), maxPacketSize, maxShardSets, 0, .empty, [], []⟩
      [] := by
  have hroom : (Map.empty : Map Nat ShardSet).size < maxShardSets := hsets
  refine ⟨⟨rfl, rfl, rfl, rfl, hsize, hsets⟩, rfl, rfl, ⟨1, ?_⟩, nodup_nil, by simp, hv.data⟩
  simp [FecDecoder.entry, FecDecoder.evictOldestIfFull, hroom, filled_nil, CodedSet.longestOf]

end

/-- **Lost packets are recovered.** Of the packets that an encoder sends for a shard set, at least
`data_shards` different ones are given to a fresh decoder, in any order and with repetitions. It
accepts all of them, and what it gives out are exactly the payloads of the set. -/
theorem fec_recovers {reedSolomon : Nat → Nat → Except String Codec}
    (hlibrary : ∀ d p codec, reedSolomon d p = .ok codec → codec.Correct d p)
    {d p maxKcpPacket maxPacketSize maxShardSets : Nat} {enc : FecEncoder} {dec : FecDecoder}
    (henc : FecEncoder.new reedSolomon d p maxKcpPacket = .ok enc)
    (hdec : FecDecoder.withMaxShardSets reedSolomon d p maxPacketSize maxShardSets = .ok dec)
    (hsize : maxKcpPacket + 8 ≤ maxPacketSize) (fed : List (List UInt8)) (k : Nat)
    (hset : (k + 1) * d ≤ (accepted maxKcpPacket fed).length) (delivered : List (List UInt8))
    (hpackets : ∀ packet ∈ delivered, packet ∈ ((enc.feed fed).drop (k * (d + p))).take (d + p))
    (henough : d ≤ delivered.dedup.length) :
    ∃ outs : List (List (List UInt8)), dec.decodeAll delivered = outs.map .ok ∧
      ∀ payload, payload ∈ outs.flatten ↔
        payload ∈ ((accepted maxKcpPacket fed).drop (k * d)).take d := by
  obtain ⟨hv, codec, hlib, rfl⟩ := encoder_new henc
  obtain ⟨_, hlib', -, hsets, rfl⟩ := decoder_new hdec
  cases hlib.symm.trans hlib'
  obtain ⟨c, hpayloads, hsent⟩ := feed_set hv (hlibrary d p codec hlib) fed hset
  rw [hsent] at hpackets
  rw [hpayloads]
  obtain ⟨indices, hlt, rfl⟩ := exists_indices c hpackets
  obtain ⟨outs, hrun, hsub, hall⟩ := (opened_new c hv hsize hsets).run hv hlt
  refine ⟨outs, hrun, fun payload => ⟨hsub payload, ?_⟩⟩
  intro hmem
  obtain ⟨j, hget⟩ := mem_iff_getElem?.mp hmem
  have hjd : j < d := by
    rw [← c.count]
    exact (List.getElem?_eq_some_iff.mp hget).1
  cases (c.payloads_get hjd).symm.trans hget
  -- different packets have different positions
  have hsubset : (indices.map c.packetAt).dedup ⊆ indices.dedup.map c.packetAt := by
    intro packet hp
    obtain ⟨i, hi, rfl⟩ := mem_map.mp (mem_dedup.mp hp)
    exact mem_map_of_mem (mem_dedup.mpr hi)
  have hle := (subperm_of_subset (nodup_dedup _) hsubset).length_le
  rw [length_map] at hle
  exact hall ⟨indices.dedup, nodup_dedup _, fun i hi => .inr (mem_dedup.mp hi),
    henough.trans hle⟩ j hjd not_mem_nil

/-! ## The code for two data shards and one parity shard -/

def xorShards (a b : List UInt8) : List UInt8 := zipWith (· ^^^ ·) a b

def xorCodec : Codec where
  encode
    | [a, b, _] => .ok [a, b, xorShards a b]
    | _ => .error "invalid shard count"
  reconstructData
    | [some a, some b, x] => .ok [some a, some b, x]
    | [none, some b, some x] => .ok [some (xorShards x b), some b, some x]
    | [some a, none, some x] => .ok [some a, some (xorShards a x), some x]
    | _ => .error "too few shards present"

def xorLibrary (d p : Nat) : Except String Codec :=
  if d = 2 ∧ p = 1 then .ok xorCodec else .error "unsupported"

theorem xorShards_length {a b} (h : a.length = b.length) : (xorShards a b).length = a.length := by
  rw [xorShards, length_zipWith, h, Nat.min_self]

theorem xorShards_right {a b} (h : a.length = b.length) : xorShards (xorShards a b) b = a := by
  induction a generalizing b with
  | nil => rfl
  | cons x a ih =>
    rcases b with _ | ⟨y, b⟩
    · cases h
    have hrest := ih (Nat.succ.inj h)
    show ((x ^^^ y) ^^^ y) :: xorShards (xorShards a b) b = x :: a
    rw [hrest, UInt8.xor_assoc, UInt8.xor_self, UInt8.xor_zero]

theorem xorShards_left {a b} (h : a.length = b.length) : xorShards a (xorShards a b) = b := by
  have hcomm (a b : List UInt8) : xorShards a b = xorShards b a :=
    zipWith_comm_of_comm UInt8.xor_comm
  rw [hcomm a, hcomm a]
  exact xorShards_right h.symm

theorem xorCodec_correct : xorCodec.Correct 2 1 := by
  constructor
  intro data n _ hcount hlen
  obtain ⟨a, b, rfl⟩ := length_eq_two.mp hcount
  have hab : a.length = b.length := (hlen a (by simp)).trans (hlen b (by simp)).symm
  refine ⟨[xorShards a b], rfl, ?_, rfl, ?_⟩
  · intro shard hs
    rw [mem_singleton.mp hs, xorShards_length hab]
    exact hlen a (by simp)
  intro shards hshards hgiven hpresent
  obtain ⟨x, y, z, rfl⟩ := length_eq_three.mp hshards
  have htwo : ∀ (table : List (Option (List UInt8))), table = [some a, some b, z] ∨
      table = [some a, some b, some (xorShards a b)] →
      ∀ i < 2, table[i]? = some ([a, b][i]?) := by
    intro table htable i hi
    rcases htable with rfl | rfl <;> match i, hi with
      | 0, _ => rfl
      | 1, _ => rfl
  rcases x with _ | x
  · rcases y with _ | y
    · cases z <;> simp at hpresent
    rcases z with _ | z
    · simp at hpresent
    cases (hgiven 1 y rfl : some b = some y)
    cases (hgiven 2 z rfl : some (xorShards a b) = some z)
    exact ⟨_, rfl, htwo _ (.inr (by rw [xorShards_right hab]))⟩
  cases (hgiven 0 x rfl : some a = some x)
  rcases y with _ | y
  · rcases z with _ | z
    · simp at hpresent
    cases (hgiven 2 z rfl : some (xorShards a b) = some z)
    exact ⟨_, rfl, htwo _ (.inr (by rw [xorShards_left hab]))⟩
  cases (hgiven 1 y rfl : some b = some y)
  exact ⟨_, rfl, htwo _ (.inl rfl)⟩

def sentPackets : List (List UInt8) :=
  (encoderAt xorCodec 2 1 64 0 []).feed [[1, 2, 3], [], [4], [5]]

/-- The second data packet of a set is lost, and the others come in reverse, one of them twice. -/
theorem fec_recovers_one_lost :
    ∃ (enc : FecEncoder) (dec : FecDecoder) (outs : List (List (List UInt8))),
      FecEncoder.new xorLibrary 2 1 64 = .ok enc ∧
      enc.feed [[1, 2, 3], [], [4], [5]] = sentPackets ∧
      FecDecoder.withMaxShardSets xorLibrary 2 1 72 3 = .ok dec ∧
      dec.decodeAll [sentPackets.getD 2 [], sentPackets.getD 2 [], sentPackets.getD 0 []] =
        outs.map .ok ∧
      ∀ payload, payload ∈ outs.flatten ↔ payload ∈ [[1, 2, 3], [4]] := by
  have hlibrary : ∀ d p codec, xorLibrary d p = .ok codec → codec.Correct d p := by
    intro d p codec h
    unfold xorLibrary at h
    split at h
    · next hdp =>
      cases h
      rw [hdp.1, hdp.2]
      exact xorCodec_correct
    · cases h
  have henc : FecEncoder.new xorLibrary 2 1 64 = .ok (encoderAt xorCodec 2 1 64 0 []) := rfl
  obtain ⟨dec, hdec⟩ : ∃ dec, FecDecoder.withMaxShardSets xorLibrary 2 1 72 3 = .ok dec := ⟨_, rfl⟩
  obtain ⟨outs, hrun, hall⟩ := fec_recovers hlibrary henc hdec (by decide)
    [[1, 2, 3], [], [4], [5]] 0 (by decide)
    [sentPackets.getD 2 [], sentPackets.getD 2 [], sentPackets.getD 0 []] (by decide +kernel)
    (by decide +kernel)
  exact ⟨_, dec, outs, henc, rfl, hdec, hrun, hall⟩

end Shoes.Kcptun.FecRecovery
