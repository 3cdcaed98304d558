import Shoes.Lib.Assoc
import Shoes.Lib.Io
import Shoes.Lib.Slots

/-! # Forward error correction

After `data_shards` numbered data packets the encoder adds `parity_shards` parity packets computed
from them, padded to the longest. The decoder passes data packets on as they come and, once it has as
many packets of a set, recovers those that are missing. The Reed-Solomon code is a parameter. -/
namespace Shoes.Kcptun.Fec
open Lib.Assoc Lib.Bytes Lib.Io Lib.Slots

def fecHeaderSize : Nat := 6
def fecDataHeaderSize : Nat := 8
def fecTypeData : Nat := 0xf1
def fecTypeParity : Nat := 0xf2
def fecTypeOob : Nat := 0xf3
def u32Max : Nat := 4294967295

def invalid (message : String) : IoError := ⟨.invalidInput, message⟩

def invalidData (message : String) : IoError := ⟨.invalidData, message⟩

/-- `reed_solomon_erasure::galois_8::ReedSolomon`. -/
structure Codec where
  encode : List (List UInt8) → Except String (List (List UInt8))
  reconstructData : List (Option (List UInt8)) → Except String (List (Option (List UInt8)))

def validateParameters (dataShards parityShards maxPayload : Nat) : Except IoError Unit :=
  if dataShards = 0 ∨ parityShards = 0 ∨ 256 < dataShards + parityShards then
    .error (invalid "Kcptun FEC needs positive shard counts and at most 256 total shards")
  else if maxPayload = 0 ∨ 65535 - 2 < maxPayload then
    .error (invalid "Kcptun FEC packet limit is invalid")
  else .ok ()

/-- `Vec::resize` with zeros. -/
def resize (shard : List UInt8) (n : Nat) : List UInt8 :=
  shard.take n ++ List.replicate (n - shard.length) 0

/-- The first sequence that is not used: a multiple of the number of shards. -/
def sequenceLimit (totalShards : Nat) : Nat := u32Max / totalShards * totalShards

/-! ## The encoder -/

structure FecEncoder where
  codec : Codec
  dataShards : Nat
  parityShards : Nat
  totalShards : Nat
  maxKcpPacket : Nat
  nextSequence : Nat
  sequenceLimit : Nat
  pending : List (List UInt8)

def dataShard (kcpPacket : List UInt8) : List UInt8 := leBytes 2 (kcpPacket.length + 2) ++ kcpPacket

def packet (sequence packetType : Nat) (shard : List UInt8) : List UInt8 :=
  leBytes 4 sequence ++ leBytes 2 packetType ++ shard

namespace FecEncoder

def new (reedSolomon : Nat → Nat → Except String Codec)
    (dataShards parityShards maxKcpPacket : Nat) : Except IoError FecEncoder := do
  validateParameters dataShards parityShards maxKcpPacket
  let codec ← (reedSolomon dataShards parityShards).mapError fun error =>
    invalid ("invalid Kcptun FEC settings: " ++ error)
  let totalShards := dataShards + parityShards
  .ok ⟨codec, dataShards, parityShards, totalShards, maxKcpPacket, 0,
    Fec.sequenceLimit totalShards, []⟩

/-- `take_sequence`, without the sequence that it returns. -/
def takeSequence (e : FecEncoder) : FecEncoder :=
  let next := (e.nextSequence + 1) % (u32Max + 1)
  { e with nextSequence := if e.sequenceLimit ≤ next then 0 else next }

/-- The loop over the parity shards. -/
def parityPackets : FecEncoder → List (List UInt8) → List (List UInt8) × FecEncoder
  | e, [] => ([], e)
  | e, parity :: rest =>
    let more := parityPackets e.takeSequence rest
    (packet e.nextSequence fecTypeParity parity :: more.1, more.2)

/-- The end of a shard set: parity packets behind the data packet. -/
def finishSet (e : FecEncoder) (dataPacket : List UInt8) :
    Except IoError (List (List UInt8)) × FecEncoder :=
  match (e.pending.map List.length).max? with
  | none => (.error (invalidData "Kcptun FEC shard set is unexpectedly empty"), e)
  | some shardLen =>
    let shards := e.pending.map (resize · shardLen) ++
      List.replicate e.parityShards (List.replicate shardLen 0)
    let e := { e with pending := [] }
    match e.codec.encode shards with
    | .error error => (.error (invalidData ("Kcptun FEC encoding failed: " ++ error)), e)
    | .ok shards =>
      let parity := parityPackets e (shards.drop e.dataShards)
      (.ok (dataPacket :: parity.1), parity.2)

def encode (e : FecEncoder) (kcpPacket : List UInt8) :
    Except IoError (List (List UInt8)) × FecEncoder :=
  if kcpPacket = [] ∨ e.maxKcpPacket < kcpPacket.length then
    (.error (invalidData ("Kcptun KCP packet length " ++ toString kcpPacket.length ++
      " is outside 1..=" ++ toString e.maxKcpPacket)), e)
  else if 65535 < kcpPacket.length + 2 then
    (.error (invalidData "Kcptun FEC data shard is too large"), e)
  else
    let dataPacket := packet e.nextSequence fecTypeData (dataShard kcpPacket)
    let e := e.takeSequence
    let e := { e with pending := e.pending ++ [dataPacket.drop fecHeaderSize] }
    if e.pending.length ≠ e.dataShards then (.ok [dataPacket], e) else finishSet e dataPacket

/-- The packets that are sent for payloads. One that is refused sends nothing. -/
def feed (e : FecEncoder) : List (List UInt8) → List (List UInt8)
  | [] => []
  | kcpPacket :: rest =>
    match e.encode kcpPacket with
    | (.ok packets, e) => packets ++ feed e rest
    | (.error _, e) => feed e rest

end FecEncoder

/-- The payloads that an encoder takes. -/
def accepted (maxKcpPacket : Nat) (fed : List (List UInt8)) : List (List UInt8) :=
  fed.filter fun kcpPacket => decide (kcpPacket ≠ [] ∧ kcpPacket.length ≤ maxKcpPacket)

/-! ## The decoder -/

structure ShardSet where
  shards : List (Option (List UInt8))
  present : Nat
  maxLen : Nat
  arrival : UInt64

structure FecDecoder where
  codec : Codec
  dataShards : Nat
  totalShards : Nat
  sequenceLimit : Nat
  maxPacketSize : Nat
  maxShardSets : Nat
  arrival : UInt64
  sets : Map Nat ShardSet
  completed : List Nat
  completedOrder : List Nat

namespace FecDecoder

def withMaxShardSets (reedSolomon : Nat → Nat → Except String Codec)
    (dataShards parityShards maxPacketSize maxShardSets : Nat) : Except IoError FecDecoder := do
  validateParameters dataShards parityShards (maxPacketSize - fecDataHeaderSize)
  if maxShardSets = 0 ∨ 64 < maxShardSets then
    .error (invalid "Kcptun FEC shard-set limit must be in 1..=64")
  else
    let codec ← (reedSolomon dataShards parityShards).mapError fun error =>
      invalid ("invalid Kcptun FEC settings: " ++ error)
    let totalShards := dataShards + parityShards
    .ok ⟨codec, dataShards, totalShards, Fec.sequenceLimit totalShards, maxPacketSize,
      maxShardSets, 0, .empty, [], []⟩

section
variable (d : FecDecoder)

/-- The packet type must go with the position of the shard. -/
def checkPosition (packetType shardIndex : Nat) : Except IoError Unit :=
  if packetType = fecTypeData ∧ shardIndex < d.dataShards then .ok ()
  else if packetType = fecTypeParity ∧ d.dataShards ≤ shardIndex then .ok ()
  else if packetType = fecTypeOob then
    .error (invalidData "Kcptun out-of-band FEC packets are not valid session traffic")
  else if packetType = fecTypeData ∨ packetType = fecTypeParity then
    .error (invalidData "Kcptun FEC packet type does not match its shard position")
  else .error (invalidData "unknown Kcptun FEC packet type")

/-- A data packet is passed on at once. -/
def directPayload (packet : List UInt8) (packetType : Nat) : Except IoError (List (List UInt8)) :=
  if packetType = fecTypeData then
    if packet.length < fecDataHeaderSize then
      .error (invalidData "truncated Kcptun FEC data packet")
    else
      let declared := leNat (slice packet 6 8)
      if declared < 2 ∨ declared ≠ packet.length - fecHeaderSize then
        .error (invalidData "invalid Kcptun FEC data length")
      else .ok [packet.drop fecDataHeaderSize]
  else .ok []

/-- The set that arrived first. -/
def oldest : List (Nat × ShardSet) → Option (Nat × ShardSet)
  | [] => none
  | e :: rest =>
    match oldest rest with
    | none => some e
    | some e' => if e.2.arrival ≤ e'.2.arrival then some e else some e'

def evictOldestIfFull : FecDecoder :=
  if d.sets.size < d.maxShardSets then d
  else
    match oldest d.sets.entries with
    | none => d
    | some e => { d with sets := d.sets.remove e.1 }

def entry (setId : Nat) : ShardSet × FecDecoder :=
  match d.sets.get setId with
  | some set => (set, d)
  | none =>
    let d := d.evictOldestIfFull
    let set : ShardSet := ⟨List.replicate d.totalShards none, 0, 0, d.arrival + 1⟩
    (set, { d with arrival := d.arrival + 1, sets := d.sets.insert setId set })

def markCompleted (setId : Nat) : FecDecoder :=
  let order := if d.completed.contains setId then d.completedOrder else d.completedOrder ++ [setId]
  let completed := if d.completed.contains setId then d.completed else setId :: d.completed
  let extra := order.length - d.maxShardSets * 2
  { d with
    completedOrder := order.drop extra
    completed := completed.filter fun id => !(order.take extra).contains id }

def recoverOne (shards : List (Option (List UInt8))) (index : Nat) : Except IoError (List UInt8) :=
  match shards[index]? with
  | some (some recovered) =>
    if recovered.length < 2 then
      .error (invalidData "recovered Kcptun FEC shard is truncated")
    else
      let declared := leNat (recovered.take 2)
      if declared < 2 ∨ recovered.length < declared then
        .error (invalidData "recovered Kcptun FEC shard has an invalid length")
      else .ok (slice recovered 2 declared)
  | _ => .error (invalidData "Kcptun FEC did not recover a data shard")

def recover (set : ShardSet) (missing : List Nat) : Except IoError (List (List UInt8)) := do
  let shards ← (d.codec.reconstructData (set.shards.map (·.map (resize · set.maxLen)))).mapError
    fun error => invalidData ("Kcptun FEC recovery failed: " ++ error)
  missing.mapM (recoverOne shards)

def finishSet (setId : Nat) (set : ShardSet) (result : List (List UInt8)) :
    Except IoError (List (List UInt8)) × FecDecoder :=
  let d := { d with sets := d.sets.remove setId }
  let missing := (List.range d.dataShards).filter fun index => (set.shards[index]?).join.isNone
  if missing = [] then (.ok result, d.markCompleted setId)
  else
    match d.recover set missing with
    | .error e => (.error e, d)
    | .ok recovered => (.ok (result ++ recovered), d.markCompleted setId)

/-- A shard comes to its set. -/
def insertShard (setId shardIndex : Nat) (shard : List UInt8)
    (result : List (List UInt8)) : Except IoError (List (List UInt8)) × FecDecoder :=
  let (set, d) := d.entry setId
  if (set.shards[shardIndex]?).join.isSome then (.ok [], d)
  else if shard = [] then (.error (invalidData "empty Kcptun FEC shard"), d)
  else
    let set : ShardSet :=
      { set with
        maxLen := max set.maxLen shard.length
        shards := set.shards.set shardIndex (some shard)
        present := set.present + 1 }
    if set.present < d.dataShards then (.ok result, { d with sets := d.sets.insert setId set })
    else d.finishSet setId set result

def decode (packet : List UInt8) : Except IoError (List (List UInt8)) × FecDecoder :=
  if packet.length < fecHeaderSize ∨ d.maxPacketSize < packet.length then
    (.error (invalidData ("Kcptun FEC packet length " ++ toString packet.length ++ " is outside " ++
      toString fecHeaderSize ++ "..=" ++ toString d.maxPacketSize)), d)
  else
    let sequence := leNat (packet.take 4)
    if d.sequenceLimit ≤ sequence then
      (.error (invalidData "Kcptun FEC sequence exceeds the wrap-protection boundary"), d)
    else
      let packetType := leNat (slice packet 4 6)
      let shardIndex := sequence % d.totalShards
      match d.checkPosition packetType shardIndex, directPayload packet packetType with
      | .error e, _ => (.error e, d)
      | .ok _, .error e => (.error e, d)
      | .ok _, .ok result =>
        let setId := sequence / d.totalShards
        if d.completed.contains setId then (.ok result, d)
        else d.insertShard setId shardIndex (packet.drop fecHeaderSize) result

end

/-- What the decoder answers to packets, one after the other. -/
def decodeAll (d : FecDecoder) : List (List UInt8) → List (Except IoError (List (List UInt8)))
  | [] => []
  | packet :: rest => (d.decode packet).1 :: decodeAll (d.decode packet).2 rest

end FecDecoder

/-- What the Reed-Solomon code is for: as many shards as there are data shards give all of them. -/
structure Codec.Correct (codec : Codec) (dataShards parityShards : Nat) : Prop where
  recovers : ∀ (data : List (List UInt8)) (n : Nat), 0 < n → data.length = dataShards →
    (∀ shard ∈ data, shard.length = n) →
    ∃ parity, parity.length = parityShards ∧ (∀ shard ∈ parity, shard.length = n) ∧
      codec.encode (data ++ List.replicate parityShards (List.replicate n 0)) =
        .ok (data ++ parity) ∧
      ∀ shards : List (Option (List UInt8)), shards.length = dataShards + parityShards →
        (∀ (i : Nat) (shard : List UInt8), shards[i]? = some (some shard) →
          (data ++ parity)[i]? = some shard) →
        dataShards ≤ shards.countP Option.isSome →
        ∃ shards', codec.reconstructData shards = .ok shards' ∧
          ∀ i < dataShards, shards'[i]? = some data[i]?

end Shoes.Kcptun.Fec
