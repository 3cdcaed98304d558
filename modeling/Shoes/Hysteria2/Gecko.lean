import Shoes.Lib.Assoc
import Shoes.Net.Fragments

/-! # Gecko obfuscation

The receiving side of `hysteria2_obfs`: datagrams hidden by Salamander, in which a QUIC packet with
a long header comes in fragments. The inner socket fills several buffers, each with several
datagrams. `poll_recv` leaves with the first packet it has made out, and the rest is lost. -/
namespace Shoes.Hysteria2.Gecko
open Lib.Io Lib.Bytes Lib.Assoc Lib.Slots Net.Location Net.Fragments Option

def salamanderSaltLen : Nat := 8
def salamanderKeyLen : Nat := 32
def geckoFragmentFlag : UInt8 := 0x80
def geckoMinChunks : Nat := 2
def geckoMaxChunks : Nat := 8
/-- In milliseconds, as all times here. -/
def geckoReassemblyTtl : Nat := 8000
def geckoMaxReassembly : Nat := 4096
def geckoOrderCompactLen : Nat := geckoMaxReassembly * 2
def geckoMaxPerSource : Nat := 8

structure GeckoChunk where
  msgId : UInt8
  chunkIndex : Nat
  totalChunks : Nat
  payload : List UInt8

def parseGeckoChunk : List UInt8 → Option GeckoChunk
  | _ :: msgId :: position :: hi :: lo :: rest =>
    let chunkIndex := (position >>> 4).toNat
    let totalChunks := (position &&& 0x0f).toNat
    let padLen := (u16FromBeBytes hi lo).toNat
    if ¬(geckoMinChunks ≤ totalChunks ∧ totalChunks ≤ geckoMaxChunks) then none
    else if chunkIndex ≥ totalChunks then none
    else if padLen > rest.length then none
    else some ⟨msgId, chunkIndex, totalChunks, rest.drop padLen⟩
  | _ => none

structure GeckoReassemblyKey where
  addr : SocketAddr
  msgId : UInt8
  deriving DecidableEq

structure GeckoReassemblyEntry where
  chunks : List (Option (List UInt8))
  received : Nat
  total : Nat
  deadline : Nat

structure GeckoState where
  entries : Map GeckoReassemblyKey GeckoReassemblyEntry
  perSource : Map SocketAddr Nat
  order : List GeckoReassemblyKey
  lastSweep : Nat

namespace GeckoState

def new (now : Nat) : GeckoState := ⟨.empty, .empty, [], now⟩

def dropEntry (g : GeckoState) (key : GeckoReassemblyKey) : GeckoState :=
  if ¬g.entries.contains key then g
  else
    { g with
      entries := g.entries.remove key
      perSource := match g.perSource.get key.addr with
        | none => g.perSource
        | some count =>
          if count - 1 = 0 then g.perSource.remove key.addr
          else g.perSource.insert key.addr (count - 1) }

/-- `evict_oldest`, over what is left of `order`. -/
def evictOldest (g : GeckoState) : List GeckoReassemblyKey → GeckoState
  | [] => { g with order := [] }
  | key :: order =>
    if g.entries.contains key then { g with order }.dropEntry key else g.evictOldest order

def compactOrder (g : GeckoState) : GeckoState :=
  { g with order := g.order.filter g.entries.contains }

def sweepExpired (g : GeckoState) (now : Nat) : GeckoState :=
  let expired := (g.entries.entries.filter fun e => decide (now > e.2.deadline)).map Prod.fst
  { (expired.foldl dropEntry g).compactOrder with lastSweep := now }

/-- Makes sure of an entry, unless the source has too many. -/
def withEntry (g : GeckoState) (now : Nat) (key : GeckoReassemblyKey) (totalChunks : Nat) :
    Option GeckoState :=
  if g.entries.contains key then some g
  else if (g.perSource.get key.addr).getD 0 ≥ geckoMaxPerSource then none
  else
    let g := if g.entries.size ≥ geckoMaxReassembly then g.evictOldest g.order else g
    let g := if g.order.length ≥ geckoOrderCompactLen then g.compactOrder else g
    some { g with
      entries := g.entries.insert key
        ⟨List.replicate totalChunks none, 0, totalChunks, now + geckoReassemblyTtl⟩
      order := g.order ++ [key]
      perSource := g.perSource.insert key.addr ((g.perSource.get key.addr).getD 0 + 1) }

def acceptChunk (g : GeckoState) (now : Nat) (addr : SocketAddr) (chunk : GeckoChunk) :
    Option (List UInt8) × GeckoState :=
  let g := if now - g.lastSweep ≥ geckoReassemblyTtl / 2 then g.sweepExpired now else g
  let key : GeckoReassemblyKey := ⟨addr, chunk.msgId⟩
  match g.withEntry now key chunk.totalChunks with
  | none => (none, g)
  | some g =>
    match g.entries.get key with
    | none => (none, g)
    | some entry =>
      if entry.total ≠ chunk.totalChunks ∨ chunk.chunkIndex ≥ entry.chunks.length ∨
          (entry.chunks.getD chunk.chunkIndex none).isSome then (none, g)
      else
        let entry := { entry with
          chunks := entry.chunks.set chunk.chunkIndex (some chunk.payload)
          received := entry.received + 1 }
        let g := { g with entries := g.entries.insert key entry }
        if entry.received < entry.total then (none, g)
        else match joinFragments entry.chunks with
          | none => (none, g)
          | some out => (some out, g.dropEntry key)

end GeckoState

/-! ## The socket -/

structure RecvMeta where
  addr : SocketAddr
  len : Nat
  stride : Nat
  deriving DecidableEq

/-- A buffer that the inner socket has filled, and the time at which each datagram in it is looked
at. -/
structure Filled where
  info : RecvMeta
  bytes : List UInt8
  clock : Nat → Nat
  full : bytes.length = info.len

structure Segment where
  info : RecvMeta
  raw : List UInt8
  now : Nat

/-- The datagrams of a buffer, one every `raw_stride` bytes. -/
def Filled.segments (b : Filled) : List Segment :=
  let rawStride := if b.info.stride = 0 then b.info.len else b.info.stride
  (pieces rawStride ((b.info.len + rawStride - 1) / rawStride) b.bytes).mapIdx fun i raw =>
    ⟨b.info, raw, b.clock i⟩

/-- What `poll_recv` of the inner socket answers. `room` is the length of the first buffer. -/
inductive Answer
  | pending
  | error (e : IoError)
  | received (room : Nat) (bufs : List Filled)

/-- A packet given out, with its `meta`. -/
structure Received where
  info : RecvMeta
  packet : List UInt8
  deriving DecidableEq

def Segment.give (s : Segment) (packet : List UInt8) : Received :=
  ⟨{ s.info with len := packet.length, stride := packet.length }, packet⟩

section
-- `salamander_key` of the password, for each salt
variable (key : List UInt8 → List UInt8) (g : GeckoState)

def decodeSalamanderPacket (packet : List UInt8) : Option (List UInt8) :=
  if packet.length ≤ salamanderSaltLen then none
  else
    let k := key (packet.take salamanderSaltLen)
    some ((packet.drop salamanderSaltLen).mapIdx fun i b => b ^^^ k.getD (i % salamanderKeyLen) 0)

def decodeGeckoSegment (s : Segment) : Option (List UInt8) × GeckoState :=
  match decodeSalamanderPacket key s.raw with
  | none | some [] => (none, g)
  | some (first :: rest) =>
    if first &&& geckoFragmentFlag = 0 then (some (first :: rest), g)
    else match parseGeckoChunk (first :: rest) with
      | none => (none, g)
      | some chunk => g.acceptChunk s.now s.info.addr chunk

/-- The two inner loops of `poll_recv_gecko`, up to the `return`. -/
def firstCompleted (g : GeckoState) : List Segment → Option Received × GeckoState
  | [] => (none, g)
  | s :: rest =>
    match decodeGeckoSegment key g s with
    | (some packet, g) => (some (s.give packet), g)
    | (none, g) => firstCompleted g rest

def exceedsError : IoError :=
  ⟨.invalidData, "decoded hysteria2 gecko packet exceeds receive buffer"⟩

/-- `poll_recv_gecko` with at least one buffer, and the answers it has not asked for. -/
def pollRecvGecko (g : GeckoState) :
    List Answer → Poll (Except IoError (Option Received)) × GeckoState × List Answer
  | [] => (.pending, g, [])
  | .pending :: answers => (.pending, g, answers)
  | .error e :: answers => (.ready (.error e), g, answers)
  | .received room bufs :: answers =>
    if bufs.isEmpty then (.ready (.ok none), g, answers)
    else match firstCompleted key g (bufs.flatMap Filled.segments) with
      | (none, g) => pollRecvGecko g answers
      | (some r, g) =>
        if r.packet.length > room then (.ready (.error exceedsError), g, answers)
        else (.ready (.ok (some r)), g, answers)

def given : Poll (Except IoError (Option Received)) → List Received
  | .ready (.ok (some r)) => [r]
  | _ => []

/-- What so many calls of `poll_recv` give out. -/
def drain (g : GeckoState) : Nat → List Answer → List Received
  | 0, _ => []
  | calls + 1, answers =>
    let (result, g', left) := pollRecvGecko key g answers
    given result ++ drain g' calls left

/-- What `poll_recv` gives out until the inner socket has nothing more to answer. -/
def returned (answers : List Answer) : List Received := drain key g answers.length answers

/-! ## What a batch holds -/

/-- Every packet that the segments make out, in order. -/
def completed (g : GeckoState) : List Segment → List Received
  | [] => []
  | s :: rest =>
    let (packet, g') := decodeGeckoSegment key g s
    (packet.map s.give).toList ++ completed g' rest

/-- What has been received when every segment was looked at. -/
def processed (g : GeckoState) (segments : List Segment) : GeckoState :=
  segments.foldl (fun g s => (decodeGeckoSegment key g s).2) g

/-- The packets of the batch are given out, each once, before those that later answers make out with
what the batch has left. -/
def Delivered (room : Nat) (bufs : List Filled) : Prop :=
  let segments := bufs.flatMap Filled.segments
  ∀ answers, returned key g (.received room bufs :: answers) =
    completed key g segments ++ returned key (processed key g segments) answers

/-- What one answer makes `poll_recv` give out, now or in the calls to come. -/
def Answer.gives : Answer → List Received × GeckoState
  | .received room bufs =>
    let (r, g') := firstCompleted key g (bufs.flatMap Filled.segments)
    ((r.filter fun r => decide (r.packet.length ≤ room)).toList, g')
  | _ => ([], g)

def gives (g : GeckoState) : List Answer → List Received
  | [] => []
  | a :: answers => (a.gives key g).1 ++ gives (a.gives key g).2 answers

end

variable {key : List UInt8 → List UInt8}

theorem firstCompleted_head (g segments) :
    (firstCompleted key g segments).1 = (completed key g segments).head? := by
  induction segments generalizing g with
  | nil => rfl
  | cons s rest ih =>
    rw [firstCompleted, completed]
    split
    · next hdecode => rw [hdecode]; rfl
    · next g' hdecode => rw [hdecode, ih g']; rfl

/-- One call gives out what the answers it has asked for give, and asks for one at least. -/
theorem pollRecvGecko_gives (g answers) :
    gives key g answers = given (pollRecvGecko key g answers).1 ++
      gives key (pollRecvGecko key g answers).2.1 (pollRecvGecko key g answers).2.2 ∧
    (pollRecvGecko key g answers).2.2.length ≤ answers.length - 1 := by
  induction answers generalizing g with
  | nil => exact ⟨rfl, le_rfl⟩
  | cons a answers ih =>
    rcases a with _ | e | ⟨room, bufs⟩
    · exact ⟨rfl, le_rfl⟩
    · exact ⟨rfl, le_rfl⟩
    rw [pollRecvGecko, gives, Answer.gives]
    by_cases hempty : bufs = []
    · subst hempty
      exact ⟨rfl, le_rfl⟩
    rw [if_neg (by simpa using hempty)]
    rcases firstCompleted key g (bufs.flatMap Filled.segments) with ⟨_ | r, g'⟩
    · exact ⟨(ih g').1, (ih g').2.trans (Nat.sub_le _ _)⟩
    by_cases hroom : r.packet.length > room
    · simp [hroom, given, filter_some]
    · simp [hroom, given, filter_some, not_lt.mp hroom]

theorem drain_eq (calls g) (h : answers.length ≤ calls) :
    drain key g calls answers = gives key g answers := by
  induction calls generalizing g answers with
  | zero => rw [List.length_eq_zero_iff.mp (Nat.le_zero.mp h)]; rfl
  | succ calls ih =>
    obtain ⟨hgives, hleft⟩ := @pollRecvGecko_gives key g answers
    rw [hgives, ← ih _ (by omega)]
    rfl

theorem returned_received (g room bufs answers) :
    returned key g (.received room bufs :: answers) =
      ((completed key g (bufs.flatMap Filled.segments)).head?.filter
        fun r => decide (r.packet.length ≤ room)).toList ++
      returned key (firstCompleted key g (bufs.flatMap Filled.segments)).2 answers := by
  rw [returned, drain_eq _ g le_rfl, returned, drain_eq _ _ le_rfl, ← firstCompleted_head]
  rfl

/-- The first packet, if it fits, is all there is. -/
theorem head_filter_iff (room) (packets : List Received) :
    (packets.head?.filter fun r => decide (r.packet.length ≤ room)).toList = packets ↔
      packets.length ≤ 1 ∧ ∀ r ∈ packets, r.packet.length ≤ room := by
  rcases packets with _ | ⟨r, more⟩
  · simp
  by_cases hroom : r.packet.length ≤ room
  · simp only [List.head?_cons, filter_some, hroom, decide_true, if_true]
    simp +contextual [hroom, eq_comm]
  · simp [filter_some, hroom]

/-- **When a batch is delivered.** Its segments make out no more than one packet, that one fits the
first buffer, and what is behind it changes nothing. The first two are also necessary. -/
theorem batch_delivered (key : List UInt8 → List UInt8) (g : GeckoState) (room : Nat)
    (bufs : List Filled) :
    let segments := bufs.flatMap Filled.segments
    let single := (completed key g segments).length ≤ 1 ∧
      ∀ r ∈ completed key g segments, r.packet.length ≤ room
    (single ∧ (firstCompleted key g segments).2 = processed key g segments →
      Delivered key g room bufs) ∧
    (Delivered key g room bufs → single) := by
  refine ⟨fun ⟨hsingle, hquiet⟩ answers => ?_, fun h => ?_⟩
  · rw [returned_received, (head_filter_iff room _).mpr hsingle, hquiet]
  · have hnow := h []
    rw [returned_received] at hnow
    exact (head_filter_iff room _).mp (List.append_cancel_right hnow)

/-- Two datagrams in one batch, and no later answer: one packet is given out. -/
theorem second_packet_lost :
    let info : UInt8 → RecvMeta := fun host => ⟨.v4 ⟨10, 0, 0, host⟩ 443, 9, 9⟩
    let buf : UInt8 → Filled := fun host =>
      ⟨info host, [0, 0, 0, 0, 0, 0, 0, 0, host], fun _ => 0, rfl⟩
    let out : UInt8 → Received := fun host =>
      ⟨{ info host with len := 1, stride := 1 }, [host]⟩
    returned (fun _ => []) (.new 0) [.received 1500 [buf 1, buf 2]] = [out 1] ∧
    completed (fun _ => []) (.new 0) ([buf 1, buf 2].flatMap Filled.segments) =
      [out 1, out 2] := by
  decide +kernel

end Shoes.Hysteria2.Gecko
