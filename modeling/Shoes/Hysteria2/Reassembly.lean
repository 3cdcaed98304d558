import Shoes.Hysteria2.Datagram
import Shoes.Lib.LruCache

/-! # Hysteria2 fragment reassembly

`prepare_hysteria2_udp_packet` and `reassemble_hysteria2_udp_fragment` over a fragment cache. Other
than in TUIC, a fragment that comes twice is passed over, and one with another count makes the entry
start anew. A packet that is complete leaves nothing behind: its fragments can make it up again. -/
namespace Shoes.Hysteria2.Reassembly
open Lib.Io Lib.Assoc Lib.LruCache Lib.Machine Lib.Slots List
open Net.Location Net.Fragments Datagram

structure UdpFragmentKey where
  sessionId : UInt32
  packetId : UInt16
  deriving DecidableEq

def Packet.key (p : Packet) : UdpFragmentKey := ⟨p.sessionId, p.packetId⟩

/-- The `UdpFragmentMap` of a connection is a cache of the LRU library. -/
abbrev FragmentLru := Lru UdpFragmentKey FragmentedPacket

/-- Whether the fragment has come before. -/
def hasCome (packet : FragmentedPacket) (p : Packet) : Bool :=
  (packet.received.getD p.fragmentId.toNat none).isSome

def tooLong (packet : FragmentedPacket) (p : Packet) : Prop :=
  packet.packetLen + p.payload.length > maxReassembledUdpPacketSize

instance (packet : FragmentedPacket) (p : Packet) : Decidable (tooLong packet p) :=
  inferInstanceAs (Decidable (_ > _))

def tooLongError (p : Packet) : IoError :=
  IoError.other (s!"Reassembled UDP packet exceeds {maxReassembledUdpPacketSize} bytes for " ++
    s!"session {p.sessionId} packet {p.packetId}")

/-- What is written through `get_mut`. -/
def receivePacket (packet : FragmentedPacket) (p : Packet) : FragmentedPacket :=
  packet.receive p.fragmentId (some p.remoteLocation) p.payload

/-- The end of `reassemble_hysteria2_udp_fragment`, when all fragments have been counted. -/
def finishPacket (packet : FragmentedPacket) (p : Packet) : Except IoError PreparedUdpPacket :=
  packet.finish p.sessionId.toNat p.packetId.toNat

section
variable (L : FragmentLru)

/-- The sum of `packet_len` over the cache. -/
def cachedBytes (c : L.Cache) : Nat := total FragmentedPacket.packetLen (L.iter c)

/-- Makes sure of an entry with the fragment's count. -/
def withEntry (c : L.Cache) (p : Packet) : L.Cache :=
  let (entry, c) := L.get (Packet.key p) c
  -- `is_none_or`
  let needsNewEntry := entry.all fun packet => packet.fragmentCount ≠ p.fragmentCount
  if needsNewEntry then L.put (Packet.key p) (.empty p.fragmentCount) c else c

def reassembleUdpFragment (c : L.Cache) (p : Packet) :
    Except IoError (Option PreparedUdpPacket) × L.Cache :=
  let key := Packet.key p
  match L.get key (withEntry L c p) with
  | (none, c) => (.error (IoError.other "Fragment cache error"), c)
  | (some packet, c) =>
    if hasCome packet p then (.ok none, c)
    else if tooLong packet p then (.error (tooLongError p), (L.pop key c).2)
    else if cachedBytes L c + p.payload.length > maxFragmentCacheBytes then
      (.error (IoError.other
        s!"Hysteria2 UDP fragment cache exceeds {maxFragmentCacheBytes} bytes"), (L.pop key c).2)
    else
      let c := L.getMut key (receivePacket · p) c
      let packet := receivePacket packet p
      if packet.fragmentReceived ≠ packet.fragmentCount then (.ok none, c)
      else
        match L.pop key c with
        | (none, c) => (.error (IoError.other "Fragment cache error"), c)
        | (some packet, c) => ((finishPacket packet p).map some, c)

def prepareUdpPacket (c : L.Cache) (p : Packet) :
    Except IoError (Option PreparedUdpPacket) × L.Cache :=
  if p.fragmentCount = 0 then
    (.error (IoError.other
      s!"Ignoring packet with empty fragment total for session {p.sessionId}"), c)
  else if p.fragmentId ≥ p.fragmentCount then
    (.error (IoError.other (s!"Invalid fragment id {p.fragmentId} >= total {p.fragmentCount} " ++
      s!"for session {p.sessionId}")), c)
  else if p.fragmentCount = 1 then (.ok (some ⟨p.remoteLocation, p.payload⟩), c)
  else reassembleUdpFragment L c p

end

/-! ## One packet on its own -/

section
variable (entry : Option FragmentedPacket) (p : Packet)

/-- The entry that a fragment goes into. -/
def entryFor : FragmentedPacket :=
  match entry with
  | none => .empty p.fragmentCount
  | some packet => if packet.fragmentCount ≠ p.fragmentCount then .empty p.fragmentCount else packet

/-- What happens to the entry of one packet, if the cache has room. -/
def slotFragment : Except IoError (Option PreparedUdpPacket) × Option FragmentedPacket :=
  let packet := entryFor entry p
  if hasCome packet p then (.ok none, some packet)
  else if tooLong packet p then (.error (tooLongError p), none)
  else
    let packet := receivePacket packet p
    if packet.fragmentReceived ≠ packet.fragmentCount then (.ok none, some packet)
    else ((finishPacket packet p).map some, none)

/-- `prepare_hysteria2_udp_packet` for one packet on its own. -/
def slot : Except IoError (Option PreparedUdpPacket) × Option FragmentedPacket :=
  if p.fragmentCount = 0 then
    (.error (IoError.other
      s!"Ignoring packet with empty fragment total for session {p.sessionId}"), entry)
  else if p.fragmentId ≥ p.fragmentCount then
    (.error (IoError.other (s!"Invalid fragment id {p.fragmentId} >= total {p.fragmentCount} " ++
      s!"for session {p.sessionId}")), entry)
  else if p.fragmentCount = 1 then (.ok (some ⟨p.remoteLocation, p.payload⟩), entry)
  else slotFragment entry p

end

section
variable (L : FragmentLru)

/-- The cache takes the fragment without dropping an entry and without passing its limit on
bytes. -/
def HasRoom (c : L.Cache) (p : Packet) : Prop :=
  (Packet.key p ∈ keys (L.iter c) ∨ (L.iter c).length < L.cap c) ∧
    (hasCome (entryFor (L.find c (Packet.key p)) p) p = true ∨
      cachedBytes L (withEntry L c p) + p.payload.length ≤ maxFragmentCacheBytes)

instance (c : L.Cache) (p : Packet) : Decidable (HasRoom L c p) :=
  inferInstanceAs (Decidable (_ ∧ _))

variable {L}

theorem find_withEntry_self (c p) :
    L.find (withEntry L c p) (Packet.key p) = some (entryFor (L.find c (Packet.key p)) p) := by
  unfold withEntry entryFor
  simp only [L.get_fst]
  cases hf : L.find c (Packet.key p) with
  | none => simp
  | some packet => by_cases hcount : packet.fragmentCount = p.fragmentCount <;> simp [hcount, hf]

theorem find_withEntry_ne (h : HasRoom L c p) (hk : k ≠ Packet.key p) : L.find (withEntry L c p) k =
    L.find c k := by
  have hroom : Packet.key p ∈ keys (L.iter (L.get (Packet.key p) c).2) ∨
      (L.iter (L.get (Packet.key p) c).2).length < L.cap (L.get (Packet.key p) c).2 := by
    rcases h.1 with hmem | hlt
    · left
      rw [← lookup_isSome] at hmem ⊢
      exact (congrArg Option.isSome (L.find_get (Packet.key p) (Packet.key p) c)).trans hmem
    right
    rw [L.iter_get, L.cap_get]
    exact (length_touch_le _ _).trans_lt hlt
  unfold withEntry
  dsimp only
  split
  · rw [L.find_put_ne hk _ hroom, L.find_get]
  · rw [L.find_get]

theorem reassemble_slot (h : HasRoom L c p) :
    (reassembleUdpFragment L c p).1 = (slotFragment (L.find c (Packet.key p)) p).1 ∧
      L.Only c (Packet.key p) (slotFragment (L.find c (Packet.key p)) p).2
        (reassembleUdpFragment L c p).2 := by
  obtain ⟨c', hget⟩ : ∃ c', L.get (Packet.key p) (withEntry L c p) =
      (some (entryFor (L.find c (Packet.key p)) p), c') :=
    ⟨_, Prod.ext (by rw [L.get_fst, find_withEntry_self]) rfl⟩
  have hfind : ∀ k, L.find c' k = L.find (withEntry L c p) k := fun k => by
    have := L.find_get (Packet.key p) k (withEntry L c p)
    rwa [hget] at this
  have hbytes : cachedBytes L c' = cachedBytes L (withEntry L c p) := by
    have := L.total_get FragmentedPacket.packetLen (Packet.key p) (withEntry L c p)
    rwa [hget] at this
  have hentry : L.Only c (Packet.key p) (some (entryFor (L.find c (Packet.key p)) p)) c' :=
    ⟨(hfind _).trans (find_withEntry_self c p),
      fun k hk => (hfind k).trans (find_withEntry_ne h hk)⟩
  have hroom := h.2
  unfold reassembleUdpFragment slotFragment
  simp only [hget]
  generalize entryFor (L.find c (Packet.key p)) p = packet at hentry hroom ⊢
  split
  · exact ⟨rfl, hentry⟩
  rename_i hnew
  split
  · obtain ⟨c'', hpop, hgone⟩ := hentry.pop
    rw [hpop]
    exact ⟨rfl, hgone⟩
  have hle := hroom.resolve_left hnew
  rw [if_neg (by omega)]
  have hmut := hentry.getMut (receivePacket · p)
  by_cases hdone : (receivePacket packet p).fragmentReceived ≠
      (receivePacket packet p).fragmentCount
  · simp only [if_pos hdone]
    exact ⟨trivial, hmut⟩
  simp only [if_neg hdone]
  obtain ⟨_, hpop, hgone⟩ := hmut.pop
  rw [hpop]
  exact ⟨rfl, hgone⟩

variable (L)

/-- **The cache is one slot for each packet**, as long as it has room. -/
theorem prepare_keyed : Keyed (prepareUdpPacket L) (HasRoom L) Packet.key L.find slot := by
  refine L.keyed fun c p h => ?_
  unfold prepareUdpPacket slot
  iterate 3
    split
    · exact ⟨rfl, .refl L⟩
  · exact reassemble_slot h

end

/-! ## One packet in any order, with fragments that come again -/

structure Sent extends Whole where
  key : UdpFragmentKey

namespace Sent
variable (w : Sent)

def fragment (i : Nat) : Packet where
  sessionId := w.key.sessionId
  packetId := w.key.packetId
  fragmentId := UInt8.ofNat i
  fragmentCount := w.count
  remoteLocation := w.location
  payload := w.piece i

variable {w} {seen : List Nat} {i : Nat} {entry : Option FragmentedPacket}

/-- The entry of a packet of which nothing has come is not there, or as good as new. -/
def Waiting (w : Sent) (seen : List Nat) (entry : Option FragmentedPacket) : Prop :=
  w.Partial seen (entry.getD (.empty w.count))

theorem Waiting.entryFor (h : w.Waiting seen entry) (i) :
    w.Partial seen (entryFor entry (w.fragment i)) := by
  rcases entry with _ | packet
  · exact h
  have hcount : packet.fragmentCount = (w.fragment i).fragmentCount := h.count
  rw [Reassembly.entryFor, if_neg (by simpa using hcount)]
  exact h

/-- **One fragment.** If it has come before, nothing changes; otherwise it is kept as long as
others are missing, and the last one gives the packet. -/
theorem slotFragment_fragment (h : w.Waiting seen entry) (hn : seen.Nodup)
    (hlt : ∀ j ∈ i :: seen, j < w.pieces.length) : if i ∈ seen then
      (slotFragment entry (w.fragment i)).1 = .ok none ∧
        w.Waiting seen (slotFragment entry (w.fragment i)).2
    else if seen.length + 1 = w.pieces.length then
      slotFragment entry (w.fragment i) = (.ok (some w.prepared), none)
    else (slotFragment entry (w.fragment i)).1 = .ok none ∧
      w.Waiting (i :: seen) (slotFragment entry (w.fragment i)).2 := by
  have hpart := h.entryFor i
  have hi := hlt i (by simp)
  have hcome : hasCome (Reassembly.entryFor entry (w.fragment i)) (w.fragment i) =
      decide (i ∈ seen) := hpart.slot hi
  unfold slotFragment
  simp only [hcome]
  by_cases hold : i ∈ seen
  · simp only [hold, decide_true, if_true]
    exact ⟨trivial, hpart⟩
  have hn' : (i :: seen).Nodup := nodup_cons.mpr ⟨hold, hn⟩
  have hfits : ¬tooLong (Reassembly.entryFor entry (w.fragment i)) (w.fragment i) :=
    not_lt.mpr (hpart.len_le hn' hlt)
  have hnext : w.Partial (i :: seen)
      (receivePacket (Reassembly.entryFor entry (w.fragment i)) (w.fragment i)) :=
    hpart.receive hi fun _ => rfl
  have hdone := hnext.complete_iff hn' hlt
  simp only [hold, decide_false, Bool.false_eq_true, if_false, hfits]
  by_cases hlast : seen.length + 1 = w.pieces.length
  · rw [if_pos hlast, if_neg (fun hne => hne (hdone.mpr hlast))]
    rw [finishPacket, hnext.finish hn' hlt hlast (by omega)]
    rfl
  rw [if_neg hlast, if_pos (fun he => hlast (hdone.mp he))]
  exact ⟨rfl, hnext⟩

theorem slot_fragment (hi : i < w.pieces.length) (entry) : slot entry (w.fragment i) =
      if w.pieces.length = 1 then (.ok (some ⟨w.location, w.piece i⟩), entry)
      else slotFragment entry (w.fragment i) := by
  have hcount := w.count_le
  have htotal : ((w.fragment i).fragmentCount).toNat = w.pieces.length := w.count_toNat
  have hid : ((w.fragment i).fragmentId).toNat = i := toNat_ofNat (by omega)
  have h0 : (w.fragment i).fragmentCount ≠ 0 := by intro h; rw [h] at htotal; simp at htotal; omega
  have h1 : (w.fragment i).fragmentCount = 1 ↔ w.pieces.length = 1 := by
    rw [← UInt8.toNat_inj, htotal]; rfl
  have hlt : ¬(w.fragment i).fragmentId ≥ (w.fragment i).fragmentCount := by
    rw [ge_iff_le, UInt8.le_iff_toNat_le, htotal, hid]; omega
  rw [slot, if_neg h0, if_neg hlt]
  simp only [h1]
  rfl

theorem slot_single (hone : w.pieces.length = 1) :
    ∀ ids : List Nat, (∀ i ∈ ids, i < w.pieces.length) →
      ((outputs slot none (ids.map w.fragment)).map Prod.snd).filterMap delivered =
        replicate (rounds w.pieces.length [] ids) w.prepared
  | [], _ => rfl
  | i :: ids, hlt => by
    have hi := hlt i (by simp)
    have ih := slot_single hone ids fun j hj => hlt j (by simp [hj])
    have hprepared : (⟨w.location, w.piece i⟩ : PreparedUdpPacket) = w.prepared := by
      obtain ⟨p, hp⟩ := length_eq_one_iff.mp hone
      have hi0 : i = 0 := by omega
      simp [Whole.prepared, Whole.piece, hp, hi0]
    simp only [map_cons, outputs, slot_fragment hi, if_pos hone, hprepared,
      filterMap_cons, delivered, ih]
    rw [rounds, if_neg (by simp), if_pos (by simp [hone]), replicate_succ]

/-- **The fragments of one packet, in any order and any number.** Every time all of them have
come, the packet is given. -/
theorem slot_run (hmany : w.pieces.length ≠ 1) :
    ∀ (ids seen : List Nat) (entry : Option FragmentedPacket), w.Waiting seen entry →
      seen.Nodup → (∀ j ∈ seen, j < w.pieces.length) → (∀ i ∈ ids, i < w.pieces.length) →
      ((outputs slot entry (ids.map w.fragment)).map Prod.snd).filterMap delivered =
        replicate (rounds w.pieces.length seen ids) w.prepared
  | [], _, _, _, _, _, _ => rfl
  | i :: ids, seen, entry, h, hn, hseen, hids => by
    have hi := hids i (by simp)
    have hids' : ∀ j ∈ ids, j < w.pieces.length := fun j hj => hids j (by simp [hj])
    have hlt : ∀ j ∈ i :: seen, j < w.pieces.length := fun j hj =>
      (mem_cons.mp hj).elim (fun e => e ▸ hi) (hseen j)
    have hstep := slotFragment_fragment h hn hlt
    simp only [map_cons, outputs, slot_fragment hi, if_neg hmany, rounds]
    by_cases hold : i ∈ seen
    · rw [if_pos hold] at hstep ⊢
      simp only [filterMap_cons, hstep.1, delivered]
      exact slot_run hmany ids seen _ hstep.2 hn hseen hids'
    rw [if_neg hold] at hstep ⊢
    by_cases hlast : seen.length + 1 = w.pieces.length
    · rw [if_pos hlast] at hstep ⊢
      simp only [hstep, filterMap_cons, delivered, replicate_succ]
      rw [slot_run hmany ids [] none w.partial_empty nodup_nil (by simp) hids']
    rw [if_neg hlast] at hstep ⊢
    simp only [filterMap_cons, hstep.1, delivered]
    exact slot_run hmany ids (i :: seen) _ hstep.2 (nodup_cons.mpr ⟨hold, hn⟩) hlt hids'

theorem slot_results (hids : ∀ i ∈ ids, i < w.pieces.length) :
    ((outputs slot none (ids.map w.fragment)).map Prod.snd).filterMap delivered =
      replicate (rounds w.pieces.length [] ids) w.prepared := by
  by_cases hone : w.pieces.length = 1
  · exact slot_single hone ids hids
  · exact slot_run hone ids [] none w.partial_empty nodup_nil (by simp) hids

end Sent

/-! ## The datagram loop -/

def packetOf (data : List UInt8) : Option Packet :=
  match parseDatagram data with
  | .ok p => some p
  | .error _ => none

def OfPacket (key : UdpFragmentKey) : List UInt8 → Bool := HasKey packetOf Packet.key key

section
variable (L : FragmentLru)

/-- The packets of the datagrams that come, with what `prepare_hysteria2_udp_packet` makes of
each. The loop goes on after a datagram that does not parse, and after an error. -/
def datagramLoop : L.Cache → List (List UInt8) →
    List (Packet × Except IoError (Option PreparedUdpPacket))
  | _, [] => []
  | c, data :: rest =>
    match parseDatagram data with
    | .error _ => datagramLoop c rest
    | .ok p => (p, (prepareUdpPacket L c p).1) :: datagramLoop (prepareUdpPacket L c p).2 rest

/-- No datagram overflows the cache when it comes. -/
def Admitted (c : L.Cache) (datagrams : List (List UInt8)) : Prop :=
  Along (prepareUdpPacket L) (HasRoom L) c (datagrams.filterMap packetOf)

instance (c : L.Cache) (datagrams : List (List UInt8)) : Decidable (Admitted L c datagrams) :=
  inferInstanceAs (Decidable (Along _ _ _ _))

theorem datagramLoop_eq (c datagrams) : datagramLoop L c datagrams =
      outputs (prepareUdpPacket L) c (datagrams.filterMap packetOf) := by
  induction datagrams generalizing c with
  | nil => rfl
  | cons data rest ih =>
    cases hp : parseDatagram data with
    | error e => simp [datagramLoop, packetOf, hp, ih]
    | ok p => simp [datagramLoop, packetOf, hp, ih, outputs]

end

/-! ## Round trip -/

section
variable {maxDatagramSize : Nat} {s : Session} {packetId : UInt16} {payload : Payload}
  {addressLenBytes : List UInt8} {datagrams pieces : List (List UInt8)}

def Sent.ofCut (h : Cut maxDatagramSize s packetId payload.bytes addressLenBytes datagrams pieces) :
    Sent where
  key := ⟨s.sessionId, packetId⟩
  location := s.location.toNetLocation
  pieces := pieces
  count_le := h.count_le
  size_le := by rw [h.flatten_eq]; exact payload.fits

section
variable (h : Cut maxDatagramSize s packetId payload.bytes addressLenBytes datagrams pieces)
include h

theorem packetOf_datagram (i) :
    packetOf (packetDatagram s addressLenBytes packetId i pieces.length (pieces.getD i [])) =
      some ((Sent.ofCut h).fragment i) := by
  rw [packetOf, parseDatagram_packetDatagram s h.len_eq]
  rfl

theorem exists_ids (hds : ds ⊆ datagrams) :
    ∃ ids : List Nat, (∀ i ∈ ids, i < pieces.length) ∧ ds = ids.map fun i =>
      packetDatagram s addressLenBytes packetId i pieces.length (pieces.getD i []) := by
  induction ds with
  | nil => exact ⟨[], by simp, rfl⟩
  | cons d ds ih =>
    obtain ⟨hd, hds⟩ := cons_subset.mp hds
    obtain ⟨ids, hlt, rfl⟩ := ih hds
    rw [h.datagrams_eq] at hd
    obtain ⟨i, hi, rfl⟩ := mem_map.mp hd
    refine ⟨i :: ids, fun j hj => ?_, rfl⟩
    rcases mem_cons.mp hj with rfl | hj
    · exact mem_range.mp hi
    · exact hlt j hj

theorem datagram_injective : ∀ i ∈ range pieces.length, ∀ j ∈ range pieces.length,
      packetDatagram s addressLenBytes packetId i pieces.length (pieces.getD i []) =
        packetDatagram s addressLenBytes packetId j pieces.length (pieces.getD j []) → i = j := by
  intro i hi j hj he
  have hcount := h.count_le
  rw [mem_range] at hi hj
  have hpacket := congrArg packetOf he
  rw [packetOf_datagram h, packetOf_datagram h, Option.some.injEq] at hpacket
  have hid := congrArg (fun p => p.fragmentId.toNat) hpacket
  simpa only [Sent.fragment, toNat_ofNat (by omega : i ≤ 255), toNat_ofNat (by omega : j ≤ 255)]
    using hid

theorem datagrams_nodup : datagrams.Nodup := by
  rw [h.datagrams_eq]
  exact List.Nodup.map_on (fun i hi j hj he => datagram_injective h i hi j hj he) nodup_range

end

theorem completed_rounds (L)
    (h : Cut maxDatagramSize s packetId payload.bytes addressLenBytes datagrams pieces) {c trace}
    (hnew : L.find c ⟨s.sessionId, packetId⟩ = none)
    (hown : trace.filter (OfPacket ⟨s.sessionId, packetId⟩) ⊆ datagrams) (hadm : Admitted L c trace)
    : completed Packet.key ⟨s.sessionId, packetId⟩ (datagramLoop L c trace) =
      replicate (rounds datagrams.length []
        (trace.filter (OfPacket ⟨s.sessionId, packetId⟩))) ⟨s.location.toNetLocation,
          payload.bytes⟩ := by
  obtain ⟨ids, hlt, hids⟩ := exists_ids h hown
  have hpackets : (trace.filter (OfPacket ⟨s.sessionId, packetId⟩)).filterMap packetOf =
      ids.map (Sent.ofCut h).fragment := by
    rw [hids, filterMap_map, ← filterMap_eq_map]
    exact filterMap_congr fun i _ => packetOf_datagram h i
  have hcount : datagrams.length = pieces.length := by rw [h.datagrams_eq]; simp
  have hprepared : (Sent.ofCut h).prepared = ⟨s.location.toNetLocation, payload.bytes⟩ := by
    simp [Whole.prepared, Sent.ofCut, h.flatten_eq]
  have hrounds := rounds_map (n := pieces.length) (datagram_injective h) (nil_subset _)
    fun i hi => mem_range.mpr (hlt i hi)
  have hslot := Sent.slot_results (w := Sent.ofCut h) hlt
  rw [datagramLoop_eq, completed_outputs (prepare_keyed L) _ hadm, hnew]
  change ((outputs slot none ((trace.filter (OfPacket ⟨s.sessionId, packetId⟩)).filterMap
    packetOf)).map Prod.snd).filterMap delivered = _
  rw [hpackets, hslot, hprepared, hids, hcount]
  exact congrArg (replicate · _) hrounds.symm

/-- **Fragmentation is undone in every order.** The datagrams that a reply sends fit the limit.
Whenever they come, each any number of times, among datagrams of other packets that do not
overflow the cache, the packet that was sent is completed every time all of them have come anew,
and no other. So nothing is completed while one of them is missing; and exactly one packet is, if
after the one that made the first complete set they do not all come again. -/
theorem udpReply_reassembled (L : FragmentLru)
    (hsend : udpReply maxDatagramSize s packetId payload = .ok datagrams) :
    (∀ d ∈ datagrams, d.length ≤ maxDatagramSize) ∧
    ∀ (c : L.Cache) (trace : List (List UInt8)), L.find c ⟨s.sessionId, packetId⟩ = none →
      (∀ d ∈ trace, OfPacket ⟨s.sessionId, packetId⟩ d = true → d ∈ datagrams) →
      Admitted L c trace →
      completed Packet.key ⟨s.sessionId, packetId⟩ (datagramLoop L c trace) =
        replicate (rounds datagrams.length []
          (trace.filter (OfPacket ⟨s.sessionId, packetId⟩)))
          ⟨s.location.toNetLocation, payload.bytes⟩ ∧
      (∀ d ∈ datagrams, d ∉ trace →
        completed Packet.key ⟨s.sessionId, packetId⟩ (datagramLoop L c trace) = []) ∧
      ∀ early d late, trace = early ++ d :: late → d ∈ datagrams → d ∉ early →
        datagrams ⊆ d :: early → ¬datagrams ⊆ late →
        completed Packet.key ⟨s.sessionId, packetId⟩ (datagramLoop L c trace) =
          [⟨s.location.toNetLocation, payload.bytes⟩] := by
  obtain ⟨_, _, hcut⟩ := udpReply_cut hsend
  have hof : ∀ d ∈ datagrams, OfPacket ⟨s.sessionId, packetId⟩ d = true := by
    intro d hd
    rw [hcut.datagrams_eq] at hd
    obtain ⟨i, -, rfl⟩ := mem_map.mp hd
    rw [OfPacket, HasKey, packetOf_datagram hcut]
    exact decide_eq_true rfl
  refine ⟨hcut.length_le, fun c trace hnew hown hadm => ?_⟩
  have hsub : ∀ {ds : List (List UInt8)}, ds ⊆ trace →
      ds.filter (OfPacket ⟨s.sessionId, packetId⟩) ⊆ datagrams := fun hds d hd =>
    hown d (hds (mem_of_mem_filter hd)) (of_mem_filter hd)
  have hrounds := completed_rounds L hcut hnew (hsub (List.Subset.refl trace)) hadm
  refine ⟨hrounds, fun d hd hmissing => ?_, ?_⟩
  · rw [hrounds, rounds_missing nodup_nil (nil_subset _) hd (not_mem_nil)
      (hsub (List.Subset.refl trace)) fun hm => hmissing (mem_of_mem_filter hm)]
    rfl
  rintro early d late rfl hd hfirst hall hlate
  obtain ⟨d', hd', hmissing⟩ : ∃ d' ∈ datagrams, d' ∉ late := by simpa [subset_def] using hlate
  have hearly : early ⊆ early ++ d :: late := subset_append_left _ _
  have hlates : late ⊆ early ++ d :: late := fun x hx => by simp [hx]
  rw [hrounds, filter_append, filter_cons_of_pos (hof d hd),
    rounds_first nodup_nil (nil_subset _) (datagrams_nodup hcut) hd not_mem_nil
      (hsub hearly) (fun hm => hfirst (mem_of_mem_filter hm)) ?_,
    rounds_missing nodup_nil (nil_subset _) hd' not_mem_nil (hsub hlates)
      fun hm => hmissing (mem_of_mem_filter hm)]
  · rfl
  intro x hx
  have hx' := hall hx
  simp only [mem_cons, append_nil, mem_filter] at hx' ⊢
  exact hx'.imp_right fun hm => ⟨hm, hof x hx⟩

/-- A session with 192.0.2.1, port 53. -/
def sampleSession : Session where
  sessionId := 7
  initialLocation := ⟨⟨.ipv4 ⟨192, 0, 2, 1⟩, 53⟩, trivial, by decide⟩
  overrideLocalWriteAddress := none

/-- Three bytes to a client that takes 23: two datagrams, of which the second comes twice before
the first and once more after it. -/
theorem udpReply_reassembled_repeated :
    let L := listLru UdpFragmentKey FragmentedPacket
    let first := packetDatagram sampleSession [12] 0 0 2 [1, 2]
    let second := packetDatagram sampleSession [12] 0 1 2 [3]
    udpReply 23 sampleSession 0 ⟨[1, 2, 3], by decide, by decide⟩ = .ok [first, second] ∧
      completed Packet.key ⟨7, 0⟩ (datagramLoop L (L.new maxFragmentCacheSize)
        [second, second, first, second]) = [⟨⟨.ipv4 ⟨192, 0, 2, 1⟩, 53⟩, [1, 2, 3]⟩] := by
  have hsend : udpReply 23 sampleSession 0 ⟨[1, 2, 3], by decide, by decide⟩ = .ok
      [packetDatagram sampleSession [12] 0 0 2 [1, 2],
        packetDatagram sampleSession [12] 0 1 2 [3]] := by decide
  refine ⟨hsend, ((udpReply_reassembled _ hsend).2 _ _ rfl ?_ ?_).2.2
    [packetDatagram sampleSession [12] 0 1 2 [3], packetDatagram sampleSession [12] 0 1 2 [3]]
    (packetDatagram sampleSession [12] 0 0 2 [1, 2]) [packetDatagram sampleSession [12] 0 1 2 [3]]
    rfl ?_ ?_ ?_ ?_⟩
  all_goals decide

/-- The two datagrams of a packet come, and then come again: the packet is delivered twice. -/
theorem udpReply_delivered_twice :
    let L := listLru UdpFragmentKey FragmentedPacket
    let first := packetDatagram sampleSession [12] 0 0 2 [1, 2]
    let second := packetDatagram sampleSession [12] 0 1 2 [3]
    udpReply 23 sampleSession 0 ⟨[1, 2, 3], by decide, by decide⟩ = .ok [first, second] ∧
      Admitted L (L.new maxFragmentCacheSize) [first, second, first, second] ∧
      completed Packet.key ⟨7, 0⟩ (datagramLoop L (L.new maxFragmentCacheSize)
        [first, second, first, second]) =
        [⟨⟨.ipv4 ⟨192, 0, 2, 1⟩, 53⟩, [1, 2, 3]⟩, ⟨⟨.ipv4 ⟨192, 0, 2, 1⟩, 53⟩, [1, 2, 3]⟩] := by
  decide

end

end Shoes.Hysteria2.Reassembly
