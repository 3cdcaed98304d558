import Shoes.Tuic.Datagram
import Shoes.Lib.LruCache

/-! # TUIC fragment reassembly

`prepare_udp_packet` and `reassemble_udp_fragment` over a fragment cache. `slot` is what happens to
one packet on its own, and as long as the cache has room it is one `slot` for each packet. -/
namespace Shoes.Tuic.Reassembly
open Lib.Io Lib.Assoc Lib.LruCache Lib.Machine Lib.Slots
open Net.Location Net.Fragments Datagram

structure UdpFragmentKey where
  assocId : UInt16
  packetId : UInt16
  deriving DecidableEq

def Packet.key (p : Packet) : UdpFragmentKey := ⟨p.assocId, p.packetId⟩

/-- The `UdpFragmentMap` of a loop is a cache of the LRU library. -/
abbrev FragmentLru := Lru UdpFragmentKey FragmentedPacket

section
variable (packet : FragmentedPacket) (p : Packet)

/-- `fragment_error`: why a fragment does not go with what has come before it. -/
def fragmentError : Option IoError :=
  if packet.fragmentCount ≠ p.fragTotal then
    some (IoError.other s!"Mismatched fragment count for session {p.assocId} packet {p.packetId}")
  else if (packet.received.getD p.fragId.toNat none).isSome then
    some (IoError.other s!"Duplicate fragment for session {p.assocId} packet {p.packetId}")
  else if p.fragId = 0 ∧ p.remoteLocation = none then
    some (IoError.other
      s!"Ignoring packet with empty first fragment address for session {p.assocId}")
  else if packet.packetLen + p.payload.length > maxReassembledUdpPacketSize then
    some (IoError.other (s!"Reassembled UDP packet exceeds {maxReassembledUdpPacketSize} " ++
      s!"bytes for session {p.assocId} packet {p.packetId}"))
  else none

/-- What is written through `get_mut`. -/
def receivePacket : FragmentedPacket :=
  packet.receive p.fragId p.remoteLocation p.payload

/-- The end of `reassemble_udp_fragment`, when all fragments have been counted. -/
def finishPacket : Except IoError PreparedUdpPacket :=
  packet.finish p.assocId.toNat p.packetId.toNat

end

section
variable (L : FragmentLru)

/-- The sum of `packet_len` over the cache. -/
def cachedBytes (c : L.Cache) : Nat := total FragmentedPacket.packetLen (L.iter c)

def reassembleUdpFragment (c : L.Cache) (p : Packet) :
    Except IoError (Option PreparedUdpPacket) × L.Cache :=
  let key := Packet.key p
  let c := if L.contains key c then c else L.put key (.empty p.fragTotal) c
  match L.get key c with
  | (none, c) => (.error (IoError.other "Fragment cache error"), c)
  | (some packet, c) =>
    match fragmentError packet p with
    | some err => (.error err, (L.pop key c).2)
    | none =>
      if cachedBytes L c + p.payload.length > maxFragmentCacheBytes then
        (.error (IoError.other s!"TUIC UDP fragment cache exceeds {maxFragmentCacheBytes} bytes"),
          (L.pop key c).2)
      else
        let c := L.getMut key (receivePacket · p) c
        let packet := receivePacket packet p
        if packet.fragmentReceived ≠ packet.fragmentCount then (.ok none, c)
        else
          match L.pop key c with
          | (none, c) => (.error (IoError.other "Fragment cache error"), c)
          | (some packet, c) => ((finishPacket packet p).map some, c)

def prepareUdpPacket (c : L.Cache) (p : Packet) :
    Except IoError (Option PreparedUdpPacket) × L.Cache :=
  if p.fragTotal = 0 then (.error (IoError.other "Ignoring packet with empty fragment total"), c)
  else if p.fragId ≥ p.fragTotal then
    (.error (IoError.other s!"Invalid fragment id {p.fragId} >= total {p.fragTotal}"), c)
  else if p.fragTotal = 1 then
    match p.remoteLocation with
    | none =>
      (.error (IoError.other "Ignoring packet with single fragment and no address"), c)
    | some remoteLocation => (.ok (some ⟨remoteLocation, p.payload⟩), c)
  else reassembleUdpFragment L c p

end

/-! ## One packet on its own -/

def slotFragment (entry : Option FragmentedPacket) (p : Packet) :
    Except IoError (Option PreparedUdpPacket) × Option FragmentedPacket :=
  let packet := entry.getD (.empty p.fragTotal)
  match fragmentError packet p with
  | some err => (.error err, none)
  | none =>
    let packet := receivePacket packet p
    if packet.fragmentReceived ≠ packet.fragmentCount then (.ok none, some packet)
    else ((finishPacket packet p).map some, none)

/-- `prepare_udp_packet` for one packet on its own. -/
def slot (entry : Option FragmentedPacket) (p : Packet) :
    Except IoError (Option PreparedUdpPacket) × Option FragmentedPacket :=
  if p.fragTotal = 0 then
    (.error (IoError.other "Ignoring packet with empty fragment total"), entry)
  else if p.fragId ≥ p.fragTotal then
    (.error (IoError.other s!"Invalid fragment id {p.fragId} >= total {p.fragTotal}"), entry)
  else if p.fragTotal = 1 then
    match p.remoteLocation with
    | none =>
      (.error (IoError.other "Ignoring packet with single fragment and no address"), entry)
    | some remoteLocation => (.ok (some ⟨remoteLocation, p.payload⟩), entry)
  else slotFragment entry p

section
variable (L : FragmentLru)

/-- The cache takes the fragment without dropping an entry and without passing its limit on
bytes. -/
def HasRoom (c : L.Cache) (p : Packet) : Prop :=
  (Packet.key p ∈ keys (L.iter c) ∨ (L.iter c).length < L.cap c) ∧
    cachedBytes L c + p.payload.length ≤ maxFragmentCacheBytes

instance (c : L.Cache) (p : Packet) : Decidable (HasRoom L c p) :=
  inferInstanceAs (Decidable (_ ∧ _))

/-- The cache with an entry for the fragment. -/
abbrev withEntry (c : L.Cache) (p : Packet) : L.Cache :=
  if L.contains (Packet.key p) c then c else L.put (Packet.key p) (.empty p.fragTotal) c

theorem reassemble_entry (h : HasRoom L c p) : ∃ c', L.get (Packet.key p) (withEntry L c p) =
        (some ((L.find c (Packet.key p)).getD (.empty p.fragTotal)), c') ∧
      L.Only c (Packet.key p) (some ((L.find c (Packet.key p)).getD (.empty p.fragTotal))) c' ∧
      cachedBytes L c' = cachedBytes L c := by
  obtain ⟨hroom, -⟩ := h
  cases hf : L.find c (Packet.key p) with
  | some =>
    have hc : L.contains (Packet.key p) c = true := by rw [L.contains_eq, hf]; rfl
    simp only [withEntry, hc, if_true, Option.getD_some]
    exact ⟨_, Prod.ext (by rw [L.get_fst, hf]) rfl,
      ⟨by rw [L.find_get, hf], fun k _ => L.find_get _ k c⟩, L.total_get _ _ c⟩
  | none =>
    have hc : L.contains (Packet.key p) c = false := by rw [L.contains_eq, hf]; rfl
    have hlt := hroom.resolve_left (lookup_eq_none.mp hf)
    simp only [withEntry, hc, Bool.false_eq_true, if_false, Option.getD_none]
    refine ⟨_, Prod.ext (by rw [L.get_fst, L.find_put_self]) rfl,
      ⟨by rw [L.find_get, L.find_put_self], fun k hk => ?_⟩, ?_⟩
    · rw [L.find_get, L.find_put_ne hk _ (.inr hlt)]
    rw [cachedBytes, L.total_get, L.total_put _ _ hf hlt]
    exact zero_add _

theorem reassemble_slot (h : HasRoom L c p) :
    (reassembleUdpFragment L c p).1 = (slotFragment (L.find c (Packet.key p)) p).1 ∧
      L.Only c (Packet.key p) (slotFragment (L.find c (Packet.key p)) p).2
        (reassembleUdpFragment L c p).2 := by
  obtain ⟨_, hget, hentry, _⟩ := reassemble_entry L h
  have hroom := h.2
  unfold reassembleUdpFragment slotFragment
  simp only [hget]
  generalize (L.find c (Packet.key p)).getD (.empty p.fragTotal) = packet at hentry ⊢
  cases fragmentError packet p with
  | some =>
    obtain ⟨c'', hpop, hgone⟩ := hentry.pop
    rw [hpop]
    exact ⟨rfl, hgone⟩
  | none =>
    rw [if_neg (by omega)]
    have hmut := hentry.getMut (receivePacket · p)
    by_cases hdone : (receivePacket packet p).fragmentReceived ≠ (receivePacket packet p).fragmentCount
    · simp only [if_pos hdone]
      exact ⟨trivial, hmut⟩
    simp only [if_neg hdone]
    obtain ⟨_, hpop, hgone⟩ := hmut.pop
    rw [hpop]
    exact ⟨rfl, hgone⟩

/-- **The cache is one slot for each packet**, as long as it has room. -/
theorem prepare_keyed : Keyed (prepareUdpPacket L) (HasRoom L) Packet.key L.find slot := by
  refine L.keyed fun c p h => ?_
  unfold prepareUdpPacket slot
  split
  · exact ⟨rfl, .refl L⟩
  split
  · exact ⟨rfl, .refl L⟩
  split
  · cases p.remoteLocation <;> exact ⟨rfl, .refl L⟩
  · exact reassemble_slot L h

/-! ## What is left in the cache, room or not -/

theorem reassemble_find_ne (hk : k ≠ Packet.key p)
    (h : L.find (reassembleUdpFragment L c p).2 k = some x) : L.find c k = some x := by
  have hput : ∀ {x}, L.find (withEntry L c p) k = some x → L.find c k = some x := by
    intro x hx
    unfold withEntry at hx
    split at hx
    · exact hx
    · exact L.find_of_find_put hk hx
  unfold reassembleUdpFragment at h
  dsimp only at h
  generalize hget : L.get (Packet.key p) (withEntry L c p) = got at h
  have hfind : L.find got.2 k = L.find (withEntry L c p) k := by rw [← hget, L.find_get]
  obtain ⟨packet, c₁⟩ := got
  rcases packet with _ | _
  · exact hput (hfind ▸ h)
  simp only at h hfind
  have hc₁ : L.find c₁ k = some x → L.find c k = some x := fun hx => hput (hfind ▸ hx)
  iterate 2
    split at h
    · rw [L.find_pop_ne hk] at h
      exact hc₁ h
  split at h
  · rw [L.find_getMut_ne hk] at h
    exact hc₁ h
  have hpop : L.find (L.pop (Packet.key p) (L.getMut (Packet.key p) (receivePacket · p) c₁)).2 k =
      L.find c₁ k := by rw [L.find_pop_ne hk, L.find_getMut_ne hk]
  split at h <;> rename_i hp <;> rw [hp] at hpop <;> exact hc₁ (hpop ▸ h)

theorem reassemble_find_self (h : L.find (reassembleUdpFragment L c p).2 (Packet.key p) = some x) :
    (reassembleUdpFragment L c p).1 = .ok none := by
  have hentry : ∃ packet, L.find (withEntry L c p) (Packet.key p) = some packet := by
    unfold withEntry
    split
    next hc =>
      rw [L.contains_eq] at hc
      exact Option.isSome_iff_exists.mp hc
    · exact ⟨_, L.find_put_self _ _ _⟩
  obtain ⟨packet, hpacket⟩ := hentry
  unfold reassembleUdpFragment at h ⊢
  dsimp only at h ⊢
  generalize hget : L.get (Packet.key p) (withEntry L c p) = got at h ⊢
  have hfst : got.1 = some packet := by rw [← hget, L.get_fst, hpacket]
  obtain ⟨_, c₁⟩ := got
  cases hfst
  simp only at h ⊢
  iterate 2
    split at h
    · rw [L.find_pop_self] at h; cases h
  rename_i hfits
  rw [if_neg hfits]
  split at h
  next hmore => rw [if_pos hmore]
  have hpop := L.find_pop_self (Packet.key p)
    (L.getMut (Packet.key p) (receivePacket · p) c₁)
  split at h <;> rename_i hp <;> rw [hp] at hpop <;> simp only at h hpop <;>
    rw [hpop] at h <;> cases h

theorem prepare_find_ne (hk : k ≠ Packet.key p) (h : L.find (prepareUdpPacket L c p).2 k = some x) :
    L.find c k = some x := by
  unfold prepareUdpPacket at h
  split at h
  · exact h
  split at h
  · exact h
  split at h
  · split at h <;> exact h
  · exact reassemble_find_ne L hk h

theorem prepare_find_self (h : L.find (prepareUdpPacket L c p).2 (Packet.key p) = some x)
    (hkept : (prepareUdpPacket L c p).1 ≠ .ok none) : L.find c (Packet.key p) = some x := by
  unfold prepareUdpPacket at h hkept
  split at h
  · exact h
  rename_i h0
  split at h
  · exact h
  rename_i hid
  split at h
  · split at h <;> exact h
  rename_i h1
  rw [if_neg h0, if_neg hid, if_neg h1] at hkept
  exact absurd (reassemble_find_self L h) hkept

end

end Shoes.Tuic.Reassembly
