import Shoes.Kcptun.FecDecoding
import Shoes.Kcptun.Sessions

/-! # Malformed datagrams

A session takes datagrams from its channel, decodes them and gives KCP what comes out. A datagram
may turn out to be malformed in the router, in the table, in the decoder or in KCP. -/
namespace Shoes.Kcptun.BadDatagrams
open Lib.Assoc Lib.Bytes Lib.Io Lib.Machine Lib.Slots Fec FecDecoding Sessions Server List
  Function

variable {P I : Type} [DecidableEq P] [DecidableEq I]

/-- `pump_kcp_session`, as far as datagrams go. `accepted` records what came into the channel, and
`input` what KCP was given. -/
structure Pump where
  fec : FecDecoder
  inbound : List (List UInt8)
  accepted : List (List UInt8)
  input : List (List UInt8)
  ended : Bool

def decodeTransportPacket (fec : FecDecoder) (packet : List UInt8) :
    Except IoError (List (List UInt8)) × FecDecoder :=
  if packet.length < fecHeaderSize then
    (.error (invalidData "truncated Kcptun transport packet"), fec)
  else
    let packetType := leNat (slice packet 4 6)
    if packetType = fecTypeData ∨ packetType = fecTypeParity then fec.decode packet
    else if packetType = fecTypeOob then (.ok [], fec)
    else (.ok [packet], fec)

/-- A packet is taken; an error of the decoder leaves the loop. -/
def Pump.recv (p : Pump) (conversation : Nat) : Pump :=
  match p.inbound with
  | [] => p
  | packet :: inbound =>
    match decodeTransportPacket p.fec packet with
    | (.error _, fec) => { p with fec, inbound, ended := true }
    | (.ok packets, fec) => { p with
        fec, inbound
        input := p.input ++ packets.filter fun q => (validateKcpPacket q conversation).isOk }

/-- The decoder takes the packet: its header is right, and if it completes a set in which data is
missing, what is recovered is well formed. -/
def acceptable (d : FecDecoder) (packet : List UInt8) : Bool :=
  let packetType := leNat (slice packet 4 6)
  let shard := packet.drop fecHeaderSize
  if packet.length < fecHeaderSize then false
  else if packetType = fecTypeData ∨ packetType = fecTypeParity then
    (route d packet).any fun (setId, index, _) =>
      let entry := d.entry setId
      let whole := grown entry.1 index shard
      d.completed.contains setId || !free entry.1 index || !shard.isEmpty &&
        (decide (whole.present < entry.2.dataShards) || missing entry.2 whole = [] ||
          (entry.2.recover whole (missing entry.2 whole)).isOk)
  else true

/-- What KCP is given for a packet, behind what it was given before. -/
def feed (conversation : Nat) (s : List (List UInt8) × FecDecoder) (packet : List UInt8) :
    List (List UInt8) × FecDecoder :=
  let (result, fec) := decodeTransportPacket s.2 packet
  (s.1 ++ (result.toOption.getD []).filter fun q => (validateKcpPacket q conversation).isOk, fec)

/-- What came into the channel has been taken in order, up to what is still there, and all that it
holds for the conversation was given to KCP. -/
def Delivered (conversation : Nat) (fec : FecDecoder) (p : Pump) : Prop :=
  ∃ taken, p.accepted = taken ++ p.inbound ∧
    (p.input, p.fec) = taken.foldl (feed conversation) ([], fec)

/-- The server, and its sessions by their number. -/
structure World (P I : Type) where
  server : Server P I
  pumps : Nat → Pump

inductive Turn (P : Type)
  | datagram (peer : P) (packet : List UInt8)
  | recv (id : Nat)
  | closed (id : Nat)

namespace World
variable (c : Setup P I) (capacity : Nat)

def new (fec : FecDecoder) : World P I := ⟨.new, fun _ => ⟨fec, [], [], [], false⟩⟩

/-- `try_send` to a session. -/
def send (pumps : Nat → Pump) (id : Nat) (packet : List UInt8) : Nat → Pump :=
  let p := pumps id
  if p.inbound.length < capacity then update pumps id { p with
    inbound := p.inbound ++ [packet]
    accepted := p.accepted ++ [packet] }
  else pumps

def conversation (w : World P I) (id : Nat) : Nat :=
  (w.server.opened[id]?).elim 0 (·.1.conversation)

def step (w : World P I) : Turn P → Unit × World P I
  | .datagram peer packet => ((),
    match w.server.routed c peer packet with
    | none => w
    | some (plaintext, route) =>
      let server := w.server.follow c route
      match server.table.sessions.get route.key with
      | none => { w with server }
      | some entry => ⟨server, send capacity w.pumps entry.id plaintext⟩)
  | .recv id => ((), { w with pumps := update w.pumps id ((w.pumps id).recv (w.conversation id)) })
  | .closed id => ((), { w with server := (w.server.step c (.closed id)).2 })

/-- A first segment of another conversation is well formed. -/
def begins (s : Server P I) (route : PacketRoute P) : Bool :=
  match s.table.activePeer.get route.key.peer with
  | none => true
  | some current => current = route.key.conversation || route.sequenceNumber ≠ some 0 ||
      route.kcpPacket.any fun packet => (validateKcpPacket packet route.key.conversation).isOk

/-- What takes the place of a session may do so, and what a session takes is acceptable. -/
def harmless (w : World P I) : Turn P → Bool
  | .datagram peer packet => (w.server.routed c peer packet).all fun r => begins w.server r.2
  | .recv id => (w.pumps id).inbound.head?.all (acceptable (w.pumps id).fec)
  | .closed _ => true

end World

/-- Every session is still there, or another of its peer was opened just now. -/
def Kept (s s' : Server P I) : Prop :=
  ∀ key entry, s.table.sessions.get key = some entry → s'.table.sessions.get key = some entry ∨
    ∃ key' entry', key'.peer = key.peer ∧ s'.table.sessions.get key' = some entry' ∧
      entry'.id = s.opened.length

variable {c : Setup P I} {s : Server P I} {route : PacketRoute P}

theorem admitPacket_kept {key entry} (h : s.table.sessions.get key = some entry) :
    (s.admitPacket c route).table.sessions.get key = some entry := by
  unfold admitPacket
  split_ifs with hkey
  · exact h
  · exact h
  split
  · exact h
  split
  · exact h
  refine (Map.get_insert_ne _ (fun heq => hkey ?_) _).trans h
  rw [← heq, Map.contains, h]
  rfl

theorem admitPacket_opens {packet} (hnew : ¬s.table.sessions.contains route.key = true)
    (hroom : s.table.sessions.size < c.maxSessions ∧
      s.table.sessionsForIp (c.ip route.key.peer) < c.maxSessionsPerIp)
    (hpacket : route.kcpPacket = some packet)
    (hvalid : (validateKcpPacket packet route.key.conversation).isOk = true) :
    (s.admitPacket c route).table.sessions.get route.key =
      some ⟨s.generation + 1, s.opened.length⟩ := by
  have hfits : ¬(s.table.sessions.size ≥ c.maxSessions ∨
      s.table.sessionsForIp (c.ip route.key.peer) ≥ c.maxSessionsPerIp) := by omega
  rw [admitPacket, if_neg hnew, if_neg hfits, hpacket]
  rcases hv : validateKcpPacket packet route.key.conversation with _ | _
  · rw [hv] at hvalid
    cases hvalid
  simp only [hv]
  exact Map.get_insert_self s.table.sessions ..

/-- The old session has gone, so that there is room for a new one. -/
theorem evict_room (h : Sound c s) {peer current}
    (hactive : s.table.activePeer.get peer = some current) :
    (s.evict c peer current).table.sessions.size < c.maxSessions ∧
      (s.evict c peer current).table.sessionsForIp (c.ip peer) < c.maxSessionsPerIp := by
  have hcontains := (h.active _ _).mp hactive
  have hsize := SessionTable.size_remove c.ip hcontains
  have hcount := SessionTable.countFrom_remove c.ip hcontains (c.ip peer)
  rw [if_pos rfl] at hcount
  have htotal := h.total
  have hperIp := h.perIp (c.ip peer)
  rw [(h.evict hactive).1.sessionsForIp]
  change (s.table.remove c.ip _).sessions.size < c.maxSessions ∧
    (s.table.remove c.ip _).countFrom c.ip _ < c.maxSessionsPerIp
  omega

theorem follow_kept (h : Sound c s) (hbegins : World.begins s route = true) :
    Kept s (s.follow c route) := by
  intro key entry hget
  unfold follow
  split
  · exact .inl (admitPacket_kept hget)
  rename_i current hactive
  split_ifs with hsame hzero
  · exact .inl (admitPacket_kept hget)
  · by_cases hold : key = ⟨route.key.peer, current⟩
    · refine .inr ⟨route.key, ⟨s.generation + 1, s.opened.length⟩, by rw [hold], ?_, rfl⟩
      obtain ⟨hevict, hnone⟩ := h.evict hactive
      have hnew : ¬(s.evict c route.key.peer current).table.sessions.contains route.key = true := by
        have hkey := hevict.active route.key.peer route.key.conversation
        rw [hnone] at hkey
        exact fun hcontains => by cases hkey.mpr hcontains
      simp only [World.begins, hactive, hsame, hzero] at hbegins
      obtain ⟨packet, hpacket, hvalid⟩ : ∃ packet, route.kcpPacket = some packet ∧
          (validateKcpPacket packet route.key.conversation).isOk = true := by
        simpa [Option.any_eq_true] using hbegins
      exact admitPacket_opens hnew (evict_room h hactive) hpacket hvalid
    · refine .inl (admitPacket_kept ?_)
      change (s.table.remove c.ip _).sessions.get key = some entry
      rw [SessionTable.remove, if_pos ((h.active _ _).mp hactive)]
      exact (Map.get_remove_ne _ hold).trans hget
  · exact .inl hget

namespace World
variable {capacity : Nat} {w : World P I} {fec d : FecDecoder} {packet : List UInt8}

theorem follow_opened (s : Server P I) (route) : s.opened <+: (s.follow c route).opened := by
  unfold follow admitPacket
  repeat' split
  all_goals first | exact prefix_rfl | exact prefix_append ..

/-- The sessions go on, and none is ahead of its opening. -/
structure Going (c : Setup P I) (fec : FecDecoder) (w : World P I) : Prop where
  sound : Sound c w.server
  running : ∀ id, (w.pumps id).ended = false
  delivered : ∀ id, Delivered (w.conversation id) fec (w.pumps id)
  unopened : ∀ id, w.server.opened.length ≤ id → (w.pumps id).accepted = []

theorem decodeTransportPacket_ok (h : acceptable d packet = true) :
    ∃ packets fec, decodeTransportPacket d packet = (.ok packets, fec) := by
  unfold acceptable at h
  unfold decodeTransportPacket
  dsimp only at h ⊢
  split_ifs at h ⊢ with hlen hfec
  · obtain ⟨_, hnone, -⟩ | ⟨setId, index, result, hroute, hdecode, -⟩ := decode_route d packet
    · rw [hnone] at h
      cases h
    rw [hdecode]
    split_ifs with hcompleted
    · exact ⟨_, _, rfl⟩
    have hinserted := insertShard_inserted d setId index (packet.drop fecHeaderSize) result
    generalize d.insertShard setId index (packet.drop fecHeaderSize) result = out at hinserted
    simp only [hroute, hcompleted, Option.any_some] at h
    cases hinserted with
    | empty hfree hnil => simp [hfree, hnil] at h
    | failed hfree _ hmany hlacks e hrecover =>
      simp [hfree, hmany, hlacks, hrecover, Except.isOk, Except.toBool] at h
    | _ => exact ⟨_, _, rfl⟩
  all_goals exact ⟨_, _, rfl⟩

theorem recv_delivers {p : Pump} {conversation fec} (h : p.ended = false)
    (hp : Delivered conversation fec p) (hok : p.inbound.head?.all (acceptable p.fec) = true) :
    (p.recv conversation).ended = false ∧ Delivered conversation fec (p.recv conversation) ∧
      (p.recv conversation).accepted = p.accepted := by
  unfold Pump.recv
  split
  · exact ⟨h, hp, rfl⟩
  rename_i packet inbound hinbound
  rw [hinbound] at hok
  obtain ⟨packets, fec', hdecode⟩ := decodeTransportPacket_ok hok
  obtain ⟨taken, haccepted, hfeed⟩ := hp
  rw [hdecode]
  refine ⟨h, ⟨taken ++ [packet], ?_, ?_⟩, rfl⟩
  · rw [haccepted, hinbound, append_assoc]
    rfl
  · rw [foldl_append, ← hfeed]
    simp [feed, hdecode, Except.toOption]

theorem Going.follow (h : Going c fec w) (route) :
    Going c fec { w with server := w.server.follow c route } := by
  obtain ⟨more, hmore⟩ := follow_opened w.server route
  refine ⟨h.sound.follow route, h.running, fun id => ?_, fun id hid => h.unopened id ?_⟩
  · by_cases hid : id < w.server.opened.length
    · have hsame : World.conversation { w with server := w.server.follow c route } id =
          w.conversation id := by
        rw [World.conversation, ← hmore, getElem?_append_left hid]
        rfl
      exact hsame ▸ h.delivered id
    -- nothing has come for it, so that its conversation does not matter
    obtain ⟨taken, haccepted, hfeed⟩ := h.delivered id
    have hnothing := haccepted.symm.trans (h.unopened id (not_lt.mp hid))
    obtain ⟨rfl, hnil⟩ := append_eq_nil_iff.mp hnothing
    exact ⟨[], haccepted, hfeed⟩
  · rw [← hmore, length_append] at hid
    omega

theorem Going.send (h : Going c fec w) {id} (hid : id < w.server.opened.length) (packet) :
    Going c fec { w with pumps := World.send capacity w.pumps id packet } := by
  unfold World.send
  dsimp only
  split_ifs
  swap
  · exact h
  refine ⟨h.sound, fun i => ?_, fun i => ?_, fun i hi => ?_⟩ <;> simp only [update_apply]
  · split_ifs
    · exact h.running id
    · exact h.running i
  · split_ifs with heq
    · obtain ⟨taken, haccepted, hfeed⟩ := h.delivered i
      subst heq
      exact ⟨taken, by rw [haccepted, append_assoc], hfeed⟩
    · exact h.delivered i
  · rw [if_neg (hid.trans_le hi).ne']
    exact h.unopened i hi

theorem Going.step (h : Going c fec w) {t} (ht : w.harmless c t = true) :
    Going c fec (w.step c capacity t).2 ∧
    ((∀ id, t ≠ .closed id) → Kept w.server (w.step c capacity t).2.server) := by
  have hsame : Kept w.server w.server := fun _ _ hget => .inl hget
  cases t with
  | datagram peer packet =>
    simp only [World.step]
    simp only [harmless] at ht
    rcases hrouted : w.server.routed c peer packet with _ | r
    · exact ⟨h, fun _ => hsame⟩
    obtain ⟨plaintext, route⟩ := r
    rw [hrouted] at ht
    have hkept := follow_kept h.sound ht
    have hfollow := h.follow route
    simp only
    split
    · exact ⟨hfollow, fun _ => hkept⟩
    rename_i entry hget
    have hentry := hfollow.sound.entry _ _ hget
    exact ⟨hfollow.send (List.getElem?_eq_some_iff.mp hentry).1 plaintext, fun _ => hkept⟩
  | recv id =>
    obtain ⟨hended, hdelivered, haccepted⟩ := recv_delivers (h.running id) (h.delivered id) ht
    refine ⟨⟨h.sound, fun i => ?_, fun i => ?_, fun i hi => ?_⟩, fun _ => hsame⟩ <;>
      simp only [World.step, update_apply] <;> split_ifs with heq
    · exact hended
    · exact h.running i
    · exact heq ▸ hdelivered
    · exact h.delivered i
    · exact haccepted.trans (heq ▸ h.unopened i hi)
    · exact h.unopened i hi
  | closed id =>
    have hopened : (w.server.step c (.closed id)).2.opened = w.server.opened := by
      simp only [Server.step]
      repeat' split
      all_goals rfl
    refine ⟨⟨h.sound.step _, h.running, fun i => ?_, fun i hi => h.unopened i (hopened ▸ hi)⟩,
      fun hne => absurd rfl (hne id)⟩
    have hdelivered := h.delivered i
    rw [World.conversation, ← hopened] at hdelivered
    exact hdelivered

def decoder : FecDecoder :=
  ⟨⟨fun _ => .ok [], fun _ => .ok []⟩, 2, 3, Fec.sequenceLimit 3, 1500, 64, 0, .empty, [], []⟩

end World
end Shoes.Kcptun.BadDatagrams
