import Shoes.Kcptun.Fec
import Shoes.Lib.Machine

/-! # The table of kcptun sessions

`run_server` routes each datagram by the sender's address and the conversation it names. A peer has
one session at a time: a first segment of another conversation takes the place of the old one. A
session that ends sends a notice, which may come late. -/
namespace Shoes.Kcptun.Sessions
open Lib.Assoc Lib.Bytes Lib.Io Lib.Machine Lib.Slots Fec List

variable {P I : Type} [DecidableEq P] [DecidableEq I]

def kcpOverhead : Nat := 24

structure SessionKey (P : Type) where
  peer : P
  conversation : Nat
  deriving DecidableEq

/-- `id` only records which of all the sessions it is. -/
structure SessionEntry where
  generation : UInt64
  id : Nat
  deriving DecidableEq

structure PacketRoute (P : Type) where
  key : SessionKey P
  sequenceNumber : Option Nat
  kcpPacket : Option (List UInt8)

/-- The address of a peer, the cipher, `get_conv` and `get_sn` of the KCP library, the limits. -/
structure Setup (P I : Type) where
  ip : P → I
  decrypt : List UInt8 → Option (List UInt8)
  getConv : List UInt8 → Nat
  getSn : List UInt8 → Nat
  mtu : Nat
  maxSessions : Nat
  maxSessionsPerIp : Nat

def kcpRoute (c : Setup P I) (peer : P) (packet : List UInt8) : PacketRoute P :=
  ⟨⟨peer, c.getConv packet⟩, some (c.getSn packet), some packet⟩

def routePacket (c : Setup P I) (packet : List UInt8) (peer : P) (activePeer : Map P Nat) :
    Except IoError (Option (PacketRoute P)) :=
  if packet.length < fecHeaderSize then .error (invalidData "truncated Kcptun packet")
  else
    let fecType := leNat (slice packet 4 6)
    if fecType = fecTypeData then
      if packet.length < fecDataHeaderSize + kcpOverhead then
        .error (invalidData "truncated Kcptun FEC data packet")
      else .ok (some (kcpRoute c peer (packet.drop fecDataHeaderSize)))
    else if fecType = fecTypeParity then
      .ok ((activePeer.get peer).map fun conversation => ⟨⟨peer, conversation⟩, none, none⟩)
    else if fecType = fecTypeOob then .ok none
    else if packet.length < kcpOverhead then .error (invalidData "truncated Kcptun KCP packet")
    else .ok (some (kcpRoute c peer packet))

/-- The loop of `validate_kcp_packet`; a segment is never empty. -/
def validateSegments (conversation : Nat) : Nat → Nat → List UInt8 → Except IoError Unit
  | 0, _, _ => .ok ()
  | fuel + 1, segments, remaining =>
    if remaining = [] then .ok ()
    else if remaining.length < kcpOverhead then .error (invalidData "truncated KCP segment")
    else if leNat (remaining.take 4) ≠ conversation then
      .error (invalidData "KCP conversation mismatch")
    else if ¬(81 ≤ remaining.getD 4 0 ∧ remaining.getD 4 0 ≤ 84) then
      .error (invalidData "unsupported KCP command")
    else
      let segmentLen := kcpOverhead + leNat (slice remaining 20 24)
      if remaining.length < segmentLen then .error (invalidData "truncated KCP segment payload")
      else if segments + 1 > 256 then
        .error (invalidData "too many KCP segments in one datagram")
      else validateSegments conversation fuel (segments + 1) (remaining.drop segmentLen)

def validateKcpPacket (packet : List UInt8) (conversation : Nat) : Except IoError Unit :=
  validateSegments conversation (packet.length + 1) 0 packet

structure SessionTable (P I : Type) where
  sessions : Map (SessionKey P) SessionEntry
  activePeer : Map P Nat
  perIp : Map I Nat

/-- The counter slot is dropped at zero. -/
def lower (perIp : Map I Nat) (i : I) : Map I Nat :=
  match perIp.get i with
  | none => perIp
  | some n => if n - 1 = 0 then perIp.remove i else perIp.insert i (n - 1)

namespace SessionTable
variable (ip : P → I) (t : SessionTable P I) (key : SessionKey P)

def sessionsForIp (i : I) : Nat := (t.perIp.get i).getD 0

def insert (entry : SessionEntry) : SessionTable P I where
  sessions := t.sessions.insert key entry
  perIp := if t.sessions.contains key then t.perIp
    else t.perIp.insert (ip key.peer) (t.sessionsForIp (ip key.peer) + 1)
  activePeer := t.activePeer.insert key.peer key.conversation

def remove : SessionTable P I :=
  if t.sessions.contains key then
    { sessions := t.sessions.remove key
      perIp := lower t.perIp (ip key.peer)
      activePeer := if t.activePeer.get key.peer = some key.conversation then
          t.activePeer.remove key.peer else t.activePeer }
  else t

def forgetPeer (peer : P) : SessionTable P I := { t with activePeer := t.activePeer.remove peer }

def countFrom (i : I) : Nat := t.sessions.entries.countP (ip ·.1.peer = i)

end SessionTable

/-- `opened` only records the sessions there have been, as their notices name them. -/
structure Server (P I : Type) where
  table : SessionTable P I
  activeSessions : Nat
  generation : UInt64
  opened : List (SessionKey P × UInt64)

inductive Event (P : Type)
  | datagram (peer : P) (packet : List UInt8)
  /-- The notice of a session, at any time after it was opened. -/
  | closed (id : Nat)

namespace Server
variable (c : Setup P I) (s : Server P I)

def new : Server P I := ⟨⟨.empty, .empty, .empty⟩, 0, 0, []⟩

def evict (peer : P) (current : Nat) : Server P I :=
  { s with
    table := (s.table.remove c.ip ⟨peer, current⟩).forgetPeer peer
    activeSessions := if s.table.sessions.contains ⟨peer, current⟩ then s.activeSessions - 1
      else s.activeSessions }

/-- A new channel has room for the first packet. -/
def openSession (key : SessionKey P) : Server P I where
  table := s.table.insert c.ip key ⟨s.generation + 1, s.opened.length⟩
  activeSessions := s.activeSessions + 1
  generation := s.generation + 1
  opened := s.opened ++ [(key, s.generation + 1)]

/-- A datagram that is not for another conversation than the peer's. -/
def admitPacket (route : PacketRoute P) : Server P I :=
  -- passed on to the session
  if s.table.sessions.contains route.key then s
  else if s.table.sessions.size ≥ c.maxSessions ∨
    s.table.sessionsForIp (c.ip route.key.peer) ≥ c.maxSessionsPerIp then s
  else match route.kcpPacket with
    | none => s
    | some kcpPacket =>
      match validateKcpPacket kcpPacket route.key.conversation with
      | .error _ => s
      | .ok () => s.openSession c route.key

def follow (route : PacketRoute P) : Server P I :=
  match s.table.activePeer.get route.key.peer with
  | none => s.admitPacket c route
  | some current =>
    if current = route.key.conversation then s.admitPacket c route
    else if route.sequenceNumber = some 0 then
      (s.evict c route.key.peer current).admitPacket c route
    else s

/-- What a datagram holds and where it goes, unless it is dropped. -/
def routed (peer : P) (packet : List UInt8) : Option (List UInt8 × PacketRoute P) :=
  if packet.length > c.mtu then none
  else (c.decrypt packet).bind fun plaintext =>
    match routePacket c plaintext peer s.table.activePeer with
    | .ok route => route.map (plaintext, ·)
    | .error _ => none

/-- A turn of `run_server`, and the session that a notice removed. -/
def step (s : Server P I) : Event P → Option Nat × Server P I
  | .datagram peer packet => (none, (s.routed c peer packet).elim s fun r => s.follow c r.2)
  | .closed id =>
    match s.opened[id]? with
    | none => (none, s)
    | some (key, generation) =>
      match s.table.sessions.get key with
      | none => (none, s)
      | some entry =>
        if entry.generation = generation then
          (some entry.id,
            { s with table := s.table.remove c.ip key, activeSessions := s.activeSessions - 1 })
        else (none, s)

end Server

/-! ## The books -/

namespace SessionTable
variable {ip : P → I} {t : SessionTable P I} {key : SessionKey P}

/-- The census counts the sessions, and the active conversation is that of the session. -/
structure Books (ip : P → I) (t : SessionTable P I) : Prop where
  census : ∀ i, t.perIp.get i = if t.countFrom ip i = 0 then none else some (t.countFrom ip i)
  active : ∀ peer conversation, t.activePeer.get peer = some conversation ↔
    t.sessions.contains ⟨peer, conversation⟩ = true

theorem Books.sessionsForIp (h : Books ip t) (i) : t.sessionsForIp i = t.countFrom ip i := by
  rw [SessionTable.sessionsForIp, h.census i]
  split_ifs with hi
  · exact hi.symm
  · rfl

omit [DecidableEq I] in
theorem entries_perm (hkey : t.sessions.contains key = true) : ∃ entry,
    t.sessions.entries.Perm ((key, entry) :: (t.sessions.remove key).entries) := by
  obtain ⟨entry, hentry⟩ := Option.isSome_iff_exists.mp hkey
  exact ⟨entry, perm_erase t.sessions.nodup hentry⟩

theorem countFrom_remove (ip) (hkey : t.sessions.contains key = true) (i) :
    t.countFrom ip i = (t.remove ip key).countFrom ip i + if ip key.peer = i then 1 else 0 := by
  obtain ⟨_, hperm⟩ := entries_perm hkey
  rw [countFrom, hperm.countP_eq, countP_cons, remove, if_pos hkey, countFrom]
  simp

theorem size_remove (ip) (hkey : t.sessions.contains key = true) :
    t.sessions.size = (t.remove ip key).sessions.size + 1 := by
  obtain ⟨_, hperm⟩ := entries_perm hkey
  rw [remove, if_pos hkey]
  exact hperm.length_eq

theorem contains_remove (key') : (t.remove ip key).sessions.contains key' = true ↔
    key' ≠ key ∧ t.sessions.contains key' = true := by
  by_cases hkey : t.sessions.contains key = true
  · rw [remove, if_pos hkey, Map.contains, Map.get_remove]
    split_ifs with heq <;> simp [heq, Map.contains]
  rw [remove, if_neg hkey]
  exact ⟨fun h => ⟨fun heq => hkey (heq ▸ h), h⟩, And.right⟩

theorem Books.remove (h : Books ip t) : Books ip (t.remove ip key) := by
  by_cases hkey : t.sessions.contains key = true
  · refine ⟨fun i => ?_, fun peer conversation => ?_⟩
    · have hcount := countFrom_remove ip hkey i
      have hperIp : (t.remove ip key).perIp = lower t.perIp (ip key.peer) := by
        rw [SessionTable.remove, if_pos hkey]
      rw [hperIp, lower]
      by_cases heq : ip key.peer = i
      · rw [if_pos heq] at hcount
        rw [heq, h.census, hcount, if_neg (by omega)]
        simp only [Nat.add_sub_cancel]
        split_ifs <;> simp
      rw [if_neg heq, add_zero] at hcount
      rw [← hcount, ← h.census]
      split
      · rfl
      split_ifs
      · exact t.perIp.get_remove_ne (Ne.symm heq)
      · exact t.perIp.get_insert_ne (Ne.symm heq) _
    · have hactive := (h.active key.peer key.conversation).mpr hkey
      rw [contains_remove, ← h.active, SessionTable.remove, if_pos hkey]
      simp only [hactive, if_true]
      rw [Map.get_remove]
      split_ifs with heq
      · subst heq
        simp only [hactive, Option.some.injEq, false_iff, not_and]
        rintro hne rfl
        exact hne rfl
      · refine ⟨fun hget => ⟨fun hk => heq (congrArg SessionKey.peer hk), hget⟩, And.right⟩
  · rw [SessionTable.remove, if_neg hkey]
    exact h

theorem Books.forgetPeer (h : Books ip t) {peer} (hnone : t.activePeer.get peer = none) :
    Books ip (t.forgetPeer peer) := by
  refine ⟨h.census, fun p conversation => ?_⟩
  change (t.activePeer.remove peer).get p = some conversation ↔ t.sessions.contains _ = true
  rw [← h.active, Map.get_remove]
  split_ifs with heq
  · simp [heq, hnone]
  · rfl

theorem Books.insert (h : Books ip t) (hnone : t.activePeer.get key.peer = none) (entry) :
    Books ip (t.insert ip key entry) ∧ (t.insert ip key entry).sessions.size = t.sessions.size + 1 ∧
    ∀ i, (t.insert ip key entry).countFrom ip i =
      t.countFrom ip i + if ip key.peer = i then 1 else 0 := by
  have hnew (conversation) : ¬t.sessions.contains ⟨key.peer, conversation⟩ = true := by
    simp [← h.active, hnone]
  have hentries : (t.insert ip key entry).sessions.entries = (key, entry) :: t.sessions.entries :=
    congrArg _ (Lib.Assoc.erase_of_not_mem fun hmem => hnew _ (t.sessions.contains_iff.mpr hmem))
  have hcount (i) : (t.insert ip key entry).countFrom ip i =
      t.countFrom ip i + if ip key.peer = i then 1 else 0 := by
    rw [countFrom, hentries, countP_cons]
    simp [countFrom]
  refine ⟨⟨fun i => ?_, fun peer conversation => ?_⟩, congrArg length hentries, hcount⟩
  · rw [hcount, SessionTable.insert, if_neg (hnew _)]
    simp only [Map.get_insert]
    by_cases heq : i = ip key.peer
    · subst heq
      simp [h.sessionsForIp]
    · rw [if_neg heq, if_neg (Ne.symm heq), add_zero, h.census]
  unfold SessionTable.insert Map.contains
  simp only [Map.get_insert]
  by_cases hp : peer = key.peer
  · subst hp
    have hold := hnew conversation
    unfold Map.contains at hold
    obtain ⟨_, current⟩ := key
    by_cases hc : conversation = current
    · simp [hc]
    · simp [hc, hold, Ne.symm hc]
  have hk : ⟨peer, conversation⟩ ≠ key := fun hk => hp (congrArg SessionKey.peer hk)
  rw [if_neg hp, if_neg hk, h.active]
  rfl

end SessionTable

namespace Server
open SessionTable (Books contains_remove countFrom_remove size_remove)
variable {c : Setup P I} {s : Server P I}

/-- The table is exact, and the limits hold. -/
structure Exact (c : Setup P I) (s : Server P I) : Prop extends Books c.ip s.table where
  total : s.table.sessions.size ≤ c.maxSessions
  perIp : ∀ i, s.table.countFrom c.ip i ≤ c.maxSessionsPerIp
  counted : s.activeSessions = s.table.sessions.size

/-- With the numbers that the sessions and their notices bear. -/
structure Sound (c : Setup P I) (s : Server P I) : Prop extends Exact c s where
  generation : s.generation = UInt64.ofNat s.opened.length
  numbered : ∀ i key g, s.opened[i]? = some (key, g) → g = UInt64.ofNat (i + 1)
  entry : ∀ key e, s.table.sessions.get key = some e → s.opened[e.id]? = some (key, e.generation)

section
variable (h : Sound c s)
include h

theorem Sound.remove {key} (hkey : s.table.sessions.contains key = true) :
    Sound c { s with table := s.table.remove c.ip key, activeSessions := s.activeSessions - 1 } where
  toBooks := h.toBooks.remove
  total := by
    have := size_remove c.ip hkey
    have := h.total
    simp only
    omega
  perIp i := by
    have := countFrom_remove c.ip hkey i
    have := h.perIp i
    simp only
    omega
  counted := by
    have := size_remove c.ip hkey
    have := h.counted
    simp only
    omega
  generation := h.generation
  numbered := h.numbered
  entry k e hget := by
    rw [SessionTable.remove, if_pos hkey] at hget
    exact h.entry k e (Map.get_of_remove _ hget).2

theorem Sound.evict {peer current}
    (hactive : s.table.activePeer.get peer = some current) :
    Sound c (s.evict c peer current) ∧ (s.evict c peer current).table.activePeer.get peer = none :=
    by
  have hkey := (h.active peer current).mp hactive
  have hgone := h.remove hkey
  have hnone : (s.table.remove c.ip ⟨peer, current⟩).activePeer.get peer = none := by
    simp [SessionTable.remove, hkey, hactive]
  rw [Server.evict, if_pos hkey]
  exact ⟨{ hgone with toBooks := hgone.toBooks.forgetPeer hnone }, Map.get_remove_self ..⟩

theorem Sound.openSession {key} (hnone : s.table.activePeer.get key.peer = none)
    (htotal : s.table.sessions.size < c.maxSessions)
    (hperIp : s.table.countFrom c.ip (c.ip key.peer) < c.maxSessionsPerIp) :
    Sound c (s.openSession c key) := by
  obtain ⟨hbooks, hsize, hcount⟩ :=
    h.toBooks.insert hnone ⟨s.generation + 1, s.opened.length⟩
  refine ⟨⟨hbooks, ?_, fun i => ?_, ?_⟩, ?_, fun i k g hi => ?_, fun k e hget => ?_⟩
  · exact hsize ▸ htotal
  · have := h.perIp i
    refine (hcount i).trans_le ?_
    split_ifs with heq
    · exact heq ▸ hperIp
    · exact this
  · exact (congrArg (· + 1) h.counted).trans hsize.symm
  · simp [Server.openSession, h.generation]
  · simp only [Server.openSession, getElem?_append] at hi
    split_ifs at hi with hlt
    · exact h.numbered i k g hi
    obtain ⟨hi0, heq⟩ := List.getElem?_eq_some_iff.mp hi
    simp only [length_singleton] at hi0
    have hlen : i = s.opened.length := by omega
    subst hlen
    simp only [Nat.sub_self, getElem_cons_zero, Prod.mk.injEq] at heq
    simp [← heq.2, h.generation]
  simp only [Server.openSession, SessionTable.insert, Map.get_insert] at hget ⊢
  split_ifs at hget with hk
  · cases hget
    simp [hk]
  have hold := h.entry k e hget
  rw [getElem?_append_left (List.getElem?_eq_some_iff.mp hold).1]
  exact hold

theorem Sound.admitPacket {route : PacketRoute P}
    (hnone : s.table.sessions.contains route.key = true ∨
      s.table.activePeer.get route.key.peer = none) : Sound c (s.admitPacket c route) := by
  unfold Server.admitPacket
  split_ifs with hkey hfull
  · exact h
  · exact h
  split
  · exact h
  split
  · exact h
  rw [h.sessionsForIp] at hfull
  exact h.openSession (hnone.resolve_left hkey) (by omega) (by omega)

theorem Sound.follow (route) : Sound c (s.follow c route) := by
  unfold Server.follow
  split
  · next hnone => exact h.admitPacket (.inr hnone)
  rename_i current hactive
  split_ifs with hsame
  · exact h.admitPacket (.inl ((h.active _ _).mp (hsame ▸ hactive)))
  · obtain ⟨hevict, hnone⟩ := h.evict hactive
    exact hevict.admitPacket (.inr hnone)
  · exact h

theorem Sound.step (e) : Sound c (s.step c e).2 := by
  cases e with
  | datagram peer packet =>
    simp only [Server.step]
    cases s.routed c peer packet with
    | none => exact h
    | some r => exact h.follow r.2
  | closed =>
    simp only [Server.step]
    split
    · exact h
    split
    · exact h
    rename_i entry hget
    split_ifs
    · exact h.remove (Option.isSome_of_eq_some hget)
    · exact h

end

theorem sound_new : Sound c (.new : Server P I) where
  census _ := rfl
  active _ _ := by simp [new, Map.contains]
  total := Nat.zero_le _
  perIp _ := Nat.zero_le _
  counted := rfl
  generation := rfl
  numbered := nofun
  entry := nofun

/-- A notice removes the session it is of, while the generations have not come round. -/
theorem Sound.removed (h : Sound c s) (hlen : s.opened.length ≤ 2 ^ 64) {e id}
    (hremoved : (s.step c e).1 = some id) : e = .closed id := by
  cases e with
  | datagram => cases hremoved
  | closed i =>
    simp only [Server.step] at hremoved
    split at hremoved
    · cases hremoved
    rename_i key g hnotice
    split at hremoved
    · cases hremoved
    rename_i entry hget
    split_ifs at hremoved with hg
    cases hremoved
    have hentry := h.entry key entry hget
    have hi := (List.getElem?_eq_some_iff.mp hnotice).1
    have hid := (List.getElem?_eq_some_iff.mp hentry).1
    have hround : UInt64.ofNat (entry.id + 1) = UInt64.ofNat (i + 1) := by
      rw [← h.numbered _ _ _ hentry, ← h.numbered _ _ _ hnotice, hg]
    have := congrArg UInt64.toNat hround
    simp only [UInt64.toNat_ofNat'] at this
    congr 1
    omega

theorem Sound.notices {es} (h : Sound c s)
    (hes : Along (Server.step c) (fun s _ => s.opened.length ≤ 2 ^ 64) s es) :
    ∀ o ∈ outputs (Server.step c) s es, ∀ id, o.2 = some id → o.1 = .closed id := by
  induction es generalizing s with
  | nil => nofun
  | cons e es ih =>
    refine forall_mem_cons.mpr ⟨fun id hid => h.removed hes.1 hid, ih (h.step e) hes.2⟩

/-- **The table stays exact**: the census, the active conversations, the limits and the counter
after every run; and a notice removes no other session than its own as long as at most `2 ^ 64`
sessions were opened. -/
theorem table_exact (c : Setup P I) (es : List (Event P)) : Exact c (after (step c) .new es) ∧
    (∀ k k', (after (step c) .new es).table.sessions.contains k = true →
      (after (step c) .new es).table.sessions.contains k' = true → k.peer = k'.peer → k = k') ∧
    (Along (step c) (fun s _ => s.opened.length ≤ 2 ^ 64) .new es →
      ∀ o ∈ outputs (step c) .new es, ∀ id, o.2 = some id → o.1 = .closed id) := by
  have hstep (s : Server P I) (e) (_ : True) (hs : Sound c s) := hs.step e
  have hall := (along_true (step c) .new es).invariant hstep sound_new
  refine ⟨hall.toExact, fun k k' hk hk' hpeer => ?_, ?_⟩
  · obtain ⟨_, _⟩ := k
    cases hpeer
    cases ((hall.active _ _).mpr hk).symm.trans ((hall.active _ _).mpr hk')
    rfl
  · exact sound_new.notices

/-- A server for one peer. -/
def lone : Setup Unit Unit where
  ip := id
  decrypt := some
  getConv := fun packet => leNat (packet.take 4)
  getSn := fun packet => leNat (slice packet 12 16)
  mtu := 1500
  maxSessions := 1
  maxSessionsPerIp := 1

/-- The first segment of a conversation. -/
def hello (conversation : UInt8) : Event Unit :=
  .datagram () ([conversation, 0, 0, 0, 81] ++ replicate 19 0)

theorem table_exact_late_notice :
    let es := [hello 1, hello 2, .closed 0, .closed 1]
    (outputs (step lone) .new es).map Prod.snd = [none, none, none, some 1] ∧
    ∀ o ∈ outputs (step lone) .new es, ∀ id, o.2 = some id → o.1 = .closed id :=
  ⟨by decide +kernel, (table_exact lone _).2.2 (by decide +kernel)⟩

/-- One session, of the conversation 1. -/
def single (g : UInt64) (opened : List (SessionKey Unit × UInt64)) (id : Nat) : Server Unit Unit :=
  ⟨⟨⟨[(⟨(), 1⟩, ⟨g, id⟩)], nodup_singleton _⟩, ⟨[((), 1)], nodup_singleton _⟩,
    ⟨[((), 1)], nodup_singleton _⟩⟩, 1, g, opened⟩

theorem after_rounds (n) : ∃ opened, opened.length = 2 * n + 1 ∧
    opened[0]? = some (SessionKey.mk () 1, 1) ∧
    after (step lone) .new (hello 1 :: (replicate n [hello 2, hello 1]).flatten) =
      single (UInt64.ofNat (2 * n + 1)) opened (2 * n) := by
  induction n with
  | zero => exact ⟨[(.mk () 1, 1)], rfl, rfl, rfl⟩
  | succ n ih =>
    obtain ⟨opened, hlen, hfirst, hafter⟩ := ih
    generalize hg : UInt64.ofNat (2 * n + 1) = g at hafter
    refine ⟨opened ++ [(.mk () 2, g + 1)] ++ [(.mk () 1, g + 1 + 1)], ?_, ?_, ?_⟩
    · simp [hlen, Nat.mul_add]
    · rw [append_assoc, getElem?_append_left (by omega), hfirst]
    rw [replicate_succ', flatten_append, ← cons_append, after_append, hafter]
    have hlast : (opened ++ [(SessionKey.mk () 2, g + 1)]).length = 2 * (n + 1) := by
      simp [hlen, Nat.mul_add]
    have hround : g + 1 + 1 = UInt64.ofNat (2 * (n + 1) + 1) := by
      rw [show 2 * (n + 1) + 1 = 2 * n + 1 + 1 + 1 by omega, UInt64.ofNat_add, UInt64.ofNat_add, hg]
      rfl
    show single (g + 1 + 1) _ (opened ++ [(SessionKey.mk () 2, g + 1)]).length = _
    rw [hlast]
    exact congrArg (single · _ _) hround

/-- After `2 ^ 64` more sessions the notice of the first one removes the last one. -/
theorem notice_comes_round : (step lone (after (step lone) .new
      (hello 1 :: (replicate (2 ^ 63) [hello 2, hello 1]).flatten)) (.closed 0)).1 =
      some (2 ^ 64) := by
  obtain ⟨opened, -, hfirst, hafter⟩ := after_rounds (2 ^ 63)
  rw [hafter, show UInt64.ofNat (2 * 2 ^ 63 + 1) = 1 from rfl]
  have hnotice : (single 1 opened (2 * 2 ^ 63)).opened[0]? = some (⟨(), 1⟩, 1) := hfirst
  rw [step, hnotice]
  rfl

end Server

end Shoes.Kcptun.Sessions
