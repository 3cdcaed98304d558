import Shoes.UdpStream.Codecs
import Shoes.Lib.Machine

/-! # Datagrams over a stream: the writing side

A message is staged as one frame and leaves as the transport takes it, and only then the next one is
staged. So what the transport has taken and what is still staged are the frames of the accepted
messages. -/
namespace Shoes.UdpStream.Writer
open Lib.Bytes Lib.Io Lib.AsyncRead Lib.IpText Lib.Ipv6Text List
open Lib.Machine Net.Location Reader Codecs

/-! ## Staging a frame -/

def writeUotAddress : SocketAddr → List UInt8
  | .v4 ip port => 0x00 :: (ip.octets ++ u16ToBeBytes port)
  | .v6 ip port => 0x01 :: (ip.octets ++ u16ToBeBytes port)

def uotAddrLen : SocketAddr → Nat
  | .v4 .. => 7
  | .v6 .. => 19

def uotFrame (payload : List UInt8) (source : SocketAddr) : Except IoError (List UInt8) :=
  let totalLen := uotAddrLen source + 2 + payload.length
  if totalLen > Kind.uot.bufferSize then
    .error (IoError.other s!"packet-address frame too large: {totalLen} > {Kind.uot.bufferSize}")
  else
    .ok (writeUotAddress source ++ u16ToBeBytes (UInt16.ofNat payload.length) ++ payload)

/-- `write_trojan_packet_address` into a buffer of the given size. -/
def writeTrojanPacketAddress (size : Nat) (location : NetLocation) : Except IoError (List UInt8) :=
  match location.address with
  | .ipv4 ip =>
    if size < 7 then .error ⟨.invalidInput, "buffer too small for Trojan IPv4 address"⟩
    else .ok (0x01 :: (ip.octets ++ u16ToBeBytes location.port))
  | .ipv6 ip =>
    if size < 19 then .error ⟨.invalidInput, "buffer too small for Trojan IPv6 address"⟩
    else .ok (0x04 :: (ip.octets ++ u16ToBeBytes location.port))
  | .hostname host =>
    if host.bytes.length > 255 then
      .error ⟨.invalidInput, s!"Trojan hostname too long: {host.bytes.length}"⟩
    else if size < 2 + host.bytes.length + 2 then
      .error ⟨.invalidInput, "buffer too small for Trojan domain address"⟩
    else
      .ok (0x03 :: UInt8.ofNat host.bytes.length :: (host.bytes ++ u16ToBeBytes location.port))

def trojanMaxUdpPayloadLen : Nat := 65535

/-- The frame that `queue_packet` stages. -/
def queuePacket (payload : List UInt8) (target : NetLocation) : Except IoError (List UInt8) :=
  if payload.length > trojanMaxUdpPayloadLen then
    .error ⟨.invalidInput,
      s!"Trojan UDP payload too large: {payload.length} > {trojanMaxUdpPayloadLen}"⟩
  else match writeTrojanPacketAddress Kind.trojan.bufferSize target with
    | .error e => .error e
    | .ok address =>
      let totalLen := address.length + 2 + crlfBytes.length + payload.length
      if totalLen > Kind.trojan.bufferSize then
        .error ⟨.invalidInput,
          s!"Trojan UDP frame too large: {totalLen} > {Kind.trojan.bufferSize}"⟩
      else
        .ok (address ++ u16ToBeBytes (UInt16.ofNat payload.length) ++ crlfBytes ++ payload)

def stage : Kind → List UInt8 → SocketAddr → Except IoError (List UInt8)
  | .uot, payload, source => uotFrame payload source
  | .trojan, payload, source => queuePacket payload source.location

theorem writeUotAddress_eq (source) :
    writeUotAddress source = encodeAddress uotFormat source.location := by
  cases source <;> rfl

theorem writeTrojanPacketAddress_eq (source : SocketAddr) :
    writeTrojanPacketAddress Kind.trojan.bufferSize source.location =
      .ok (encodeAddress trojanFormat source.location) := by
  cases source <;> rfl

theorem encodeAddress_length_le (f) (source : SocketAddr) :
    (encodeAddress f source.location).length ≤ 19 := by
  cases source with
  | v4 => simp [SocketAddr.location, encodeAddress_ipv4]
  | v6 => simp [SocketAddr.location, encodeAddress_ipv6]

/-- **Every datagram can be staged**, as the frame the reader expects. -/
theorem stage_eq (k : Kind) (hpayload : payload.length ≤ 65507) (source : SocketAddr) :
    stage k payload source = .ok (k.encode ⟨source.location, payload⟩) := by
  have hlen := encodeAddress_length_le k.format source
  cases k with
  | uot =>
    have hsize : Kind.uot.bufferSize = 65535 := rfl
    have haddr : uotAddrLen source ≤ 19 := by cases source <;> simp [uotAddrLen]
    rw [stage, uotFrame, if_neg (by omega), writeUotAddress_eq]
    simp [Kind.encode, encodeFrame, Kind.delimiter, Kind.format]
  | trojan =>
    have hsize : Kind.trojan.bufferSize = 65797 := rfl
    have hcrlf : crlfBytes.length = 2 := rfl
    have hmax : ¬ payload.length > trojanMaxUdpPayloadLen := by
      unfold trojanMaxUdpPayloadLen
      omega
    rw [stage, queuePacket, if_neg hmax, writeTrojanPacketAddress_eq]
    dsimp only [Kind.format] at hlen ⊢
    rw [if_neg (by omega)]
    simp [Kind.encode, encodeFrame, Kind.delimiter, Kind.format]

/-! ## Calls -/

/-- What the transport does when it is offered bytes: it takes some of them, is not ready, or
fails. -/
inductive Answer
  | takes (n : Nat)
  | pending
  | failed (e : IoError)
  deriving DecidableEq

/-- The staged frame and how much of it is sent. `wire` records what the transport has taken. -/
structure Sender where
  writeBuf : List UInt8
  sent : Nat
  wire : List UInt8
  deriving DecidableEq

def Sender.remaining (s : Sender) : List UInt8 := s.writeBuf.drop s.sent

inductive Outcome
  | ready
  | pending
  | failed (e : IoError)
  deriving DecidableEq

def writeZero : Kind → IoError
  | .uot => ⟨.writeZero, "failed to write packet-address frame"⟩
  | .trojan => ⟨.writeZero, "failed to write Trojan UDP frame"⟩

/-- The loop that sends the staged frame. -/
def flushPending (k : Kind) : List Answer → Sender → Outcome × Sender
  | answers, s =>
    if s.sent ≥ s.writeBuf.length then (.ready, { s with writeBuf := [], sent := 0 })
    else match answers with
      | [] => (.pending, s)
      | .pending :: _ => (.pending, s)
      | .failed e :: _ => (.failed e, s)
      | .takes n :: answers =>
        let taken := s.remaining.take n
        if taken.length = 0 then (.failed (writeZero k), s)
        else flushPending k answers
          { s with sent := s.sent + taken.length, wire := s.wire ++ taken }

def pollWriteSourcedMessage (k : Kind) (answers : List Answer) (payload : List UInt8)
    (source : SocketAddr) (s : Sender) : Outcome × Sender :=
  match flushPending k answers s with
  | (.ready, s) =>
    match stage k payload source with
    | .error e => (.failed e, s)
    | .ok frame => (.ready, { s with writeBuf := frame, sent := 0 })
  | (outcome, s) => (outcome, s)

inductive Call
  | write (source : SocketAddr) (payload : List UInt8) (answers : List Answer)
  | flush (answers : List Answer)
  deriving DecidableEq

structure Session where
  sender : Sender
  accepted : List Message
  deriving DecidableEq

def Session.new : Session := ⟨⟨[], 0, []⟩, []⟩

def step (k : Kind) (s : Session) : Call → Outcome × Session
  | .write source payload answers =>
    match pollWriteSourcedMessage k answers payload source s.sender with
    | (.ready, sender) => (.ready, ⟨sender, s.accepted ++ [⟨source.location, payload⟩]⟩)
    | (outcome, sender) => (outcome, ⟨sender, s.accepted⟩)
  | .flush answers =>
    let (outcome, sender) := flushPending k answers s.sender
    (outcome, ⟨sender, s.accepted⟩)

/-! ## Nothing is lost and nothing comes twice -/

variable (k : Kind)

theorem flushPending_spec (answers) : ∀ s : Sender,
      (flushPending k answers s).2.wire ++ (flushPending k answers s).2.remaining =
          s.wire ++ s.remaining ∧
        ((flushPending k answers s).1 = .ready → (flushPending k answers s).2.remaining = []) := by
  induction answers with
  | nil =>
    intro s
    unfold flushPending
    split
    next h =>
      refine ⟨?_, fun _ => rfl⟩
      rw [Sender.remaining, Sender.remaining, drop_of_length_le h]
      rfl
    · exact ⟨rfl, nofun⟩
  | cons a answers ih =>
    intro s
    unfold flushPending
    split
    next h =>
      refine ⟨?_, fun _ => rfl⟩
      rw [Sender.remaining, Sender.remaining, drop_of_length_le h]
      rfl
    cases a with
    | pending | failed => exact ⟨rfl, nofun⟩
    | takes n =>
      dsimp only
      split
      · exact ⟨rfl, nofun⟩
      obtain ⟨hkept, hready⟩ := ih { s with
        sent := s.sent + (s.remaining.take n).length, wire := s.wire ++ s.remaining.take n }
      refine ⟨?_, hready⟩
      rw [hkept, append_assoc]
      refine congrArg (s.wire ++ ·) ?_
      show s.remaining.take n ++ s.writeBuf.drop (s.sent + (s.remaining.take n).length) = _
      rw [← drop_drop]
      exact prefix_iff_eq_append.mp (List.take_prefix n s.remaining)

/-- The transport neither fails nor refuses. -/
def Steady (answers : List Answer) : Prop := ∀ a ∈ answers, ∃ n, a = .takes (n + 1) ∨ a = .pending

theorem flushPending_steady (answers) :
    ∀ s : Sender, Steady answers → ∀ e, (flushPending k answers s).1 ≠ .failed e := by
  induction answers with
  | nil =>
    intro s _ e
    unfold flushPending
    split <;> nofun
  | cons a answers ih =>
    intro s hsteady e
    obtain ⟨⟨n, ha⟩, hrest⟩ := forall_mem_cons.mp hsteady
    unfold flushPending
    split
    · nofun
    rename_i hsent
    rcases ha with rfl | rfl
    swap
    · nofun
    have hroom : (s.remaining.take (n + 1)).length ≠ 0 := by
      rw [Sender.remaining, length_take, length_drop]
      omega
    dsimp only
    rw [if_neg hroom]
    exact ih _ hrest e

/-- What the transport has taken and what is staged are the frames of the accepted messages. -/
def Written (k : Kind) (s : Session) : Prop :=
  s.sender.wire ++ s.sender.remaining = s.accepted.flatMap k.encode

def Datagram (m : Message) : Prop :=
  m.payload.length ≤ 65507 ∧ ∃ source : SocketAddr, m.target = source.location

structure Inv (k : Kind) (s : Session) : Prop where
  written : Written k s
  datagrams : ∀ m ∈ s.accepted, Datagram m

def PayloadFits : Session → Call → Prop
  | _, .write _ payload _ => payload.length ≤ 65507
  | _, .flush _ => True

/-- **A call keeps what is written in step with what was accepted.** -/
theorem step_inv (s c) (hc : PayloadFits s c) (h : Inv k s) : Inv k (step k s c).2 := by
  obtain ⟨hwritten, hdatagrams⟩ := h
  cases c with
  | flush answers =>
    obtain ⟨hkept, -⟩ := flushPending_spec k answers s.sender
    exact ⟨hkept.trans hwritten, hdatagrams⟩
  | write source payload answers =>
    obtain ⟨hkept, hready⟩ := flushPending_spec k answers s.sender
    simp only [step, pollWriteSourcedMessage, stage_eq k (show payload.length ≤ 65507 from hc)]
    generalize flushPending k answers s.sender = r at hkept hready ⊢
    obtain ⟨outcome, _⟩ := r
    cases outcome with
    | ready =>
      have hempty := hready rfl
      rw [hempty, append_nil] at hkept
      refine ⟨?_, ?_⟩
      · rw [Written, flatMap_append, flatMap_singleton, ← hwritten, ← hkept]
        rfl
      intro m hm
      rcases mem_append.mp hm with hm | hm
      · exact hdatagrams m hm
      obtain rfl := mem_singleton.mp hm
      exact ⟨hc, source, rfl⟩
    | pending | failed => exact ⟨hkept.trans hwritten, hdatagrams⟩

theorem Datagram.wellFormed (h : Datagram m) (f : AddressFormat) :
    f.WellFormed m ∧ f.decode m = m := by
  obtain ⟨hpayload, source, htarget⟩ := h
  obtain ⟨_, _⟩ := m
  cases htarget
  cases source with
  | v4 | v6 => exact ⟨⟨trivial, ⟨_, rfl⟩, hpayload⟩, rfl⟩

theorem step_steady (s source) (hpayload : payload.length ≤ 65507) (hsteady : Steady answers) (e) :
    (step k s (.write source payload answers)).1 ≠ .failed e := by
  have hflush := flushPending_steady k answers s.sender hsteady e
  simp only [step, pollWriteSourcedMessage, stage_eq k hpayload]
  generalize flushPending k answers s.sender = r at hflush ⊢
  obtain ⟨outcome, _⟩ := r
  cases outcome with
  | ready | pending => nofun
  | failed => exact hflush

/-! ## Framing -/

/-- Each frame that the reader has to wait for fits into its buffer behind the bytes that are
still in front of it. -/
def Fits (k : Kind) (frames : List Message) (script : List Item) : Prop :=
  NeverFull k.bufferSize 0 0 (frames.map fun m => (k.encode m).length) script

variable (k : Kind)

theorem flatMap_length (frames : List Message) : (frames.flatMap k.encode).length =
      (frames.map fun m => (k.encode m).length).foldr (· + ·) 0 := by
  induction frames with
  | nil => rfl
  | cons m frames ih => simp [ih]

/-- Trojan passes over frames without payload. -/
def Seen (m : Message) : Prop := k = .trojan → m.payload ≠ []

instance (m : Message) : Decidable (Seen k m) := inferInstanceAs (Decidable (_ → _))

theorem reads (hwf : ∀ m ∈ frames, k.format.WellFormed m)
    (hstream : scriptBytes script = frames.flatMap k.encode) :
    (Fits k frames script →
      messages k.protocol script = (k.protocol.visible (frames.map k.format.decode), none)) ∧
    (¬Fits k frames script → (messages k.protocol script).2 = some k.protocol.bufferFull) := by
  obtain ⟨hok, hfull⟩ := messages_reads k.lawful hwf hstream
  cases k <;> exact ⟨hok, hfull⟩

theorem visible_iff (frames : List Message) : k.protocol.visible (frames.map k.format.decode) =
    frames.map k.format.decode ↔ ∀ m ∈ frames, Seen k m := by
  rw [Protocol.visible, filter_eq_self]
  simp only [mem_map, forall_exists_index, and_imp, forall_apply_eq_imp_iff₂]
  refine forall₂_congr fun m _ => ?_
  cases k <;> simp [Kind.protocol, Seen, decode_payload]

theorem read_iff (hwf : ∀ m ∈ frames, k.format.WellFormed m)
    (hstream : scriptBytes script = frames.flatMap k.encode) :
    messages k.protocol script = (frames.map k.format.decode, none) ↔
      Fits k frames script ∧ ∀ m ∈ frames, Seen k m := by
  obtain ⟨hok, hfull⟩ := reads k hwf hstream
  by_cases hfits : Fits k frames script
  · rw [hok hfits, Prod.mk.injEq, visible_iff]
    simp [hfits]
  · refine ⟨fun h => ?_, fun h => absurd h.1 hfits⟩
    have herror := hfull hfits
    rw [h] at herror
    cases herror

theorem fits_of_short (hshort : ∀ m ∈ frames, compactThreshold + (k.encode m).length ≤ k.bufferSize)
    (hstream : scriptBytes script = frames.flatMap k.encode) : Fits k frames script := by
  refine NeverFull.of_short _ _ 0 0 script ?_ ?_ le_rfl
  · intro len hlen
    obtain ⟨m, hm, rfl⟩ := mem_map.mp hlen
    exact hshort m hm
  · rw [hstream, flatMap_length, zero_add]

/-- **Framing does not depend on how the stream is cut**, exactly as long as each frame that the
reader waits for fits behind the consumed bytes in front of it, and Trojan has no empty payload. -/
theorem udp_framing_independent_of_chunking (k : Kind) :
    (∀ frames script, (∀ m ∈ frames, k.format.WellFormed m) →
      scriptBytes script = frames.flatMap k.encode →
      (messages k.protocol script = (frames.map k.format.decode, none) ↔
        Fits k frames script ∧ ∀ m ∈ frames, Seen k m)) ∧
    (∀ calls, Along (step k) PayloadFits .new calls →
      (after (step k) .new calls).sender.remaining = [] →
      ∀ script, scriptBytes script = (after (step k) .new calls).sender.wire →
        (messages k.protocol script = ((after (step k) .new calls).accepted, none) ↔
          Fits k (after (step k) .new calls).accepted script ∧
            ∀ m ∈ (after (step k) .new calls).accepted, Seen k m)) ∧
    (∀ s source payload answers, payload.length ≤ 65507 → Steady answers →
      ∀ e, (step k s (.write source payload answers)).1 ≠ .failed e) ∧
    (∀ frames script, (∀ m ∈ frames, compactThreshold + (k.encode m).length ≤ k.bufferSize) →
      scriptBytes script = frames.flatMap k.encode → Fits k frames script) := by
  refine ⟨?_, ?_, ?_, ?_⟩
  · intro frames script hwf hstream
    exact read_iff k hwf hstream
  · intro calls hcalls hsent script hwire
    obtain ⟨hwritten, hdatagrams⟩ := hcalls.invariant (step_inv k) ⟨rfl, nofun⟩
    rw [Written, hsent, append_nil] at hwritten
    have hsame : ∀ m ∈ (after (step k) .new calls).accepted, k.format.decode m = id m :=
      fun m hm => ((hdatagrams m hm).wellFormed k.format).2
    have hread := read_iff k (fun m hm => ((hdatagrams m hm).wellFormed k.format).1)
      (hwire.trans hwritten)
    rwa [map_congr_left hsame, map_id] at hread
  · intro s source payload answers hpayload hsteady e
    exact step_steady k s source hpayload hsteady e
  intro frames script hshort hstream
  exact fits_of_short k hshort hstream

/-- Two frames in three reads that are cut inside them, and two messages written in pieces. -/
theorem udp_framing_independent_of_chunking_cut : messages Kind.uot.protocol
        [.bytes 0 [10, 0, 0], .pending false, .bytes 1 [0, 53, 0, 2, 7, 8, 0, 10, 0],
          .bytes 0 [2, 0, 53, 0, 1, 9]] =
      ([⟨⟨.ipv4 ⟨10, 0, 0, 1⟩, 53⟩, [7, 8]⟩, ⟨⟨.ipv4 ⟨10, 0, 0, 2⟩, 53⟩, [9]⟩], none) ∧
    messages Kind.trojan.protocol [.bytes 1 [10, 0, 0, 1], .bytes 0 [53, 0, 1, 13, 10],
          .bytes 9 [1, 10, 0, 0, 2], .bytes 0 [53, 0, 1, 13, 10, 8]] =
      ([⟨⟨.ipv4 ⟨10, 0, 0, 1⟩, 53⟩, [9]⟩, ⟨⟨.ipv4 ⟨10, 0, 0, 2⟩, 53⟩, [8]⟩], none) := by
  refine ⟨?_, ?_⟩
  · refine ((udp_framing_independent_of_chunking .uot).1 [⟨⟨.ipv4 ⟨10, 0, 0, 1⟩, 53⟩, [7, 8]⟩,
      ⟨⟨.ipv4 ⟨10, 0, 0, 2⟩, 53⟩, [9]⟩] _ ?_ rfl).mpr
      ⟨(udp_framing_independent_of_chunking .uot).2.2.2 _ _ (by decide) rfl, by simp [Seen]⟩
    intro m hm
    simp only [mem_cons, not_mem_nil, or_false] at hm
    rcases hm with rfl | rfl <;> exact ⟨trivial, ⟨_, rfl⟩, by decide⟩
  refine ((udp_framing_independent_of_chunking .trojan).2.1
    [.write (.v4 ⟨10, 0, 0, 1⟩ 53) [9] [], .flush [.takes 3, .pending],
      .write (.v4 ⟨10, 0, 0, 2⟩ 53) [8] [.takes 4, .takes 100], .flush [.takes 100]]
    ⟨show [9].length ≤ 65507 by decide, trivial, show [8].length ≤ 65507 by decide, trivial, trivial⟩
    rfl _ rfl).mpr
    ⟨(udp_framing_independent_of_chunking .trojan).2.2.2 _ _ (by decide) rfl, ?_⟩
  decide

/-- The frame of a message of `n` bytes. -/
def sized (n : Nat) : Message := ⟨⟨.ipv4 ⟨10, 0, 0, 1⟩, 53⟩, replicate n 0⟩

/-- Frames of 109 and 65516 bytes come in one read: the 109 consumed bytes stay in front, and the
rest of the second frame finds no room. Trojan passes over a frame without payload. -/
theorem frame_behind_consumed_fails :
    (∀ m ∈ [sized 100, sized 65507], uotFormat.WellFormed m) ∧
    (messages Kind.uot.protocol (whole ([sized 100, sized 65507].flatMap Kind.uot.encode))).2 =
      some (IoError.other "packet-address read buffer full but no complete packet") ∧
    messages Kind.trojan.protocol (whole (Kind.trojan.encode (sized 0))) ≠ ([sized 0], none) := by
  have hwf : ∀ m ∈ [sized 100, sized 65507], uotFormat.WellFormed m := by
    simp only [mem_cons, not_mem_nil, or_false]
    rintro m (rfl | rfl) <;> exact ⟨trivial, ⟨_, rfl⟩, length_replicate.trans_le (by decide)⟩
  refine ⟨hwf, (reads .uot hwf ((scriptBytes_putBack _ _).trans (append_nil _))).2 ?_,
    by decide⟩
  have hlen : ∀ n, (Kind.uot.encode (sized n)).length = n + 9 := by
    intro n
    simp only [Kind.encode, encodeFrame_length, encodeAddress_ipv4, sized, length_replicate]
    simp [Kind.format, Kind.delimiter, Ipv4Addr.octets, u16ToBeBytes]
    omega
  obtain ⟨first, rest, hbytes⟩ := exists_cons_of_length_pos
    (show 0 < ([sized 100, sized 65507].flatMap Kind.uot.encode).length by simp [hlen])
  have hcount : (first :: rest).length = 65625 := by
    rw [← hbytes]
    simp [hlen]
  intro hfits
  rw [hbytes, Fits] at hfits
  simp only [map_cons, map_nil, hlen, Nat.reduceAdd] at hfits
  have hread := (NeverFull.frame_iff (by rw [hcount]; decide)).mp
    ((NeverFull.bytes_iff (by decide)).mp hfits)
  have room := hread.room (by rw [hcount]; decide)
  rw [hcount] at room
  exact absurd room (by decide)

end Shoes.UdpStream.Writer
