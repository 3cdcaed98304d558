import Shoes.Tuic.Codec
import Shoes.Net.Fragments

/-! # TUIC UDP replies

The reply half of `run_udp_session_loop`: what it sends to the client for each datagram that
comes from the remote, on a unidirectional stream or as QUIC datagrams. -/
namespace Shoes.Tuic.Reply
open Lib.Io Lib.Bytes List
open Io.Stream Net.Location Net.Fragments Codec

structure Session where
  assocId : UInt16
  initialLocation : WireLocation
  overrideLocalWriteLocation : Option WireLocation

/-- The address in every reply. -/
def Session.location (s : Session) : WireLocation :=
  match s.overrideLocalWriteLocation with
  | some a => a
  | none => s.initialLocation

def Session.addressBytes (s : Session) : List UInt8 := serializeAddress s.location.toNetLocation

def sampleSession : Session where
  assocId := 7
  initialLocation := ⟨⟨.ipv4 ⟨192, 0, 2, 1⟩, 53⟩, trivial, by decide⟩
  overrideLocalWriteLocation := none

/-! ## Stream mode -/

/-- The buffer that replies are framed in. It comes from `allocate_vec`, which does not
initialise it, so any contents are possible at the start. -/
structure FrameBuffer where
  bytes : List UInt8
  length_eq : bytes.length = maxHeaderLen + 65535

/-- What the buffer holds behind the space for headers. -/
def FrameBuffer.body (buf : FrameBuffer) : List UInt8 := buf.bytes.drop maxHeaderLen

/-- The variables of the loop in stream mode. -/
structure StreamState where
  nextPacketId : UInt16
  buf : FrameBuffer

/-- The loop's variables before the first reply. -/
def StreamState.start (buf : FrameBuffer) : StreamState := ⟨0, buf⟩

/-- One reply in stream mode: the bytes written to the stream. The header goes into the frame
buffer; the payload was read into `read_buf`, which this branch does not look at. -/
def streamReply (s : Session) (st : StreamState) (payload : Payload) :
    Except IoError (List UInt8 × StreamState) :=
  match h : encodeUdpStreamPacketPrefix st.buf.bytes s.assocId st.nextPacketId payload.bytes.length
      s.addressBytes with
  | .error e => .error e
  | .ok (start, buf) =>
    .ok (slice buf start (maxHeaderLen + payload.bytes.length),
      { nextPacketId := st.nextPacketId + 1
        buf := ⟨buf, (encodeUdpStreamPacketPrefix_length h).trans st.buf.length_eq⟩ })

def streamReplies (s : Session) : StreamState → List Payload →
    Except IoError (List (List UInt8) × StreamState)
  | st, [] => .ok ([], st)
  | st, p :: ps =>
    match streamReply s st p with
    | .error e => .error e
    | .ok (written, st) =>
      match streamReplies s st ps with
      | .error e => .error e
      | .ok (rest, st) => .ok (written :: rest, st)

/-- What is written: the right header, and then what the frame buffer holds behind the space
for headers. -/
theorem streamReply_eq (s st p) :
    ∃ st', streamReply s st p = .ok (packetFields s.assocId st.nextPacketId 1 0 p.bytes.length ++
        s.addressBytes ++ st.buf.body.take p.bytes.length, st') ∧
      st'.nextPacketId = st.nextPacketId + 1 ∧
      st'.buf.body = st.buf.body := by
  have ha : s.addressBytes.length ≤ maxAddressBytesLen := serializeAddress_length_le s.location
  have hlen := st.buf.length_eq
  have hp := p.fits
  have henc := encodeUdpStreamPacketPrefix_eq s.assocId st.nextPacketId hp ha
    (by omega : maxHeaderLen ≤ st.buf.bytes.length)
  have hstart : maxAddressBytesLen - s.addressBytes.length ≤ st.buf.bytes.length := by
    unfold maxHeaderLen at hlen; omega
  have hend : maxAddressBytesLen - s.addressBytes.length + (packetFields s.assocId
      st.nextPacketId 1 0 p.bytes.length ++ s.addressBytes).length = maxHeaderLen := by
    have hfields : (packetFields s.assocId st.nextPacketId 1 0 p.bytes.length).length = 10 := rfl
    rw [length_append, hfields]; unfold maxHeaderLen; omega
  unfold streamReply
  split
  · rename_i e he
    cases henc.symm.trans he
  rename_i start buf he
  cases henc.symm.trans he
  exact ⟨_, congrArg Except.ok (Prod.ext (slice_writeAt hstart hend _) rfl), rfl,
    drop_writeAt hstart hend⟩

theorem streamReplies_eq (s) : ∀ (ps : List Payload) (st : StreamState),
      ∃ written st', streamReplies s st ps = .ok (written, st') ∧
        st'.nextPacketId = st.nextPacketId + UInt16.ofNat ps.length ∧
        st'.buf.body = st.buf.body
  | [], st => ⟨[], st, rfl, by simp, rfl⟩
  | p :: ps, st => by
    obtain ⟨st₁, h₁, hid₁, hbuf₁⟩ := streamReply_eq s st p
    obtain ⟨written, st₂, h₂, hid₂, hbuf₂⟩ := streamReplies_eq s ps st₁
    refine ⟨_, st₂, by simp [streamReplies, h₁, h₂]; rfl, ?_, hbuf₂.trans hbuf₁⟩
    rw [hid₂, hid₁, length_cons, UInt16.ofNat_add, UInt16.add_assoc,
      UInt16.add_comm (UInt16.ofNat ps.length)]
    rfl

/-- What the peer makes of a reply: everything is right but the payload, for which it gets
what lay in the frame buffer. -/
theorem streamReply_received (s : Session) (st : StreamState) (p : Payload) (stream : Source)
    (hs : stream.bytes = packetFields s.assocId st.nextPacketId 1 0 p.bytes.length ++
      s.addressBytes ++ st.buf.body.take p.bytes.length) :
    receiveUniStream stream = .ok (.packet s.assocId st.nextPacketId 1 0
      (UInt16.ofNat p.bytes.length) (some s.location.toNetLocation),
      st.buf.body.take p.bytes.length) := by
  have hlen := st.buf.length_eq
  have hp := p.fits
  have htake : (st.buf.body.take p.bytes.length).length = p.bytes.length := by
    rw [FrameBuffer.body, length_take, length_drop]; omega
  have hle : (st.buf.body.take p.bytes.length).length ≤ 65535 := by omega
  have hrec := receiveUniStream_packet s.assocId st.nextPacketId s.location hle
    (by rw [htake]; exact hs)
  rwa [htake] at hrec

/-- **When the peer gets a stream reply back.** After any replies before it, a reply reaches
the peer with its association, packet id, address and payload if and only if the uninitialised
frame buffer of the session happens to begin, behind the space for headers, with the
payload. -/
theorem streamReply_received_iff (s : Session) (buf : FrameBuffer) (earlier : List Payload)
    (p : Payload) : ∃ sent st written st', streamReplies s (.start buf) earlier = .ok (sent, st) ∧
      streamReply s st p = .ok (written, st') ∧
      ((∀ stream : Source, stream.bytes = written →
          receiveUniStream stream = .ok (.packet s.assocId (UInt16.ofNat earlier.length) 1 0
            (UInt16.ofNat p.bytes.length) (some s.location.toNetLocation), p.bytes)) ↔
        p.bytes <+: buf.body) := by
  obtain ⟨sent, st, hsent, hid, hbuf⟩ := streamReplies_eq s earlier (.start buf)
  obtain ⟨st', hreply, -, -⟩ := streamReply_eq s st p
  refine ⟨sent, st, _, st', hsent, hreply, ?_⟩
  have hgot := streamReply_received s st p
  have hid' : st.nextPacketId = UInt16.ofNat earlier.length := hid.trans (UInt16.zero_add _)
  rw [hid', hbuf] at hgot
  rw [hid', hbuf, prefix_iff_eq_take]
  constructor
  · intro h
    obtain ⟨stream, hs⟩ := Source.exists_bytes (packetFields s.assocId
      (UInt16.ofNat earlier.length) 1 0 p.bytes.length ++ s.addressBytes ++
        buf.body.take p.bytes.length)
    have heq := (h stream hs).symm.trans (hgot stream hs)
    simp only [Except.ok.injEq, Prod.mk.injEq, true_and] at heq
    exact heq
  intro h stream hs
  have hr := hgot stream hs
  rwa [show (StreamState.start buf).buf.body.take p.bytes.length = p.bytes from h.symm] at hr

/-- A buffer of zeros, and a reply of one byte: the peer is handed a zero instead of it. -/
theorem streamReply_zero_for_one :
    let buf : FrameBuffer := ⟨List.replicate (maxHeaderLen + 65535) 0, length_replicate⟩
    ∃ written st', streamReply sampleSession (.start buf) ⟨[1], by decide, by decide⟩ =
        .ok (written, st') ∧
      ∀ stream : Source, stream.bytes = written →
        receiveUniStream stream = .ok (.packet 7 0 1 0 1 (some ⟨.ipv4 ⟨192, 0, 2, 1⟩, 53⟩), [0]) :=
    by
  intro buf
  obtain ⟨st', hreply, -, -⟩ := streamReply_eq sampleSession (.start buf) ⟨[1], by decide, by decide⟩
  refine ⟨_, st', hreply, fun stream hs => ?_⟩
  have hr := streamReply_received sampleSession (.start buf) ⟨[1], by decide, by decide⟩ stream hs
  have hzero : (StreamState.start buf).buf.body.take 1 = [0] := by
    simp only [StreamState.start, FrameBuffer.body, buf, drop_replicate, take_replicate]
    rfl
  exact hr.trans (by rw [show ([1] : List UInt8).length = 1 from rfl, hzero]; rfl)

end Shoes.Tuic.Reply
