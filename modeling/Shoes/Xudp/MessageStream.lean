import Shoes.Xudp.Frame
import Shoes.Xudp.Sessions

/-! # The XUDP message stream

`XudpMessageStream`: each message of the client is handed out with a session id and the address that
its destination resolves to; replies are framed and written. -/
namespace Shoes.Xudp.MessageStream
open Lib.Io Lib.Bytes Lib.Assoc Lib.Cursor Net.Location
open Frame Sessions

/-- A message for which the resolver is still to be asked, or the buffer of the caller was too
small. -/
structure Incoming where
  data : List UInt8
  originalDestination : NetLocation
  resolvedDestination : Option NetLocation
  deriving DecidableEq

structure Message where
  sessionId : UInt16
  addr : SocketAddr
  data : List UInt8
  deriving DecidableEq

/-- The part of a stream that frames and sessions are about. `clientSessions` and `handedOut` only
record the client's open sessions, and the ids under which messages were handed out, up to the End
of the session. -/
structure Core where
  readBuffer : List UInt8
  tables : Tables
  clientSessions : Map UInt16 NetLocation
  handedOut : List (UInt16 × SocketAddr)
  deriving DecidableEq

structure XudpMessageStream extends Core where
  writeBuffer : List UInt8
  incomingMessage : Option Incoming
  isEof : Bool
  deriving DecidableEq

def Core.new : Core := ⟨[], .new, .empty, []⟩

def XudpMessageStream.new : XudpMessageStream := ⟨.new, [], none, false⟩

/-! ## Decoding -/

/-- What one round of `try_decode_one_frame` comes to. -/
inductive Decoded
  | more
  | again (core : Core)
  | message (data : List UInt8) (destination : NetLocation) (core : Core)
  | failed (e : IoError) (core : Core)
  | panicked
  deriving DecidableEq

/-- The target of a frame, if it has one, is the destination of its session. -/
def Core.learn (core : Core) (metadata : FrameMetadata) : Except IoError Core :=
  match metadata.target with
  | none => .ok core
  | some target =>
    (core.tables.learnTarget metadata.sessionId target).map fun tables =>
      { core with tables, clientSessions := core.clientSessions.insert metadata.sessionId target }

def Core.endSession (core : Core) (id : UInt16) : Core :=
  { core with
    tables := core.tables.endSession id
    clientSessions := core.clientSessions.remove id
    handedOut := core.handedOut.filter fun out => out.1 ≠ id }

/-- A frame of which only the metadata is read. -/
def Core.decodeControl (core : Core) : Decoded :=
  match FrameMetadata.decode core.readBuffer with
  | .panic => .panicked
  | .err e rest => .failed e { core with readBuffer := rest }
  -- `expect`
  | .ok none _ => .panicked
  | .ok (some metadata) rest =>
    let core := { core with readBuffer := rest }
    match core.learn metadata with
    | .error e => .failed e core
    | .ok core =>
      if metadata.status = .end_ then .again (core.endSession metadata.sessionId)
      else .again core

/-- A frame whose metadata and `dataLen` bytes of data are complete. -/
def Core.decodeData (core : Core) (dataLen : Nat) : Decoded :=
  match FrameMetadata.decode core.readBuffer with
  | .panic => .panicked
  | .err e rest => .failed e { core with readBuffer := rest }
  | .ok none _ => .panicked
  | .ok (some metadata) rest =>
    let core := { core with readBuffer := rest }
    if metadata.network = some .tcp then
      .failed ⟨.unsupported, "XUDP with TCP destinations is not supported. Only UDP destinations " ++
        "are supported."⟩ core
    else if metadata.option.hasError then
      .failed ⟨.connectionReset, "XUDP session closed by remote with error"⟩ core
    else
      match core.learn metadata with
      | .error e => .failed e core
      | .ok core =>
        -- `advance(2)` and the slice panic if the buffer is shorter
        if core.readBuffer.length < 2 + dataLen then .panicked
        else
          let data := slice core.readBuffer 2 (2 + dataLen)
          let core := { core with readBuffer := core.readBuffer.drop (2 + dataLen) }
          if dataLen = 0 then .again core
          else
            match metadata.target with
            | some target => .message data target core
            | none =>
              match core.tables.sessionToDestination.get metadata.sessionId with
              | some destination => .message data destination core
              | none =>
                .failed ⟨.invalidData, s!"unknown session ID: {metadata.sessionId}"⟩ core

/-- One round of `try_decode_one_frame`. -/
def Core.decodeFrame (core : Core) : Decoded :=
  let buf := core.readBuffer
  if buf.length < 2 then .more
  else if buf.length < 2 + metadataLen buf then .more
  else if metadataLen buf < 4 then
    .failed ⟨.invalidData, s!"metadata too short: {metadataLen buf}"⟩ core
  else
    let statusByte := buf.getD 4 0
    let optionByte := buf.getD 5 0
    let hasData := optionByte &&& 0x01 ≠ 0
    if statusByte = 0x03 ∨ statusByte = 0x04 ∨ ¬hasData then core.decodeControl
    else
      let dataLenOffset := 2 + metadataLen buf
      if buf.length < dataLenOffset + 2 then .more
      else
        let dataLen := (u16FromBeBytes (buf.getD dataLenOffset 0)
          (buf.getD (dataLenOffset + 1) 0)).toNat
        if buf.length < dataLenOffset + 2 + dataLen then .more
        else core.decodeData dataLen

/-- What `try_decode_one_frame` comes to. -/
inductive Attempt
  | none (core : Core)
  | message (data : List UInt8) (destination : NetLocation) (core : Core)
  | failed (e : IoError) (core : Core)
  | panicked
  deriving DecidableEq

/-- `try_decode_one_frame`, which calls itself after a frame without a message. Every such frame
makes the buffer shorter, so its length is enough fuel. -/
def tryDecodeLoop : Nat → Core → Attempt
  | 0, core => .none core
  | fuel + 1, core =>
    match core.decodeFrame with
    | .more => .none core
    | .again core => tryDecodeLoop fuel core
    | .message data destination core => .message data destination core
    | .failed e core => .failed e core
    | .panicked => .panicked

def tryDecodeOneFrame (core : Core) : Attempt := tryDecodeLoop (core.readBuffer.length + 1) core

/-! ## Reading -/

/-- What a resolver answers. -/
inductive Resolution
  | ready (addr : SocketAddr)
  | failed (e : IoError)
  | pending
  deriving DecidableEq

/-- `poll_resolve_location`: an IP address needs no look-up. -/
def pollResolve (resolver : NetLocation → Resolution) (location : NetLocation) : Resolution :=
  match location.toSocketAddrNonblocking with
  | some addr => .ready addr
  | none => resolver location

/-- What the inner stream answers to one read; no bytes are end of file. -/
inductive Read
  | bytes (bs : List UInt8)
  | failed (e : IoError)
  | pending
  deriving DecidableEq

inductive Polled (α : Type)
  | ready (a : α)
  | failed (e : IoError)
  | pending
  | panicked
  deriving DecidableEq

def bufferTooSmall : IoError := ⟨.invalidData, "buffer too small for incoming message"⟩

def eofReached : IoError := ⟨.unexpectedEof, "EOF reached"⟩

/-- A message goes out under an id. -/
def Core.handOut (core : Core) (id : UInt16) (addr : SocketAddr) : Core :=
  { core with handedOut := (id, addr) :: core.handedOut }

namespace XudpMessageStream

/-- A buffered message. The resolver is asked for the resolved address, unless that is known, and
once more for the address to return. -/
def pollIncoming (st : XudpMessageStream) (resolver again : NetLocation → Resolution) (room : Nat)
    (m : Incoming) : Polled Message × XudpMessageStream :=
  if m.data.length > room then (.failed bufferTooSmall, st)
  else
    let st := { st with incomingMessage := none }
    let resolved := match m.resolvedDestination with
      | some resolved => Sum.inl resolved
      | none =>
        match pollResolve resolver m.originalDestination with
        | .ready addr => Sum.inl addr.location
        | .failed e => Sum.inr (Polled.failed e, st)
        | .pending => Sum.inr (Polled.pending,
            { st with incomingMessage := some ⟨m.data, m.originalDestination, none⟩ })
    match resolved with
    | Sum.inr out => out
    | Sum.inl resolvedDestination =>
      match st.tables.getOrCreateSession resolvedDestination m.originalDestination with
      | .error e => (.failed e, st)
      | .ok ((id, _), tables) =>
        let st := { st with tables }
        match pollResolve again m.originalDestination with
        | .ready addr => (.ready ⟨id, addr, m.data⟩, { st with toCore := st.toCore.handOut id addr })
        | .failed e => (.failed e, st)
        | .pending => (.pending, st)

/-- A message that has just been decoded. -/
def pollDecoded (st : XudpMessageStream) (resolver : NetLocation → Resolution) (room : Nat)
    (data : List UInt8) (destination : NetLocation) : Polled Message × XudpMessageStream :=
  match pollResolve resolver destination with
  | .failed e => (.failed e, st)
  | .pending => (.pending, { st with incomingMessage := some ⟨data, destination, none⟩ })
  | .ready addr =>
    match st.tables.getOrCreateSession addr.location destination with
    | .error e => (.failed e, st)
    | .ok ((id, _), tables) =>
      let st := { st with tables }
      if data.length > room then
        (.failed bufferTooSmall,
          { st with incomingMessage := some ⟨data, destination, some addr.location⟩ })
      else (.ready ⟨id, addr, data⟩, { st with toCore := st.toCore.handOut id addr })

/-- The loop of `poll_read_session_message`, which takes one answer of the inner stream a round.
The answers that are left belong to later polls. -/
def pollLoop (resolver : NetLocation → Resolution) (room : Nat) :
    XudpMessageStream → List Read → Polled Message × XudpMessageStream × List Read
  | st, reads =>
    match tryDecodeOneFrame st.toCore with
    | .panicked => (.panicked, st, reads)
    | .failed e core => (.failed e, { st with toCore := core }, reads)
    | .message data destination core =>
      let out := pollDecoded { st with toCore := core } resolver room data destination
      (out.1, out.2, reads)
    | .none core =>
      let st := { st with toCore := core }
      match reads with
      | [] => (.pending, st, [])
      | .pending :: reads => (.pending, st, reads)
      | .failed e :: reads => (.failed e, st, reads)
      | .bytes [] :: reads => (.failed eofReached, { st with isEof := true }, reads)
      | .bytes (b :: bs) :: reads =>
        pollLoop resolver room { st with readBuffer := st.readBuffer ++ b :: bs } reads

def pollReadSessionMessage (st : XudpMessageStream) (resolver again : NetLocation → Resolution)
    (room : Nat) (reads : List Read) : Polled Message × XudpMessageStream × List Read :=
  match st.incomingMessage with
  | some m =>
    let out := st.pollIncoming resolver again room m
    (out.1, out.2, reads)
  | none =>
    if st.isEof then (.failed eofReached, st, reads) else pollLoop resolver room st reads

/-! ## Writing -/

/-- What the inner stream answers to one write. -/
inductive Write
  | accepted (n : Nat)
  | failed (e : IoError)
  | pending
  deriving DecidableEq

/-- The loop of `poll_flush_message`; the flush of the inner stream behind it is left out. -/
def pollFlush : XudpMessageStream → List Write → Polled Unit × XudpMessageStream × List Write
  | st, writes =>
    if st.writeBuffer = [] then (.ready (), st, writes)
    else
      match writes with
      | [] => (.pending, st, [])
      | .pending :: writes => (.pending, st, writes)
      | .failed e :: writes => (.failed e, st, writes)
      | .accepted 0 :: writes =>
        (.failed ⟨.writeZero, "failed to write XUDP frame"⟩, st, writes)
      | .accepted (n + 1) :: writes =>
        pollFlush { st with writeBuffer := st.writeBuffer.drop (n + 1) } writes

def replyFrame (id : UInt16) (isNewSession : Bool) (location : NetLocation) (data : List UInt8) :
    Except IoError (List UInt8) :=
  let metadata : FrameMetadata := {
    sessionId := id
    status := if isNewSession then .new else .keep
    option := ⟨0x01⟩
    target := some location
    network := some .udp }
  metadata.encode.map fun bytes => bytes ++ u16ToBeBytes (UInt16.ofNat data.length) ++ data

def pollWriteSessionMessage (st : XudpMessageStream) (id : UInt16) (data : List UInt8)
    (target : SocketAddr) (writes : List Write) : Polled Unit × XudpMessageStream × List Write :=
  if data.length > 65535 then
    (.failed ⟨.invalidInput, "XUDP payload too large"⟩, st, writes)
  else
    match st.pollFlush writes with
    | (.ready (), st, writes) =>
      let isNewSession := ¬st.tables.sessionToOriginalDestination.contains id
      match st.tables.replyLocation id target with
      | .error e => (.failed e, st, writes)
      | .ok (location, tables) =>
        let st := { st with tables }
        match replyFrame id isNewSession location data with
        | .error e => (.failed e, st, writes)
        | .ok frame => { st with writeBuffer := st.writeBuffer ++ frame }.pollFlush writes
    | out => out

end XudpMessageStream

end Shoes.Xudp.MessageStream
