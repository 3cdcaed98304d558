import Shoes.Io.Stream
import Shoes.Net.Location

/-! # TUIC wire format

Addresses and the commands of unidirectional streams: `serialize_address`, `read_address`,
`read_uni_task_header`, `read_uni_task_payload` and the header writer of stream replies. -/
namespace Shoes.Tuic.Codec
open Lib.Io Lib.Utf8 Lib.Bytes Lib.IpText Lib.Ipv6Text List
open Io.Stream Net.Location

def commandTypePacket : UInt8 := 0x02
def commandTypeDissociate : UInt8 := 0x03
def commandTypeHeartbeat : UInt8 := 0x04

/-- `MAX_ADDRESS_BYTES_LEN`: type, hostname length, hostname, port. -/
def maxAddressBytesLen : Nat := 1 + 1 + 255 + 2

def maxHeaderLen : Nat := 1 + 1 + 2 + 2 + 1 + 1 + 2 + maxAddressBytesLen

def serializeAddress (location : NetLocation) : List UInt8 :=
  (match location.address with
    | .hostname name => 0x00 :: UInt8.ofNat name.bytes.length :: name.bytes
    | .ipv4 addr => 0x01 :: addr.octets
    | .ipv6 addr => 0x02 :: addr.octets) ++ u16ToBeBytes location.port

/-- An address as the parsers of the server return it: a hostname fits its length byte and is
not the text of an IP address. -/
def OnWire (a : Address) : Prop := a.Canonical ∧ a.text.bytes.length ≤ 255

/-- A location that can be sent. -/
structure WireLocation extends NetLocation where
  onWire : OnWire address
  deriving DecidableEq

section Reading
variable {size : Nat}

/-- A UTF-8 error under the message of the caller. -/
def utf8OrError (kind : ErrorKind) (context : String) (bs : List UInt8) : Except IoError Str :=
  match fromUtf8 bs with
  | .ok s => .ok s
  | .error e => .error ⟨kind, context ++ e.show⟩

/-- The error's text under another kind. -/
def asInvalidData (e : IoError) : IoError := ⟨.invalidData, e.message⟩

def readAddressBody (addressType : UInt8) : Reader size Address :=
  if addressType = 0x00 then do
    let addressLen ← readU8
    let addressBytes ← readSlice addressLen.toNat
    let addressStr ← liftM (utf8OrError .invalidData "invalid address: " addressBytes)
    -- some clients send an IP address here, so the text is parsed
    liftM ((Address.from addressStr).mapError asInvalidData)
  else if addressType = 0x01 then do
    let ipv4Bytes ← readSlice 4
    pure (Address.ipv4 (Ipv4Addr.ofOctets ipv4Bytes))
  else if addressType = 0x02 then do
    let ipv6Bytes ← readSlice 16
    pure (Address.ipv6 (Ipv6Addr.ofOctets ipv6Bytes))
  else throw ⟨.invalidData, s!"invalid address type: {addressType}"⟩

/-- `read_address`; type `0xff` is no address. -/
def readAddress : Reader size (Option NetLocation) := do
  let addressType ← readU8
  if addressType = 0xff then pure none
  else do
    let address ← readAddressBody addressType
    let port ← readU16Be
    pure (some ⟨address, port⟩)

inductive UniTaskHeader
  | dissociate (assocId : UInt16)
  | packet (assocId packetId : UInt16) (fragTotal fragId : UInt8) (payloadSize : UInt16)
      (remoteLocation : Option NetLocation)
  deriving DecidableEq

def readUniStreamCommandType : Reader size UInt8 := do
  let tuicVersion ← readU8
  if tuicVersion ≠ 5 then throw (IoError.other s!"invalid tuic version: {tuicVersion}")
  else readU8

def readUniTaskHeader (commandType : UInt8) : Reader size UniTaskHeader :=
  if commandType = commandTypeDissociate then do
    let assocId ← readU16Be
    pure (.dissociate assocId)
  else if commandType ≠ commandTypePacket then
    throw (IoError.other s!"invalid uni stream command type: {commandType}")
  else do
    let assocId ← readU16Be
    let packetId ← readU16Be
    let fragTotal ← readU8
    let fragId ← readU8
    let payloadSize ← readU16Be
    let remoteLocation ← readAddress
    pure (.packet assocId packetId fragTotal fragId payloadSize remoteLocation)

def readUniTaskPayload (payloadSize : Nat) : Reader size (List UInt8) := fun st =>
  let buffered := st.reader.unparsed
  if buffered.length > payloadSize then
    .error ⟨.invalidData, s!"TUIC unidirectional task contains {buffered.length - payloadSize} " ++
      s!"trailing bytes after a {payloadSize}-byte payload"⟩
  else
    let st := st.consume buffered.length
    if buffered.length < payloadSize then
      match st.stream.readExact (payloadSize - buffered.length) with
      | .error e => .error e
      | .ok (rest, stream) => .ok (buffered ++ rest, { st with stream })
    else .ok (buffered, st)

def parseUniStream : Reader maxHeaderLen UniTaskHeader := do
  let commandType ← readUniStreamCommandType
  readUniTaskHeader commandType

/-- The command of a stream and, for a packet, its payload. -/
def receiveUniStream (stream : Source) : Except IoError (UniTaskHeader × List UInt8) :=
  match parseUniStream (Input.new stream) with
  | .error e => .error e
  | .ok (.dissociate assocId, _) => .ok (.dissociate assocId, [])
  | .ok (header@(.packet _ _ _ _ payloadSize _), st) =>
    match readUniTaskPayload payloadSize.toNat st with
    | .error e => .error e
    | .ok (payload, _) => .ok (header, payload)

end Reading

/-- The fields of a packet header before the address. -/
def packetFields (assocId packetId : UInt16) (fragTotal fragId : UInt8) (payloadLen : Nat) :
    List UInt8 :=
  5 :: commandTypePacket :: (u16ToBeBytes assocId ++ u16ToBeBytes packetId ++
    [fragTotal, fragId] ++ u16ToBeBytes (UInt16.ofNat payloadLen))

/-- `encode_udp_stream_packet_prefix`: where the header starts, and the buffer with it. -/
def encodeUdpStreamPacketPrefix (buf : List UInt8) (assocId packetId : UInt16) (payloadLen : Nat)
    (addressBytes : List UInt8) : Except IoError (Nat × List UInt8) :=
  if payloadLen > 65535 then
    .error (IoError.other s!"TUIC UDP stream payload too large: {payloadLen}")
  else
    let headerLen := 1 + 1 + 2 + 2 + 1 + 1 + 2 + addressBytes.length
    if headerLen > maxHeaderLen ∨ buf.length < maxHeaderLen then
      .error (IoError.other s!"TUIC UDP stream header too large: {headerLen}")
    else
      let start := maxHeaderLen - headerLen
      let buf := writeAt buf start [5]
      let buf := writeAt buf (start + 1) [commandTypePacket]
      let buf := writeAt buf (start + 2) (u16ToBeBytes assocId)
      let buf := writeAt buf (start + 4) (u16ToBeBytes packetId)
      let buf := writeAt buf (start + 6) [1]
      let buf := writeAt buf (start + 7) [0]
      let buf := writeAt buf (start + 8) (u16ToBeBytes (UInt16.ofNat payloadLen))
      let buf := writeAt buf (start + 10) addressBytes
      .ok (start, buf)

/-! ## Reading back what the writers write -/

theorem serializeAddress_length_le (l : WireLocation) :
    (serializeAddress l.toNetLocation).length ≤ maxAddressBytesLen := by
  have hfits := l.onWire.2
  unfold serializeAddress maxAddressBytesLen
  cases ha : l.address with
  | hostname =>
    rw [ha] at hfits
    simp only [Address.text] at hfits
    simp only [length_append, length_cons, u16ToBeBytes_length]
    omega
  | ipv4 | ipv6 => simp

section Parsing
variable {size : Nat}

/-- The type byte and the body of an address, without the port. -/
def addressBody : Address → UInt8 × List UInt8
  | .hostname name => (0x00, UInt8.ofNat name.bytes.length :: name.bytes)
  | .ipv4 addr => (0x01, addr.octets)
  | .ipv6 addr => (0x02, addr.octets)

theorem serializeAddress_eq (l) : serializeAddress l =
      [(addressBody l.address).1] ++ ((addressBody l.address).2 ++ u16ToBeBytes l.port) := by
  unfold serializeAddress
  cases l.address <;> rfl

theorem readAddressBody_parses (l : WireLocation) (hsize : 255 ≤ size) :
    Parses Input.view (readAddressBody (addressBody l.address).1 : Reader size _)
      (addressBody l.address).2 l.address := by
  obtain ⟨⟨address, port⟩, hcanon, hfits⟩ := l
  cases address with
  | hostname name =>
    have hlen : (UInt8.ofNat name.bytes.length).toNat = name.bytes.length := by
      simp only [Address.text] at hfits
      simp only [UInt8.toNat_ofNat']; omega
    have hname : Parses Input.view
        (readSlice (UInt8.ofNat name.bytes.length).toNat : Reader size _) name.bytes name.bytes := by
      rw [hlen]; exact readSlice_parses name.bytes (hfits.trans hsize)
    have hstr : utf8OrError .invalidData "invalid address: " name.bytes = .ok name := by
      simp [utf8OrError]
    have hfrom : (Address.from name).mapError asInvalidData = .ok (.hostname name) := by
      rw [show Address.from name = .ok (.hostname name) from hcanon]; rfl
    have hbytes : (addressBody (.hostname name)).2 =
        [UInt8.ofNat name.bytes.length] ++ (name.bytes ++ ([] ++ [])) := by simp [addressBody]
    rw [hbytes]
    exact (readU8_parses _ (by omega)).bind (hname.bind ((Parses.lift hstr).bind (Parses.lift hfrom)))
  | ipv4 addr =>
    exact (readSlice_parses addr.octets (by simp; omega)).map fun bs =>
      Address.ipv4 (Ipv4Addr.ofOctets bs)
  | ipv6 addr =>
    have hp := (readSlice_parses addr.octets (by simp; omega : _ ≤ size)).map fun bs =>
      Address.ipv6 (Ipv6Addr.ofOctets bs)
    rw [← append_nil addr.octets, Ipv6Addr.ofOctets_octets] at hp
    simpa [readAddressBody, addressBody] using hp

theorem readAddress_parses (l : WireLocation) (hsize : 255 ≤ size) :
    Parses Input.view (readAddress : Reader size _) (serializeAddress l.toNetLocation)
      (some l.toNetLocation) := by
  have htype : (addressBody l.address).1 ≠ 0xff := by cases l.address <;> simp [addressBody]
  have hport := (readU16Be_parses l.port (by omega : 2 ≤ size)).map fun port =>
    some (NetLocation.mk l.address port)
  rw [serializeAddress_eq]
  refine (readU8_parses _ (by omega)).bind ?_
  rw [if_neg htype]
  exact (readAddressBody_parses l hsize).bind hport

theorem parseUniStream_packet (assocId packetId payloadLen) (l : WireLocation) :
    Parses Input.view parseUniStream
      (packetFields assocId packetId 1 0 payloadLen ++ serializeAddress l.toNetLocation)
      (.packet assocId packetId 1 0 (UInt16.ofNat payloadLen) (some l.toNetLocation)) := by
  show Parses Input.view parseUniStream (([5] ++ [commandTypePacket]) ++ (u16ToBeBytes assocId ++
    (u16ToBeBytes packetId ++ ([1] ++ ([0] ++ (u16ToBeBytes (UInt16.ofNat payloadLen) ++
      serializeAddress l.toNetLocation)))))) _
  refine Parses.bind ((readU8_parses 5 (by decide)).bind (readU8_parses _ (by decide))) ?_
  refine (readU16Be_parses assocId (by decide)).bind ?_
  refine (readU16Be_parses packetId (by decide)).bind ?_
  refine (readU8_parses 1 (by decide)).bind ?_
  refine (readU8_parses 0 (by decide)).bind ?_
  refine (readU16Be_parses _ (by decide)).bind ?_
  exact (readAddress_parses l (by decide)).map _

/-- The payload is what the stream still has to give, if it has the announced length;
how much of it the reader had already buffered does not matter. -/
theorem readUniTaskPayload_view {st : Input size} {payload : List UInt8} (hview : st.view = payload)
    : ∃ st', readUniTaskPayload payload.length st = .ok (payload, st') := by
  have hsplit : st.reader.unparsed ++ st.stream.bytes = payload := hview
  have hlen : st.reader.unparsed.length + st.stream.bytes.length = payload.length := by
    rw [← hsplit, length_append]
  unfold readUniTaskPayload
  dsimp only
  rw [if_neg (by omega)]
  by_cases hshort : st.reader.unparsed.length < payload.length
  · obtain ⟨stream', hread, -⟩ := Source.readExact_bytes
      (n := payload.length - st.reader.unparsed.length) (s := st.stream) (by omega)
    have htake : st.stream.bytes.take (payload.length - st.reader.unparsed.length) =
        st.stream.bytes := take_of_length_le (by omega)
    rw [if_pos hshort]
    simp only [Input.consume, hread, htake, hsplit]
    exact ⟨_, rfl⟩
  have hnil : st.stream.bytes = [] := eq_nil_of_length_eq_zero (by omega)
  rw [if_neg hshort]
  rw [hnil, append_nil] at hsplit
  exact ⟨_, by rw [hsplit]⟩

/-- **What a stream with one packet on it gives**, however its bytes are cut. -/
theorem receiveUniStream_packet (assocId packetId) (l : WireLocation) (hp : payload.length ≤ 65535)
    (hs : stream.bytes = packetFields assocId packetId 1 0 payload.length ++
      serializeAddress l.toNetLocation ++ payload) :
    receiveUniStream stream = .ok (.packet assocId packetId 1 0 (UInt16.ofNat payload.length)
      (some l.toNetLocation), payload) := by
  obtain ⟨st, hparse, hview⟩ := parseUniStream_packet assocId packetId payload.length l
    (Input.new stream) payload hs
  have hsize : (UInt16.ofNat payload.length).toNat = payload.length := by
    simp only [UInt16.toNat_ofNat']; omega
  obtain ⟨st', hread⟩ := readUniTaskPayload_view hview
  simp only [receiveUniStream, hparse, hsize, hread]

end Parsing

theorem encodeUdpStreamPacketPrefix_eq (assocId packetId) (hp : payloadLen ≤ 65535)
    (ha : addressBytes.length ≤ maxAddressBytesLen) (hb : maxHeaderLen ≤ buf.length) :
    encodeUdpStreamPacketPrefix buf assocId packetId payloadLen addressBytes =
      .ok (maxAddressBytesLen - addressBytes.length,
        writeAt buf (maxAddressBytesLen - addressBytes.length)
          (packetFields assocId packetId 1 0 payloadLen ++ addressBytes)) := by
  have hstart : maxHeaderLen - (1 + 1 + 2 + 2 + 1 + 1 + 2 + addressBytes.length) =
      maxAddressBytesLen - addressBytes.length := by
    unfold maxHeaderLen; omega
  have hfits : maxAddressBytesLen - addressBytes.length ≤ buf.length := by
    unfold maxHeaderLen at hb; omega
  have hcheck : ¬(1 + 1 + 2 + 2 + 1 + 1 + 2 + addressBytes.length > maxHeaderLen ∨
      buf.length < maxHeaderLen) := by
    unfold maxHeaderLen at hb ⊢; omega
  simp only [encodeUdpStreamPacketPrefix, if_neg (by omega : ¬payloadLen > 65535), if_neg hcheck,
    hstart]
  -- each write starts where the one before it ended
  rw [writeAt_writeAt hfits, writeAt_writeAt hfits, writeAt_writeAt hfits, writeAt_writeAt hfits,
    writeAt_writeAt hfits, writeAt_writeAt hfits, writeAt_writeAt hfits]
  · simp [packetFields]
  all_goals rfl

theorem encodeUdpStreamPacketPrefix_length
    (h : encodeUdpStreamPacketPrefix buf assocId packetId payloadLen addressBytes =
      .ok (start, buf')) : buf'.length = buf.length := by
  by_cases hok : payloadLen ≤ 65535 ∧ addressBytes.length ≤ maxAddressBytesLen ∧
      maxHeaderLen ≤ buf.length
  · obtain ⟨hp, ha, hb⟩ := hok
    rw [encodeUdpStreamPacketPrefix_eq assocId packetId hp ha hb] at h
    cases h
    apply writeAt_length
    unfold maxHeaderLen at hb
    simp only [packetFields, length_cons, length_append, length_nil, u16ToBeBytes_length]
    omega
  unfold encodeUdpStreamPacketPrefix at h
  dsimp only at h
  split at h
  · cases h
  split at h
  · cases h
  unfold maxHeaderLen at *
  omega

end Shoes.Tuic.Codec
