import Shoes.Io.Stream
import Shoes.Net.Fragments

/-! # Hysteria2 UDP datagrams

QUIC variable-length integers, the reply half of `run_udp_session_loop`, and the datagram parser
of `run_udp_local_to_remote_loop`. Every fragment carries the address of the packet. -/
namespace Shoes.Hysteria2.Datagram
open Lib.Io Lib.Utf8 Lib.Bytes Lib.Slots Lib.IpText List
open Io.Stream Net.Location Net.Fragments

/-! ## Variable-length integers -/

/-- `bytes[0] |= tag`. -/
def tagFirst (tag : UInt8) : List UInt8 → List UInt8
  | [] => []
  | b :: bs => (b ||| tag) :: bs

def encodeVarint (value : UInt64) : Except IoError (List UInt8) :=
  if value ≤ 0b00111111 then .ok [value.toUInt8]
  else if value < (1 : UInt64) <<< 14 then .ok (tagFirst 0b01000000 (beBytes 2 value.toNat))
  else if value < (1 : UInt64) <<< 30 then .ok (tagFirst 0b10000000 (beBytes 4 value.toNat))
  else if value < (1 : UInt64) <<< 62 then .ok (tagFirst 0b11000000 (beBytes 8 value.toNat))
  else .error (IoError.other "value too large to encode as varint")

/-- How many bytes the integer has that starts with this byte. -/
def numBytes (firstByte : UInt8) : Nat :=
  match (firstByte >>> 6).toNat with
  | 0 => 1
  | 1 => 2
  | 2 => 4
  | _ => 8

/-- The loop over the bytes behind the first. There are at most seven, and the first brings six
bits, so `value <<= 8` loses nothing. -/
def varintValue (firstByte : UInt8) (remaining : List UInt8) : Nat :=
  remaining.foldl (fun value byte => value * 256 + byte.toNat) (firstByte &&& 0b00111111).toNat

def readVarint {size : Nat} : Reader size Nat := do
  let firstByte ← readU8
  if numBytes firstByte > 1 then
    let remainingBytes ← readSlice (numBytes firstByte - 1)
    pure (varintValue firstByte remainingBytes)
  else pure (varintValue firstByte [])

/-- The bytes of an integer: the first one tells how many there are. -/
structure IsVarint (value : Nat) (firstByte : UInt8) (remaining : List UInt8) : Prop where
  count : numBytes firstByte = remaining.length + 1
  value_eq : varintValue firstByte remaining = value

theorem isVarint_tag (hn : n < 64 * 256 ^ w)
    (htag : ∀ i : Fin 64, numBytes (UInt8.ofNat i ||| tag) = w + 1 ∧
      (UInt8.ofNat i ||| tag) &&& 0b00111111 = UInt8.ofNat i) :
    ∃ firstByte remaining, tagFirst tag (beBytes (w + 1) n) = firstByte :: remaining ∧
      IsVarint n firstByte remaining := by
  have hlen := beBytes_length (w + 1) n
  have hvalue := beNat_beBytes (w + 1) n
  rw [Nat.mod_eq_of_lt (hn.trans_le (by rw [Nat.pow_succ]; omega))] at hvalue
  generalize beBytes (w + 1) n = bs at hlen hvalue
  match bs, hlen with
  | b :: bs, hlen =>
    have hbs : bs.length = w := by simpa using hlen
    rw [beNat_cons, hbs] at hvalue
    -- the first byte has its two high bits free
    have hb : b.toNat < 64 := by
      refine Nat.lt_of_mul_lt_mul_right (a := 256 ^ w) (Nat.lt_of_le_of_lt ?_ hn)
      omega
    obtain ⟨hcount, hmask⟩ := htag ⟨b.toNat, hb⟩
    rw [UInt8.ofNat_toNat] at hcount hmask
    refine ⟨_, _, rfl, by rw [hcount, hbs], ?_⟩
    rw [varintValue, hmask, foldl_be, hbs, hvalue]

/-- **What is encoded is one integer**, and the one it was made from. -/
theorem encodeVarint_isVarint (h : encodeVarint value = .ok bs) :
    ∃ firstByte remaining, bs = firstByte :: remaining ∧
      IsVarint value.toNat firstByte remaining := by
  unfold encodeVarint at h
  split at h
  next hv =>
    cases h
    have hlt : value.toNat < 64 := Nat.lt_succ_of_le (UInt64.le_iff_toNat_le.mp hv)
    have hone : ∀ i : Fin 64, numBytes (UInt8.ofNat i) = 1 ∧
        varintValue (UInt8.ofNat i) [] = i := by decide
    have hbyte : value.toUInt8 = UInt8.ofNat value.toNat := rfl
    obtain ⟨hcount, hvalue⟩ := hone ⟨value.toNat, hlt⟩
    exact ⟨_, [], rfl, hbyte ▸ hcount, hbyte ▸ hvalue⟩
  iterate 2
    split at h
    next hv =>
      cases h
      exact isVarint_tag (UInt64.lt_iff_toNat_lt.mp hv) (by decide)
  split at h <;> cases h
  rename_i hv
  exact isVarint_tag (UInt64.lt_iff_toNat_lt.mp hv) (by decide)

/-- **An encoded integer reads back**, however its bytes are cut. -/
theorem readVarint_parses (h : encodeVarint value = .ok bs) (hsize : 8 ≤ size) :
    Parses Input.view (readVarint : Reader size _) bs value.toNat := by
  obtain ⟨firstByte, remaining, rfl, hcount, hvalue⟩ := encodeVarint_isVarint h
  have hmost : numBytes firstByte ≤ 8 := by
    unfold numBytes
    split <;> decide
  rw [← hvalue]
  refine (readU8_parses firstByte (by omega)).bind ?_
  rw [hcount]
  split
  · exact (readSlice_parses remaining (by omega)).map _
  next hone =>
    obtain rfl : remaining = [] := by simpa using hone
    exact .pure _

theorem readVarint_parses_two :
    Parses Input.view (readVarint : Reader 8 _) [0x41, 0x2c] (300 : UInt64).toNat :=
  readVarint_parses (by decide) (by decide)

/-! ## Parsing -/

/-- A datagram as it comes off the wire: one fragment of a UDP packet. -/
structure Packet where
  sessionId : UInt32
  packetId : UInt16
  fragmentId : UInt8
  fragmentCount : UInt8
  remoteLocation : NetLocation
  payload : List UInt8
  deriving DecidableEq

/-- The length of the address, and the offset behind it. -/
def parseAddressLen (data : List UInt8) : Except String (Nat × Nat) :=
  let firstByte := data.getD 8 0
  let more := numBytes firstByte - 1
  if data.length < 9 + more then .error "Ignoring datagram with truncated address length varint"
  else .ok (varintValue firstByte (slice data 9 (9 + more)), 9 + more)

/-- The parser of the datagram loop. What it does not take is logged and left out. -/
def parseDatagram (data : List UInt8) : Except String Packet :=
  if data.length < 9 then .error s!"Ignoring short datagram (len={data.length})"
  else
    match parseAddressLen data with
    | .error e => .error e
    | .ok (addressLen, nextIndex) =>
      if addressLen = 0 then .error "Ignoring packet with empty address"
      else if addressLen > 2048 then .error s!"Ignoring packet with address length {addressLen}"
      else if data.length < nextIndex + addressLen then
        .error "Ignoring datagram with truncated address"
      else
        match fromUtf8 (slice data nextIndex (nextIndex + addressLen)) with
        | .error e => .error ("Invalid UTF-8 in address: " ++ e.show)
        | .ok addrStr =>
          match NetLocation.fromStr addrStr none with
          | .error e =>
            .error ("Failed to parse address '" ++ addrStr.show ++ "': " ++ e.message)
          | .ok remoteLocation => .ok {
              sessionId := u32FromBeBytes (slice data 0 4)
              packetId := u16FromBeBytes (data.getD 4 0) (data.getD 5 0)
              fragmentId := data.getD 6 0
              fragmentCount := data.getD 7 0
              remoteLocation
              payload := data.drop (nextIndex + addressLen) }

/-- The locations that a session can have: those that the parser returns. -/
structure UdpLocation extends NetLocation where
  canonical : address.Canonical
  text_le : toNetLocation.text.length ≤ 2048
  deriving DecidableEq

/-! ## Sending -/

/-- What a session is started with. -/
structure Session where
  sessionId : UInt32
  initialLocation : UdpLocation
  overrideLocalWriteAddress : Option UdpLocation

/-- The address in every reply. -/
def Session.location (s : Session) : UdpLocation :=
  match s.overrideLocalWriteAddress with
  | some a => a
  | none => s.initialLocation

def Session.addressBytes (s : Session) : List UInt8 := s.location.toNetLocation.text

def packetDatagram (s : Session) (addressLenBytes : List UInt8) (packetId : UInt16)
    (fragmentId fragmentCount : Nat) (piece : List UInt8) : List UInt8 :=
  u32ToBeBytes s.sessionId ++ u16ToBeBytes packetId ++
    [UInt8.ofNat fragmentId, UInt8.ofNat fragmentCount] ++ addressLenBytes ++ s.addressBytes ++
    piece

def udpReply (maxDatagramSize : Nat) (s : Session) (packetId : UInt16) (payload : Payload) :
    Except IoError (List (List UInt8)) :=
  match encodeVarint (UInt64.ofNat s.addressBytes.length) with
  | .error e => .error e
  | .ok addressLenBytes =>
    let headerOverhead := 4 + 2 + 1 + 1 + addressLenBytes.length + s.addressBytes.length
    let payloadLen := payload.bytes.length
    if maxDatagramSize ≤ headerOverhead then
      .error (IoError.other (s!"max datagram size ({maxDatagramSize}) is smaller than header " ++
        s!"overhead ({headerOverhead})"))
    else if headerOverhead + payloadLen ≤ maxDatagramSize then
      .ok [packetDatagram s addressLenBytes packetId 0 1 payload.bytes]
    else
      let availablePayload := maxDatagramSize - headerOverhead
      -- `div_ceil`
      let fragmentCount := (payloadLen + availablePayload - 1) / availablePayload
      if fragmentCount > 255 then
        .error (IoError.other s!"UDP payload length {payloadLen} requires too many fragments")
      else
        .ok ((List.range fragmentCount).map fun fragmentId =>
          let start := fragmentId * availablePayload
          let stop := min (start + availablePayload) payloadLen
          packetDatagram s addressLenBytes packetId fragmentId fragmentCount
            (slice payload.bytes start stop))

/-- What a reply sends: the pieces of a way to cut the payload, numbered, each datagram within
the limit. -/
structure Cut (maxDatagramSize : Nat) (s : Session) (packetId : UInt16) (payload : List UInt8)
    (addressLenBytes : List UInt8) (datagrams pieces : List (List UInt8)) : Prop where
  len_eq : encodeVarint (UInt64.ofNat s.addressBytes.length) = .ok addressLenBytes
  datagrams_eq : datagrams = (List.range pieces.length).map fun i =>
    packetDatagram s addressLenBytes packetId i pieces.length (pieces.getD i [])
  flatten_eq : pieces.flatten = payload
  pos : 1 ≤ pieces.length
  count_le : pieces.length ≤ 255
  length_le : ∀ d ∈ datagrams, d.length ≤ maxDatagramSize

theorem packetDatagram_length (s addressLenBytes packetId i n piece) :
    (packetDatagram s addressLenBytes packetId i n piece).length =
      4 + 2 + 1 + 1 + addressLenBytes.length + s.addressBytes.length + piece.length := by
  simp only [packetDatagram, length_append, u32ToBeBytes_length, u16ToBeBytes_length]
  rfl

theorem slice_min (xs i size) : slice xs i (min (i + size) xs.length) = (xs.drop i).take size := by
  rw [slice, ← take_eq_take_min, drop_take, Nat.add_sub_cancel_left]

theorem udpReply_cut (h : udpReply maxDatagramSize s packetId payload = .ok datagrams) :
    ∃ addressLenBytes pieces,
      Cut maxDatagramSize s packetId payload.bytes addressLenBytes datagrams pieces := by
  unfold udpReply at h
  split at h
  · cases h
  rename_i addressLenBytes hlen
  refine ⟨addressLenBytes, ?_⟩
  dsimp only at h
  obtain ⟨_, h⟩ := of_ite_error h
  split at h
  next hfits =>
    cases h
    refine ⟨[payload.bytes], hlen, rfl, by simp, by simp, by simp, fun d hd => ?_⟩
    rw [mem_singleton.mp hd, packetDatagram_length]
    exact hfits
  obtain ⟨hcount, ⟨⟩⟩ := of_ite_error h
  generalize havail : maxDatagramSize -
    (4 + 2 + 1 + 1 + addressLenBytes.length + s.addressBytes.length) = available
    at hcount ⊢
  have hcover := le_div_ceil_mul payload.bytes.length (by omega : 0 < available)
  generalize hn : (payload.bytes.length + available - 1) / available = n at hcount hcover ⊢
  have hpos : 1 ≤ n := by
    refine Nat.pos_of_ne_zero fun h0 => ?_
    rw [h0] at hcover
    omega
  refine ⟨pieces available n payload.bytes, hlen, ?_, pieces_flatten hcover, ?_, ?_, ?_⟩
  · rw [pieces_length]
    refine map_congr_left fun i hi => ?_
    rw [slice_min, pieces_eq_range]
    simp [mem_range.mp hi]
  · rwa [pieces_length]
  · rw [pieces_length]; omega
  intro d hd
  obtain ⟨i, -, rfl⟩ := mem_map.mp hd
  rw [packetDatagram_length, slice_min, length_take]
  omega

/-! ## Parsing what was sent -/

/-- Where the parts of a datagram lie. -/
structure Layout (data : List UInt8) (s : Session) (packetId : UInt16) (i n : Nat)
    (firstByte : UInt8) (remaining piece : List UInt8) : Prop where
  length_eq : data.length = 9 + remaining.length + s.addressBytes.length + piece.length
  session : slice data 0 4 = u32ToBeBytes s.sessionId
  packet : u16FromBeBytes (data.getD 4 0) (data.getD 5 0) = packetId
  id : data.getD 6 0 = UInt8.ofNat i
  count : data.getD 7 0 = UInt8.ofNat n
  first : data.getD 8 0 = firstByte
  more : slice data 9 (9 + remaining.length) = remaining
  address : slice data (9 + remaining.length) (9 + remaining.length + s.addressBytes.length) =
    s.addressBytes
  rest : data.drop (9 + remaining.length + s.addressBytes.length) = piece

theorem layout (s packetId i n firstByte remaining piece) :
    Layout (packetDatagram s (firstByte :: remaining) packetId i n piece) s packetId i n firstByte
      remaining piece := by
  have hsession := u32ToBeBytes_length s.sessionId
  unfold packetDatagram
  generalize hs : u32ToBeBytes s.sessionId = session at hsession ⊢
  match session, hsession with
  | [a, b, c, d], _ =>
    refine ⟨by simp; omega, hs.symm, u16FromBeBytes_toBeBytes packetId, rfl, rfl, rfl, ?_, ?_, ?_⟩
    · have h := slice_append_left ([a, b, c, d] ++ u16ToBeBytes packetId ++
        [UInt8.ofNat i, UInt8.ofNat n, firstByte]) remaining (s.addressBytes ++ piece)
        (i := 9) (j := 9 + remaining.length) rfl rfl
      simpa using h
    · have h := slice_append_left ([a, b, c, d] ++ u16ToBeBytes packetId ++
        [UInt8.ofNat i, UInt8.ofNat n, firstByte] ++ remaining) s.addressBytes piece
        (i := 9 + remaining.length) (j := 9 + remaining.length + s.addressBytes.length)
        (by simp; omega) rfl
      simpa using h
    · exact drop_left' (by simp; omega)

/-- **A sent datagram parses back** into the fragment it was made of. -/
theorem parseDatagram_packetDatagram (s)
    (hlen : encodeVarint (UInt64.ofNat s.addressBytes.length) = .ok addressLenBytes)
    (packetId i n piece) :
    parseDatagram (packetDatagram s addressLenBytes packetId i n piece) = .ok {
      sessionId := s.sessionId
      packetId := packetId
      fragmentId := UInt8.ofNat i
      fragmentCount := UInt8.ofNat n
      remoteLocation := s.location.toNetLocation
      payload := piece } := by
  obtain ⟨firstByte, remaining, rfl, hcount, hvalue⟩ := encodeVarint_isVarint hlen
  have hle : s.addressBytes.length ≤ 2048 := s.location.text_le
  rw [UInt64.toNat_ofNat', Nat.mod_eq_of_lt (by omega)] at hvalue
  have hpos : s.addressBytes.length ≠ 0 := by simp [Session.addressBytes, NetLocation.text]
  have hutf8 : fromUtf8 s.addressBytes = .ok ⟨s.addressBytes, s.location.text_isUtf8⟩ :=
    fromUtf8_bytes ⟨s.addressBytes, s.location.text_isUtf8⟩
  have hfrom := NetLocation.fromStr_text s.location.canonical
    (s := ⟨s.addressBytes, s.location.text_isUtf8⟩) rfl none
  have hl := layout s packetId i n firstByte remaining piece
  generalize packetDatagram s (firstByte :: remaining) packetId i n piece = data at hl
  have hsize := hl.length_eq
  have haddress : parseAddressLen data = .ok (s.addressBytes.length, 9 + remaining.length) := by
    simp only [parseAddressLen, hl.first, hcount, Nat.add_sub_cancel, hl.more, hvalue]
    rw [if_neg (by omega)]
  unfold parseDatagram
  rw [if_neg (by omega)]
  simp only [haddress]
  rw [if_neg hpos, if_neg (by omega), if_neg (by omega), hl.address]
  simp only [hutf8, hfrom, hl.session, hl.packet, hl.id, hl.count, hl.rest,
    u32FromBeBytes_toBeBytes]

end Shoes.Hysteria2.Datagram
