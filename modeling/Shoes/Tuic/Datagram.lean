import Shoes.Tuic.Reply

/-! # TUIC datagrams

The datagram half of the reply loop, which cuts what does not fit into fragments, and the
parser of `run_datagram_loop`. -/
namespace Shoes.Tuic.Datagram
open Lib.Io Lib.Utf8 Lib.Bytes Lib.IpText Lib.Ipv6Text List
open Lib.Slots Net.Location Net.Fragments Codec Reply

/-! ## Sending -/

def packetDatagram (s : Session) (packetId : UInt16) (fragmentCount fragmentId : Nat)
    (piece : List UInt8) : List UInt8 :=
  packetFields s.assocId packetId (UInt8.ofNat fragmentCount) (UInt8.ofNat fragmentId)
      piece.length ++
    (if fragmentId = 0 then s.addressBytes else [0xff]) ++ piece

/-- `for fragment_id in 0..fragment_count`, with `left` rounds to go. -/
def fragmentLoop (s : Session) (packetId : UInt16) (fragmentCount firstCapacity otherCapacity : Nat)
    (payload : List UInt8) : Nat → Nat → Nat → List (List UInt8)
  | 0, _, _ => []
  | left + 1, fragmentId, offset =>
    let fragmentPayloadLen :=
      if fragmentId = 0 then min firstCapacity payload.length
      else min otherCapacity (payload.length - offset)
    packetDatagram s packetId fragmentCount fragmentId
        (slice payload offset (offset + fragmentPayloadLen)) ::
      fragmentLoop s packetId fragmentCount firstCapacity otherCapacity payload left
        (fragmentId + 1) (offset + fragmentPayloadLen)

def datagramReply (maxDatagramSize : Nat) (s : Session) (packetId : UInt16) (payload : Payload) :
    Except IoError (List (List UInt8)) :=
  let headerOverhead := 1 + 1 + 2 + 2 + 1 + 1 + 2 + s.addressBytes.length
  let payloadLen := payload.bytes.length
  if headerOverhead + payloadLen ≤ maxDatagramSize then
    .ok [packetDatagram s packetId 1 0 payload.bytes]
  else
    let otherOverhead := 1 + 1 + 2 + 2 + 1 + 1 + 2 + 1
    if maxDatagramSize ≤ headerOverhead ∨ maxDatagramSize ≤ otherOverhead then
      .error (IoError.other
        s!"max datagram size ({maxDatagramSize}) too small for TUIC fragmentation")
    else
      let firstCapacity := maxDatagramSize - headerOverhead
      let otherCapacity := maxDatagramSize - otherOverhead
      let remaining := payloadLen - firstCapacity
      -- `div_ceil`
      let additionalFragments := (remaining + otherCapacity - 1) / otherCapacity
      let fragmentCount := 1 + additionalFragments
      if fragmentCount > 255 then
        .error (IoError.other s!"TUIC UDP payload length {payloadLen} requires too many fragments")
      else
        .ok (fragmentLoop s packetId fragmentCount firstCapacity otherCapacity payload.bytes
          fragmentCount 0 0)

theorem fragmentLoop_other (s packetId fragmentCount firstCapacity otherCapacity payload) :
    ∀ (left i offset : Nat), i ≠ 0 → offset ≤ payload.length →
      fragmentLoop s packetId fragmentCount firstCapacity otherCapacity payload left i offset =
        (pieces otherCapacity left (payload.drop offset)).mapIdx fun j piece =>
          packetDatagram s packetId fragmentCount (i + j) piece
  | 0, _, _, _, _ => rfl
  | left + 1, i, offset, hi, ho => by
    have hpiece : slice payload offset (offset + min otherCapacity (payload.length - offset)) =
        (payload.drop offset).take otherCapacity := by
      rw [slice, drop_take, Nat.add_sub_cancel_left, ← length_drop, ← take_eq_take_min]
    have hdrop : payload.drop (offset + min otherCapacity (payload.length - offset)) =
        (payload.drop offset).drop otherCapacity := by
      rw [drop_drop]
      by_cases hle : otherCapacity ≤ payload.length - offset
      · rw [min_eq_left hle]
      · rw [drop_of_length_le (by omega), drop_of_length_le (by omega)]
    have ih := fragmentLoop_other s packetId fragmentCount firstCapacity otherCapacity payload left
      (i + 1) (offset + min otherCapacity (payload.length - offset)) (by omega) (by omega)
    simp only [fragmentLoop, hi, if_false, hpiece, ih, hdrop, pieces, mapIdx_cons, add_zero]
    congr 2
    funext j piece
    rw [add_assoc, add_comm 1 j]

theorem fragmentLoop_eq (s packetId fragmentCount firstCapacity otherCapacity) (n)
    (hfirst : firstCapacity ≤ payload.length) :
    fragmentLoop s packetId fragmentCount firstCapacity otherCapacity payload (n + 1) 0 0 =
      (payload.take firstCapacity :: pieces otherCapacity n (payload.drop firstCapacity)).mapIdx
          (packetDatagram s packetId fragmentCount) := by
  have hloop := fragmentLoop_other s packetId fragmentCount firstCapacity otherCapacity payload n 1
    firstCapacity (by decide) hfirst
  simp only [fragmentLoop, if_true, min_eq_left hfirst, zero_add, hloop, mapIdx_cons]
  congr 2
  funext j piece
  rw [add_comm]

theorem packetDatagram_length (s packetId fragmentCount i piece) :
    (packetDatagram s packetId fragmentCount i piece).length =
      10 + (if i = 0 then s.addressBytes.length else 1) + piece.length := by
  have hfields : ∀ t f n, (packetFields s.assocId packetId t f n).length = 10 := fun _ _ _ => rfl
  unfold packetDatagram
  rw [length_append, length_append, hfields]
  split <;> simp

/-- What a reply in datagram mode sends: the pieces of a way to cut the payload, numbered,
each datagram within the limit. -/
structure Cut (maxDatagramSize : Nat) (s : Session) (packetId : UInt16) (payload : List UInt8)
    (datagrams pieces : List (List UInt8)) : Prop where
  datagrams_eq : datagrams = pieces.mapIdx (packetDatagram s packetId pieces.length)
  flatten_eq : pieces.flatten = payload
  pos : 1 ≤ pieces.length
  count_le : pieces.length ≤ 255
  length_le : ∀ d ∈ datagrams, d.length ≤ maxDatagramSize

theorem datagramReply_cut (h : datagramReply maxDatagramSize s packetId payload = .ok datagrams) :
    ∃ pieces, Cut maxDatagramSize s packetId payload.bytes datagrams pieces := by
  unfold datagramReply at h
  dsimp only at h
  split at h
  · rename_i hfits
    cases h
    refine ⟨[payload.bytes], rfl, by simp, by simp, by simp, ?_⟩
    intro d hd
    rw [mem_singleton.mp hd, packetDatagram_length, if_pos rfl]
    omega
  split at h
  · cases h
  split at h <;> cases h
  rename_i hbig hsmall hcount
  generalize hfirst : maxDatagramSize -
    (1 + 1 + 2 + 2 + 1 + 1 + 2 + s.addressBytes.length) = firstCapacity at hcount ⊢
  generalize hother : maxDatagramSize - (1 + 1 + 2 + 2 + 1 + 1 + 2 + 1) = otherCapacity
    at hcount ⊢
  generalize hn : (payload.bytes.length - firstCapacity + otherCapacity - 1) /
    otherCapacity = n at hcount ⊢
  have hcover : payload.bytes.length - firstCapacity ≤ n * otherCapacity := by
    rw [← hn]; exact le_div_ceil_mul _ (by omega)
  refine ⟨payload.bytes.take firstCapacity ::
    pieces otherCapacity n (payload.bytes.drop firstCapacity), ?_, ?_, ?_, ?_, ?_⟩
  · rw [add_comm 1 n, fragmentLoop_eq s packetId _ _ _ n (by omega), length_cons, pieces_length]
  · rw [flatten_cons, pieces_flatten (by rw [length_drop]; exact hcover), take_append_drop]
  · simp
  · rw [length_cons, pieces_length]; omega
  intro d hd
  rw [add_comm 1 n, fragmentLoop_eq s packetId _ _ _ n (by omega)] at hd
  obtain ⟨i, hi, rfl⟩ := mem_mapIdx.mp hd
  rw [packetDatagram_length]
  cases i with
  | zero =>
    rw [getElem_cons_zero, if_pos rfl, length_take]
    omega
  | succ i =>
    rw [getElem_cons_succ, if_neg (Nat.succ_ne_zero i)]
    have := pieces_length_le (getElem_mem (l := pieces otherCapacity n
      (payload.bytes.drop firstCapacity)) (n := i) (by simpa using hi))
    omega

/-! ## Parsing -/

/-- A packet as it comes off the wire: one fragment of a UDP packet. -/
structure Packet where
  assocId : UInt16
  packetId : UInt16
  fragTotal : UInt8
  fragId : UInt8
  remoteLocation : Option NetLocation
  payload : List UInt8
  deriving DecidableEq

inductive Message
  | heartbeat
  | packet (p : Packet)
  deriving DecidableEq

/-- The address in a datagram, and the offset behind it. -/
def parseAddress (data : List UInt8) (payloadSize : Nat) :
    Except IoError (Option NetLocation × Nat) :=
  let addressType := data.getD 10 0
  if addressType = 0xff then .ok (none, 11)
  else if addressType = 0x00 then
    if data.length < 14 then .error (IoError.other "decode UDP message: hostname too short")
    else
      let addressLen := (data.getD 11 0).toNat
      if data.length < 12 + addressLen + 2 + payloadSize then
        .error (IoError.other "decode UDP message: truncated hostname")
      else
        match utf8OrError .other "decode UDP message: invalid UTF-8: "
            (slice data 12 (12 + addressLen)) with
        | .error e => .error e
        | .ok addressStr =>
          match Address.from addressStr with
          | .error e => .error (IoError.other ("decode UDP message: invalid address: " ++ e.message))
          | .ok address =>
            let port := u16FromBeBytes (data.getD (12 + addressLen) 0)
              (data.getD (12 + addressLen + 1) 0)
            .ok (some ⟨address, port⟩, 12 + addressLen + 2)
  else if addressType = 0x01 then
    if data.length < 17 + payloadSize then
      .error (IoError.other "decode UDP message: IPv4 too short")
    else
      let addr := Ipv4Addr.ofOctets (slice data 11 15)
      let port := u16FromBeBytes (data.getD 15 0) (data.getD 16 0)
      .ok (some ⟨.ipv4 addr, port⟩, 17)
  else if addressType = 0x02 then
    if data.length < 29 + payloadSize then
      .error (IoError.other "decode UDP message: IPv6 too short")
    else
      let addr := Ipv6Addr.ofOctets (slice data 11 27)
      let port := u16FromBeBytes (data.getD 27 0) (data.getD 28 0)
      .ok (some ⟨.ipv6 addr, port⟩, 29)
  else .error (IoError.other s!"decode UDP message: invalid address type: {addressType}")

/-- What `run_datagram_loop` does with a datagram before it looks at its fragments. -/
def parseDatagram (data : List UInt8) : Except IoError Message :=
  if data.length < 2 then .error (IoError.other "invalid message: too short")
  else if data.getD 0 0 ≠ 5 then .error (IoError.other s!"unknown version: {data.getD 0 0}")
  else if data.getD 1 0 = commandTypeHeartbeat then .ok .heartbeat
  else if data.getD 1 0 ≠ commandTypePacket then
    .error (IoError.other s!"unknown command: {data.getD 1 0}")
  else if data.length < 11 then .error (IoError.other "decode UDP message: too short")
  else
    let payloadSize := (u16FromBeBytes (data.getD 8 0) (data.getD 9 0)).toNat
    match parseAddress data payloadSize with
    | .error e => .error e
    | .ok (remoteLocation, offset) =>
      if data.length < offset + payloadSize then
        .error (IoError.other "decode UDP message: truncated payload")
      else .ok (.packet {
        assocId := u16FromBeBytes (data.getD 2 0) (data.getD 3 0)
        packetId := u16FromBeBytes (data.getD 4 0) (data.getD 5 0)
        fragTotal := data.getD 6 0
        fragId := data.getD 7 0
        remoteLocation
        payload := slice data offset (offset + payloadSize) })

/-! ## Parsing what was sent -/

theorem packetFields_length (assocId packetId fragTotal fragId n) :
    (packetFields assocId packetId fragTotal fragId n).length = 10 := rfl

/-- Where the parts of a datagram with an address lie. -/
structure AddressLayout (data : List UInt8) (addressType : UInt8) (body : List UInt8)
    (port : UInt16) (pieceLength : Nat) : Prop where
  length_eq : data.length = 13 + body.length + pieceLength
  type_eq : data.getD 10 0 = addressType
  body_eq : slice data 11 (11 + body.length) = body
  port_eq : u16FromBeBytes (data.getD (11 + body.length) 0) (data.getD (11 + body.length + 1) 0) =
    port

theorem addressLayout (hf : fields.length = 10) (addressType body port piece) :
    AddressLayout (fields ++ (addressType :: body ++ u16ToBeBytes port) ++ piece) addressType body
      port piece.length where
  length_eq := by
    simp only [length_append, length_cons, u16ToBeBytes_length]
    omega
  type_eq := by
    rw [append_assoc, cons_append]
    exact getD_append_cons _ _ _ hf
  body_eq := by
    have h := slice_append_left (fields ++ [addressType]) body (u16ToBeBytes port ++ piece)
      (i := 11) (j := 11 + body.length) (by simp [hf]) rfl
    simpa using h
  port_eq := by
    have hhi := getD_append_cons (fields ++ addressType :: body) (port.toUInt8 :: piece)
      (UInt8.ofNat (port.toNat / 256)) (i := 11 + body.length) (by simp [hf]; omega)
    have hlo := getD_append_cons (fields ++ addressType :: body ++ [UInt8.ofNat (port.toNat / 256)])
      piece port.toUInt8 (i := 11 + body.length + 1) (by simp [hf]; omega)
    simp only [append_assoc, cons_append, nil_append] at hhi hlo
    simp only [u16ToBeBytes, append_assoc, cons_append, nil_append, hhi, hlo,
      u16FromBeBytes_toBeBytes]

section
variable {data : List UInt8} {port : UInt16} {n : Nat}

theorem parseAddress_ipv4 (h : AddressLayout data 0x01 addr.octets port n) :
    parseAddress data n = .ok (some ⟨.ipv4 addr, port⟩, 17) := by
  obtain ⟨hlen, htype, hbody, hport⟩ := h
  rw [Ipv4Addr.octets_length] at hlen hbody hport
  have haddr : Ipv4Addr.ofOctets addr.octets = addr := rfl
  simp only [parseAddress, htype]
  rw [if_neg (by decide), if_neg (by decide), if_pos trivial, if_neg (by omega), hbody, hport, haddr]

theorem parseAddress_ipv6 (h : AddressLayout data 0x02 addr.octets port n) :
    parseAddress data n = .ok (some ⟨.ipv6 addr, port⟩, 29) := by
  obtain ⟨hlen, htype, hbody, hport⟩ := h
  rw [Ipv6Addr.octets_length] at hlen hbody hport
  have haddr := Ipv6Addr.ofOctets_octets addr []
  rw [append_nil] at haddr
  simp only [parseAddress, htype]
  rw [if_neg (by decide), if_neg (by decide), if_neg (by decide), if_pos trivial,
    if_neg (by omega), hbody, hport, haddr]

theorem parseAddress_hostname (hfits : name.bytes.length ≤ 255)
    (hcanon : Address.from name = .ok (.hostname name))
    (h : AddressLayout data 0x00 (UInt8.ofNat name.bytes.length :: name.bytes) port n) :
    parseAddress data n = .ok (some ⟨.hostname name, port⟩, 14 + name.bytes.length) := by
  obtain ⟨hlen, htype, hbody, hport⟩ := h
  rw [length_cons] at hlen hbody hport
  have hcount : (UInt8.ofNat name.bytes.length).toNat = name.bytes.length := by
    simp only [UInt8.toNat_ofNat']; omega
  have hsplit := slice_cons hbody
  have hname : slice data 12 (12 + name.bytes.length) = name.bytes := by
    rw [show 12 + name.bytes.length = 11 + (name.bytes.length + 1) by omega]
    exact hsplit.2
  rw [show 11 + (name.bytes.length + 1) = 12 + name.bytes.length by omega] at hport
  simp only [parseAddress, htype, hsplit.1, hcount, hname, hport]
  rw [if_neg (by decide), if_pos trivial, if_neg (by omega), if_neg (by omega)]
  simp only [utf8OrError, fromUtf8_bytes, hcanon]
  congr 2
  omega

end

theorem parseAddress_serialize (hf : fields.length = 10) (l : WireLocation) (piece : List UInt8) :
    parseAddress (fields ++ serializeAddress l.toNetLocation ++ piece) piece.length =
      .ok (some l.toNetLocation, 10 + (serializeAddress l.toNetLocation).length) := by
  obtain ⟨⟨address, port⟩, hcanon, hfits⟩ := l
  cases address with
  | ipv4 addr => exact parseAddress_ipv4 (addressLayout hf 0x01 addr.octets port piece)
  | ipv6 addr =>
    rw [show 10 + (serializeAddress ⟨.ipv6 addr, port⟩).length = 29 by simp [serializeAddress]]
    exact parseAddress_ipv6 (addressLayout hf 0x02 addr.octets port piece)
  | hostname name =>
    rw [show 10 + (serializeAddress ⟨.hostname name, port⟩).length = 14 + name.bytes.length by
      simp [serializeAddress]; omega]
    exact parseAddress_hostname hfits hcanon (addressLayout hf 0x00 _ port piece)

theorem parseAddress_none (hf : fields.length = 10) (piece n) : parseAddress
    (fields ++ [0xff] ++ piece) n = .ok (none, 11) := by
  have htype : (fields ++ [0xff] ++ piece).getD 10 0 = 0xff := by
    rw [append_assoc]
    exact getD_append_cons fields piece 0xff hf
  simp only [parseAddress, htype]
  rw [if_pos trivial]

/-- Where the fields of a packet lie. -/
structure FieldLayout (data : List UInt8) (assocId packetId : UInt16) (fragTotal fragId : UInt8)
    (payloadLen : Nat) : Prop where
  version : data.getD 0 0 = 5
  command : data.getD 1 0 = commandTypePacket
  assoc : u16FromBeBytes (data.getD 2 0) (data.getD 3 0) = assocId
  packet : u16FromBeBytes (data.getD 4 0) (data.getD 5 0) = packetId
  total : data.getD 6 0 = fragTotal
  id : data.getD 7 0 = fragId
  size : u16FromBeBytes (data.getD 8 0) (data.getD 9 0) = UInt16.ofNat payloadLen

theorem fieldLayout (assocId packetId fragTotal fragId n rest) :
    FieldLayout (packetFields assocId packetId fragTotal fragId n ++ rest) assocId packetId
      fragTotal fragId n where
  version := rfl
  command := rfl
  assoc := u16FromBeBytes_toBeBytes assocId
  packet := u16FromBeBytes_toBeBytes packetId
  total := rfl
  id := rfl
  size := u16FromBeBytes_toBeBytes (UInt16.ofNat n)

theorem parseDatagram_layout (h : FieldLayout data assocId packetId fragTotal fragId payloadLen)
    (hp : payloadLen ≤ 65535)
    (ha : parseAddress data payloadLen = .ok (remoteLocation, offset)) (ho : 11 ≤ offset)
    (hlen : data.length = offset + payloadLen) :
    parseDatagram data = .ok (.packet ⟨assocId, packetId, fragTotal, fragId, remoteLocation,
      slice data offset (offset + payloadLen)⟩) := by
  have hsize : (UInt16.ofNat payloadLen).toNat = payloadLen := by rw [UInt16.toNat_ofNat']; omega
  simp only [parseDatagram, h.version, h.command, h.assoc, h.packet, h.total, h.id, h.size, hsize,
    ha]
  rw [if_neg (by omega), if_neg (by decide), if_neg (by decide), if_neg (by decide),
    if_neg (by omega), if_neg (by omega)]

theorem parseDatagram_fields (hp : piece.length ≤ 65535)
    (h : parseAddress (packetFields assocId packetId fragTotal fragId piece.length ++ address ++
      piece) piece.length = .ok (remoteLocation, 10 + address.length)) (ha : 0 < address.length) :
    parseDatagram (packetFields assocId packetId fragTotal fragId piece.length ++ address ++
      piece) = .ok (.packet ⟨assocId, packetId, fragTotal, fragId, remoteLocation, piece⟩) := by
  have hlen : (packetFields assocId packetId fragTotal fragId piece.length ++ address ++
      piece).length = 10 + address.length + piece.length := by
    rw [length_append, length_append, packetFields_length]
  have hpiece := slice_append_left
    (packetFields assocId packetId fragTotal fragId piece.length ++ address) piece []
    (i := 10 + address.length) (j := 10 + address.length + piece.length)
    (by rw [length_append, packetFields_length]) rfl
  rw [append_nil] at hpiece
  have hfields := fieldLayout assocId packetId fragTotal fragId piece.length (address ++ piece)
  rw [← append_assoc] at hfields
  rw [parseDatagram_layout hfields hp h (by omega) hlen, hpiece]

/-- **A sent datagram parses back** into the fragment it was made of. -/
theorem parseDatagram_packetDatagram (s packetId fragmentCount i) (hp : piece.length ≤ 65535) :
    parseDatagram (packetDatagram s packetId fragmentCount i piece) = .ok (.packet {
      assocId := s.assocId
      packetId := packetId
      fragTotal := UInt8.ofNat fragmentCount
      fragId := UInt8.ofNat i
      remoteLocation := if i = 0 then some s.location.toNetLocation else none
      payload := piece }) := by
  unfold packetDatagram
  by_cases hi : i = 0
  · simp only [hi, if_true]
    exact parseDatagram_fields hp
      (parseAddress_serialize (packetFields_length ..) s.location piece)
      (by cases s.location.address <;> simp [Session.addressBytes, serializeAddress])
  simp only [hi, if_false]
  exact parseDatagram_fields hp (parseAddress_none (packetFields_length ..) piece _) (by simp)

end Shoes.Tuic.Datagram
