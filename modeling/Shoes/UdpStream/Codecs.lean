import Shoes.UdpStream.Reader

/-! # The frames of UoT and of Trojan

A frame is an address, the length of the payload and the payload; Trojan has a line break between
the last two. Their addresses differ in the type bytes, and Trojan looks whether the text of a
domain is an IP address. -/
namespace Shoes.UdpStream.Codecs
open Lib.Bytes Lib.Io Lib.Utf8 Lib.IpText Lib.Ipv6Text List
open Net.Location Reader

/-! ## Addresses -/

/-- The type bytes of an address format, what it makes of the bytes of a domain, and its error on
any other type byte. -/
structure AddressFormat where
  ipv4 : UInt8
  domain : UInt8
  ipv6 : UInt8
  fromDomain : List UInt8 → Except IoError Address
  unknown : UInt8 → IoError
  domain_ne : domain ≠ ipv4
  ipv6_ne : ipv6 ≠ ipv4 ∧ ipv6 ≠ domain

/-- An address in front of the data and its length, unless more data is needed. -/
def parseAddress (f : AddressFormat) (data : List UInt8) :
    Except IoError (Option (NetLocation × Nat)) :=
  match data with
  | [] => .ok none
  | atyp :: _ =>
    if atyp = f.ipv4 then
      if data.length < 7 then .ok none
      else
        .ok (some (⟨.ipv4 (Ipv4Addr.ofOctets (slice data 1 5)),
          u16FromBeBytes (data.getD 5 0) (data.getD 6 0)⟩, 7))
    else if atyp = f.domain then
      if data.length < 2 then .ok none
      else
        let domainLen := (data.getD 1 0).toNat
        let totalLen := 2 + domainLen + 2
        if data.length < totalLen then .ok none
        else match f.fromDomain (slice data 2 (2 + domainLen)) with
          | .error e => .error e
          | .ok address =>
            .ok (some (⟨address,
              u16FromBeBytes (data.getD (2 + domainLen) 0) (data.getD (3 + domainLen) 0)⟩, totalLen))
    else if atyp = f.ipv6 then
      if data.length < 19 then .ok none
      else
        .ok (some (⟨.ipv6 (Ipv6Addr.ofOctets (slice data 1 17)),
          u16FromBeBytes (data.getD 17 0) (data.getD 18 0)⟩, 19))
    else .error (f.unknown atyp)

def uotFormat : AddressFormat where
  ipv4 := 0x00
  ipv6 := 0x01
  domain := 0x02
  fromDomain bs :=
    match fromUtf8 bs with
    | .error e => .error (IoError.other ("invalid domain: " ++ e.show))
    | .ok name => .ok (.hostname name)
  unknown atyp := IoError.other s!"unknown UoT ATYP: {atyp}"
  domain_ne := by decide
  ipv6_ne := by decide

def trojanFormat : AddressFormat where
  ipv4 := 0x01
  domain := 0x03
  ipv6 := 0x04
  fromDomain bs :=
    match fromUtf8 bs with
    | .error e => .error ⟨.invalidData, "invalid Trojan UDP domain encoding: " ++ e.show⟩
    | .ok name => Address.from name
  unknown atyp := ⟨.invalidData, s!"unknown Trojan UDP address type: {atyp}"⟩
  domain_ne := by decide
  ipv6_ne := by decide

def parseUotAddress : List UInt8 → Except IoError (Option (NetLocation × Nat)) :=
  parseAddress uotFormat

def parseTrojanPacketAddress : List UInt8 → Except IoError (Option (NetLocation × Nat)) :=
  parseAddress trojanFormat

/-- An address on the wire. The name of a domain has at most 255 bytes. -/
def encodeAddress (f : AddressFormat) (l : NetLocation) : List UInt8 :=
  match l.address with
  | .ipv4 ip => f.ipv4 :: ip.octets ++ u16ToBeBytes l.port
  | .ipv6 ip => f.ipv6 :: ip.octets ++ u16ToBeBytes l.port
  | .hostname name =>
    f.domain :: UInt8.ofNat name.bytes.length :: name.bytes ++ u16ToBeBytes l.port

/-- What becomes of an address on its way. -/
def AddressFormat.received (f : AddressFormat) : Address → Except IoError Address
  | .hostname name => f.fromDomain name.bytes
  | address => .ok address

def nameFits : Address → Prop
  | .hostname name => name.bytes.length ≤ 255
  | _ => True

instance (a : Address) : Decidable (nameFits a) :=
  match a with
  | .hostname _ => inferInstanceAs (Decidable (_ ≤ _))
  | .ipv4 _ => inferInstanceAs (Decidable True)
  | .ipv6 _ => inferInstanceAs (Decidable True)

theorem nameLen (h : nameFits (.hostname name)) :
    (UInt8.ofNat name.bytes.length).toNat = name.bytes.length :=
  UInt8.toNat_ofNat_of_lt' (Nat.lt_succ_of_le h)

section
variable {f : AddressFormat} {l : NetLocation}

theorem encodeAddress_ipv4 (ip port) :
    encodeAddress f ⟨.ipv4 ip, port⟩ = f.ipv4 :: (ip.octets ++ u16ToBeBytes port) := rfl

theorem encodeAddress_ipv6 (ip port) :
    encodeAddress f ⟨.ipv6 ip, port⟩ = f.ipv6 :: (ip.octets ++ u16ToBeBytes port) := rfl

theorem encodeAddress_hostname (name port) : encodeAddress f ⟨.hostname name, port⟩ =
      f.domain :: UInt8.ofNat name.bytes.length :: (name.bytes ++ u16ToBeBytes port) := rfl

theorem parseAddress_ipv4 (bs) : parseAddress f (f.ipv4 :: bs) =
      if bs.length + 1 < 7 then .ok none
      else .ok (some (⟨.ipv4 (Ipv4Addr.ofOctets (bs.take 4)),
        u16FromBeBytes (bs.getD 4 0) (bs.getD 5 0)⟩, 7)) := by
  simp [parseAddress, slice]

theorem parseAddress_ipv6 (bs) : parseAddress f (f.ipv6 :: bs) =
      if bs.length + 1 < 19 then .ok none
      else .ok (some (⟨.ipv6 (Ipv6Addr.ofOctets (bs.take 16)),
        u16FromBeBytes (bs.getD 16 0) (bs.getD 17 0)⟩, 19)) := by
  obtain ⟨hv4, hdomain⟩ := f.ipv6_ne
  simp [parseAddress, slice, hv4, hdomain]

theorem parseAddress_domain (n bs) : parseAddress f (f.domain :: n :: bs) =
      if bs.length < n.toNat + 2 then .ok none
      else match f.fromDomain (bs.take n.toNat) with
        | .error e => .error e
        | .ok address =>
          .ok (some (⟨address, u16FromBeBytes (bs.getD n.toNat 0) (bs.getD (n.toNat + 1) 0)⟩,
            2 + n.toNat + 2)) := by
  have hslice : slice (f.domain :: n :: bs) 2 (2 + n.toNat) = bs.take n.toNat := by
    rw [add_comm]; rfl
  have hhi : (f.domain :: n :: bs).getD (2 + n.toNat) 0 = bs.getD n.toNat 0 := by rw [add_comm]; rfl
  have hlo : (f.domain :: n :: bs).getD (3 + n.toNat) 0 = bs.getD (n.toNat + 1) 0 := by
    rw [show 3 + n.toNat = n.toNat + 1 + 1 + 1 by omega]; rfl
  have hlen : (f.domain :: n :: bs).length < 2 + n.toNat + 2 ↔ bs.length < n.toNat + 2 := by
    simp only [length_cons]
    omega
  have htwo : ¬ (f.domain :: n :: bs).length < 2 := by simp
  have hnth : (f.domain :: n :: bs).getD 1 0 = n := rfl
  simp only [parseAddress, f.domain_ne, if_false, if_true, htwo, hnth, hslice, hhi, hlo, hlen]

theorem parseAddress_part (hname : nameFits l.address) (k) (hk : k < (encodeAddress f l).length) :
    parseAddress f ((encodeAddress f l).take k) = .ok none := by
  cases k with
  | zero => rfl
  | succ k =>
    obtain ⟨address, port⟩ := l
    cases address with
    | ipv4 =>
      rw [encodeAddress_ipv4] at hk ⊢
      simp only [length_cons, length_append, Ipv4Addr.octets_length, u16ToBeBytes_length] at hk
      rw [take_succ_cons, parseAddress_ipv4, if_pos]
      rw [length_take]
      omega
    | ipv6 =>
      rw [encodeAddress_ipv6] at hk ⊢
      simp only [length_cons, length_append, Ipv6Addr.octets_length, u16ToBeBytes_length] at hk
      rw [take_succ_cons, parseAddress_ipv6, if_pos]
      rw [length_take]
      omega
    | hostname =>
      rw [encodeAddress_hostname] at hk ⊢
      simp only [length_cons, length_append, u16ToBeBytes_length] at hk
      rw [take_succ_cons]
      cases k with
      | zero => simp [parseAddress, f.domain_ne]
      | succ =>
        rw [take_succ_cons, parseAddress_domain, nameLen hname, if_pos]
        rw [length_take]
        omega

theorem parseAddress_whole (hname : nameFits l.address) (hrecv : f.received l.address = .ok address)
    (rest) : parseAddress f (encodeAddress f l ++ rest) =
      .ok (some (⟨address, l.port⟩, (encodeAddress f l).length)) := by
  obtain ⟨written, port⟩ := l
  cases written with
  | ipv4 =>
    cases hrecv
    rw [encodeAddress_ipv4, cons_append, parseAddress_ipv4, append_assoc]
    simp [Ipv4Addr.octets, Ipv4Addr.ofOctets, u16ToBeBytes]
  | ipv6 ip =>
    cases hrecv
    have htake : (ip.octets ++ u16ToBeBytes port ++ rest).take 16 = ip.octets := by simp
    have hget (i : Nat) : (ip.octets ++ u16ToBeBytes port ++ rest).getD (16 + i) 0 =
        (u16ToBeBytes port ++ rest).getD i 0 := by
      simp [getD_eq_getElem?_getD, List.getElem?_append_right]
    have hofOctets := Ipv6Addr.ofOctets_octets ip []
    rw [append_nil] at hofOctets
    rw [encodeAddress_ipv6, cons_append, parseAddress_ipv6,
      if_neg (by simp; omega), htake, hget 0, hget 1, hofOctets]
    simp [u16ToBeBytes]
  | hostname name =>
    have htake : (name.bytes ++ u16ToBeBytes port ++ rest).take name.bytes.length = name.bytes := by
      simp
    have hget (i : Nat) : (name.bytes ++ u16ToBeBytes port ++ rest).getD (name.bytes.length + i) 0 =
        (u16ToBeBytes port ++ rest).getD i 0 := by
      simp [getD_eq_getElem?_getD, List.getElem?_append_right]
    have hdomain : f.fromDomain name.bytes = .ok address := hrecv
    have h0 := hget 0
    rw [add_zero] at h0
    rw [encodeAddress_hostname, cons_append, cons_append, parseAddress_domain,
      nameLen hname, if_neg (by simp only [length_append, u16ToBeBytes_length]; omega), htake,
      h0, hget 1, hdomain]
    simp [u16ToBeBytes]
    omega

end

/-! ## Frames -/

/-- A frame in front of the data: the target, where the payload starts and how long it is. Between
the length and the payload stands the delimiter. -/
def parseFrame (f : AddressFormat) (delimiter : List UInt8) (missing : IoError)
    (data : List UInt8) : Except IoError (Option (NetLocation × Nat × Nat)) :=
  match parseAddress f data with
  | .error e => .error e
  | .ok none => .ok none
  | .ok (some (target, addrLen)) =>
    if data.length < addrLen + 2 + delimiter.length then .ok none
    else
      let payloadLen := (u16FromBeBytes (data.getD addrLen 0) (data.getD (addrLen + 1) 0)).toNat
      if slice data (addrLen + 2) (addrLen + 2 + delimiter.length) ≠ delimiter then .error missing
      else
        let payloadStart := addrLen + 2 + delimiter.length
        if data.length < payloadStart + payloadLen then .ok none
        else .ok (some (target, payloadStart, payloadLen))

def encodeFrame (f : AddressFormat) (delimiter : List UInt8) (m : Message) : List UInt8 :=
  encodeAddress f m.target ++ (u16ToBeBytes (UInt16.ofNat m.payload.length) ++ delimiter) ++
    m.payload

/-- A frame that the length fields can hold and whose target the reader takes. -/
structure AddressFormat.WellFormed (f : AddressFormat) (m : Message) : Prop where
  name : nameFits m.target.address
  taken : ∃ address, f.received m.target.address = .ok address
  payload : m.payload.length ≤ 65507

/-- What the reader makes of a frame. -/
def AddressFormat.decode (f : AddressFormat) (m : Message) : Message :=
  match f.received m.target.address with
  | .ok address => { m with target := { m.target with address := address } }
  | .error _ => m

section
variable {f : AddressFormat} {delimiter : List UInt8} {missing : IoError} {m : Message}

theorem encodeFrame_length : (encodeFrame f delimiter m).length =
      (encodeAddress f m.target).length + 2 + delimiter.length + m.payload.length := by
  simp only [encodeFrame, length_append, u16ToBeBytes_length]
  omega

theorem parseFrame_head (hm : f.WellFormed m) (hshort : rest.length < 2 + delimiter.length) :
    parseFrame f delimiter missing (encodeAddress f m.target ++ rest) = .ok none := by
  obtain ⟨address, htaken⟩ := hm.taken
  rw [parseFrame, parseAddress_whole hm.name htaken]
  dsimp only
  rw [if_pos]
  rw [length_append]
  omega

theorem parseFrame_body (hm : f.WellFormed m) (rest) :
    parseFrame f delimiter missing (encodeAddress f m.target ++
        (u16ToBeBytes (UInt16.ofNat m.payload.length) ++ delimiter) ++ rest) =
      if rest.length < m.payload.length then .ok none
      else .ok (some ((f.decode m).target,
        (encodeAddress f m.target).length + 2 + delimiter.length, m.payload.length)) := by
  obtain ⟨address, htaken⟩ := hm.taken
  have hdecode : (f.decode m).target = ⟨address, m.target.port⟩ := by
    rw [AddressFormat.decode, htaken]
  have hlen : (UInt16.ofNat m.payload.length).toNat = m.payload.length :=
    UInt16.toNat_ofNat_of_lt' (hm.payload.trans_lt (by decide))
  generalize UInt16.ofNat m.payload.length = field at hlen ⊢
  have hget (i : Nat) : (encodeAddress f m.target ++ (u16ToBeBytes field ++ delimiter) ++ rest).getD
          ((encodeAddress f m.target).length + i) 0 =
        (u16ToBeBytes field ++ delimiter ++ rest).getD i 0 := by
    simp [getD_eq_getElem?_getD, append_assoc, List.getElem?_append_right]
  have hslice : slice (encodeAddress f m.target ++ (u16ToBeBytes field ++ delimiter) ++ rest)
      ((encodeAddress f m.target).length + 2)
      ((encodeAddress f m.target).length + 2 + delimiter.length) = delimiter := by
    rw [← append_assoc (encodeAddress f m.target)]
    exact slice_append_left _ _ _ (by simp) rfl
  have hhi := hget 0
  rw [add_zero] at hhi
  rw [parseFrame, append_assoc, parseAddress_whole hm.name htaken, ← append_assoc]
  dsimp only
  rw [if_neg (by simp only [length_append, u16ToBeBytes_length]; omega), hhi, hget 1, hslice,
    if_neg (by simp), hdecode]
  have hfield : (u16FromBeBytes ((u16ToBeBytes field ++ delimiter ++ rest).getD 0 0)
      ((u16ToBeBytes field ++ delimiter ++ rest).getD 1 0)).toNat = m.payload.length := by
    rw [← hlen]
    exact congrArg UInt16.toNat (u16FromBeBytes_toBeBytes field)
  rw [hfield]
  refine if_congr ?_ rfl rfl
  simp only [length_append, u16ToBeBytes_length]
  omega

theorem decode_payload : (f.decode m).payload = m.payload := by
  unfold AddressFormat.decode
  split <;> rfl

theorem parseFrame_part (hm : f.WellFormed m) (hk : k < (encodeFrame f delimiter m).length) :
    parseFrame f delimiter missing ((encodeFrame f delimiter m).take k) = .ok none := by
  rw [encodeFrame_length] at hk
  by_cases haddr : k < (encodeAddress f m.target).length
  · rw [encodeFrame, append_assoc, take_append_of_le_length haddr.le, parseFrame,
      parseAddress_part hm.name k haddr]
  obtain ⟨j, rfl⟩ := Nat.exists_eq_add_of_le (not_lt.mp haddr)
  by_cases hhead : j < 2 + delimiter.length
  · rw [encodeFrame, append_assoc, take_length_add_append]
    refine parseFrame_head hm ?_
    rw [length_take]
    omega
  obtain ⟨i, rfl⟩ := Nat.exists_eq_add_of_le (not_lt.mp hhead)
  have hlen : (encodeAddress f m.target ++ (u16ToBeBytes (UInt16.ofNat m.payload.length) ++
      delimiter)).length = (encodeAddress f m.target).length + (2 + delimiter.length) := by
    simp
  rw [encodeFrame, ← add_assoc, ← hlen, take_length_add_append, parseFrame_body hm, if_pos]
  rw [length_take]
  omega

theorem parseFrame_progress (h : parseFrame f delimiter missing data = .ok (some (target, start, len))) :
    0 < start + len ∧ start + len ≤ data.length := by
  unfold parseFrame at h
  split at h
  · cases h
  · cases h
  split at h
  · cases h
  dsimp only at h
  obtain ⟨-, h⟩ := of_ite_error h
  split at h <;> cases h
  omega

theorem parseFrame_lawful (hparse : p.tryParse = parseFrame f delimiter missing)
    (hsize : 0 < p.bufferSize) : Lawful p (encodeFrame f delimiter) f.decode f.WellFormed where
  size := hsize
  progress := by
    intro bs target start len h
    rw [hparse] at h
    exact parseFrame_progress h
  empty := by rw [hparse]; rfl
  length := by
    intro m _
    rw [encodeFrame_length]
    omega
  part := by
    intro m hm k hk
    rw [hparse]
    exact parseFrame_part hm hk
  whole := by
    intro m rest hm
    refine ⟨(encodeAddress f m.target).length + 2 + delimiter.length, ?_, ?_, ?_⟩
    · rw [hparse, encodeFrame, append_assoc, parseFrame_body hm, if_neg, decode_payload]
      rw [length_append]
      omega
    · rw [decode_payload, encodeFrame_length]
    rw [decode_payload, encodeFrame]
    refine slice_append_left _ _ _ ?_ ?_
    · simp only [length_append, u16ToBeBytes_length]
      omega
    simp only [length_append, u16ToBeBytes_length]
    omega

end

/-! ## The two protocols -/

/-- `try_parse_packet` of UoT, where nothing stands between the length and the payload. -/
def uotTryParsePacket (data : List UInt8) : Except IoError (Option (NetLocation × Nat × Nat)) :=
  match parseUotAddress data with
  | .error e => .error e
  | .ok none => .ok none
  | .ok (some (location, addrLen)) =>
    if data.length < addrLen + 2 then .ok none
    else
      let payloadLen := (u16FromBeBytes (data.getD addrLen 0) (data.getD (addrLen + 1) 0)).toNat
      let payloadStart := addrLen + 2
      if data.length < payloadStart + payloadLen then .ok none
      else .ok (some (location, payloadStart, payloadLen))

def crlfBytes : List UInt8 := [0x0d, 0x0a]

def missingCrlf : IoError := ⟨.invalidData, "Trojan UDP frame missing CRLF after length"⟩

def trojanTryParsePacket : List UInt8 → Except IoError (Option (NetLocation × Nat × Nat)) :=
  parseFrame trojanFormat crlfBytes missingCrlf

theorem uotTryParsePacket_eq (missing) : uotTryParsePacket = parseFrame uotFormat [] missing := by
  funext data
  unfold uotTryParsePacket parseFrame parseUotAddress
  split
  · rfl
  · rfl
  · simp [slice]

inductive Kind
  | uot
  | trojan
  deriving DecidableEq

namespace Kind

def bufferSize : Kind → Nat
  | uot => 65535
  | trojan => 65535 + (1 + 255 + 2) + 2 + crlfBytes.length

def protocol : Kind → Protocol
  | uot =>
    { bufferSize := bufferSize .uot
      tryParse := uotTryParsePacket
      skipsEmpty := false
      bufferFull := IoError.other "packet-address read buffer full but no complete packet" }
  | trojan =>
    { bufferSize := bufferSize .trojan
      tryParse := trojanTryParsePacket
      skipsEmpty := true
      bufferFull := IoError.other "Trojan UDP read buffer full but no complete packet" }

def format : Kind → AddressFormat
  | uot => uotFormat
  | trojan => trojanFormat

def delimiter : Kind → List UInt8
  | uot => []
  | trojan => crlfBytes

def encode (k : Kind) : Message → List UInt8 := encodeFrame k.format k.delimiter

theorem lawful (k : Kind) : Lawful k.protocol k.encode k.format.decode k.format.WellFormed := by
  cases k with
  | uot => exact parseFrame_lawful (uotTryParsePacket_eq missingCrlf) (by decide)
  | trojan => exact parseFrame_lawful rfl (by decide)

end Kind

end Shoes.UdpStream.Codecs
