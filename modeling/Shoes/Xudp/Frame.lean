import Shoes.Lib.Cursor
import Shoes.Net.Location

/-! # XUDP frames

`FrameMetadata` and its encoder and decoder. The decoder checks that the buffer holds as many bytes
as the metadata declares, but reads the target with no regard to where the metadata ends. -/
namespace Shoes.Xudp.Frame
open Lib.Io Lib.Utf8 Lib.Bytes Lib.IpText Lib.Ipv6Text List
open Lib.Cursor Net.Location

inductive SessionStatus
  | new
  | keep
  | end_
  | keepAlive
  deriving DecidableEq

def SessionStatus.toByte : SessionStatus → UInt8
  | .new => 0x01
  | .keep => 0x02
  | .end_ => 0x03
  | .keepAlive => 0x04

def SessionStatus.tryFrom (value : UInt8) : Except IoError SessionStatus :=
  if value = 0x01 then .ok .new
  else if value = 0x02 then .ok .keep
  else if value = 0x03 then .ok .end_
  else if value = 0x04 then .ok .keepAlive
  else .error ⟨.invalidData, s!"invalid session status: {value}"⟩

theorem SessionStatus.eq_of_tryFrom {value status}
    (h : SessionStatus.tryFrom value = .ok status) : value = status.toByte := by
  unfold SessionStatus.tryFrom at h
  repeat' split at h
  all_goals cases h
  all_goals assumption

structure FrameOption where
  raw : UInt8
  deriving DecidableEq

def FrameOption.hasData (option : FrameOption) : Bool := option.raw &&& 0x01 ≠ 0

def FrameOption.hasError (option : FrameOption) : Bool := option.raw &&& 0x02 ≠ 0

inductive TargetNetwork
  | tcp
  | udp
  deriving DecidableEq

def TargetNetwork.toByte : TargetNetwork → UInt8
  | .tcp => 0x01
  | .udp => 0x02

def TargetNetwork.tryFrom (value : UInt8) : Except IoError TargetNetwork :=
  if value = 0x01 then .ok .tcp
  else if value = 0x02 then .ok .udp
  else .error ⟨.invalidData, s!"invalid network type: {value}"⟩

structure FrameMetadata where
  sessionId : UInt16
  status : SessionStatus
  option : FrameOption
  target : Option NetLocation
  network : Option TargetNetwork
  deriving DecidableEq

/-! ## Encoding -/

def encodeAddress : Address → Except IoError (List UInt8)
  | .ipv4 addr => .ok (0x01 :: addr.octets)
  | .hostname name =>
    if name.bytes.length > 255 then .error ⟨.invalidInput, "hostname too long"⟩
    else .ok (0x02 :: UInt8.ofNat name.bytes.length :: name.bytes)
  | .ipv6 addr => .ok (0x03 :: addr.octets)

/-- Network, port and address of a target. -/
def encodeTarget (network : TargetNetwork) (target : NetLocation) : Except IoError (List UInt8) :=
  (encodeAddress target.address).map fun address =>
    network.toByte :: u16ToBeBytes target.port ++ address

def encodeDestination (metadata : FrameMetadata) : Except IoError (List UInt8) :=
  if metadata.status = .new then
    match metadata.network with
    | none => .error ⟨.invalidInput, "network required for SessionStatusNew"⟩
    | some network =>
      match metadata.target with
      | none => .error ⟨.invalidInput, "target required for SessionStatusNew"⟩
      | some target => encodeTarget network target
  else if metadata.status = .keep ∧ metadata.network = some .udp then
    match metadata.target with
    | none => .error ⟨.invalidInput, "target required for Keep+UDP"⟩
    | some target => encodeTarget .udp target
  else .ok []

/-- `FrameMetadata::encode`: the bytes it appends to the buffer. -/
def FrameMetadata.encode (metadata : FrameMetadata) : Except IoError (List UInt8) :=
  (encodeDestination metadata).map fun destination =>
    let body := u16ToBeBytes metadata.sessionId ++
      [metadata.status.toByte, metadata.option.raw] ++ destination
    u16ToBeBytes (UInt16.ofNat body.length) ++ body

/-! ## Decoding -/

def decodeIpv4 : Cursor Address := do
  if (← remaining) < 4 then fail ⟨.unexpectedEof, "incomplete IPv4 address"⟩
  else
    let octets ← copyTo 4
    pure (.ipv4 (Ipv4Addr.ofOctets octets))

def decodeHostname : Cursor Address := do
  if (← remaining) < 1 then fail ⟨.unexpectedEof, "incomplete hostname length"⟩
  else
    let len ← getU8
    if (← remaining) < len.toNat then fail ⟨.unexpectedEof, "incomplete hostname"⟩
    else
      let hostnameBytes ← copyTo len.toNat
      match fromUtf8 hostnameBytes with
      | .error e => fail ⟨.invalidData, e.show⟩
      | .ok hostname => ofExcept (Address.from hostname)

def decodeIpv6 : Cursor Address := do
  if (← remaining) < 16 then fail ⟨.unexpectedEof, "incomplete IPv6 address"⟩
  else
    let octets ← copyTo 16
    pure (.ipv6 (Ipv6Addr.ofOctets octets))

def decodeAddress : Cursor Address := do
  if (← remaining) < 1 then fail ⟨.unexpectedEof, "incomplete address type"⟩
  else
    let addrType ← getU8
    if addrType = 0x01 then decodeIpv4
    else if addrType = 0x02 then decodeHostname
    else if addrType = 0x03 then decodeIpv6
    else fail ⟨.invalidData, s!"invalid address type: {addrType}"⟩

/-- Network, port and address of a target. -/
def decodeTarget : Cursor (TargetNetwork × NetLocation) := do
  let network ← ofExcept (TargetNetwork.tryFrom (← getU8))
  let port ← getU16
  let address ← decodeAddress
  pure (network, ⟨address, port⟩)

/-- Whether a destination is to be parsed. -/
def hasDestination (status : SessionStatus) (remainingMetadata : Nat) : Cursor Bool := do
  if remainingMetadata = 0 then pure false
  else if status = .new then pure true
  else if status = .keep ∧ (← remaining) > 0 then pure ((← front) = 0x02)
  else pure false

/-- The metadata behind its length field. -/
def decodeBody (metadataLen : Nat) : Cursor FrameMetadata := do
  let metadataStart ← remaining
  let sessionId ← getU16
  let status ← ofExcept (SessionStatus.tryFrom (← getU8))
  let option := FrameOption.mk (← getU8)
  let destination ←
    if ← hasDestination status (metadataLen - 4) then
      let (network, target) ← decodeTarget
      pure (some (network, target))
    else pure none
  -- skip what was not parsed: a GlobalID, or padding
  let consumed := metadataStart - (← remaining)
  advance (metadataLen - consumed)
  pure {
    sessionId, status, option
    target := destination.map Prod.snd
    network := destination.map Prod.fst }

/-- The length that the metadata declares. -/
def metadataLen (buf : List UInt8) : Nat := (u16FromBeBytes (buf.getD 0 0) (buf.getD 1 0)).toNat

def FrameMetadata.decode : Cursor (Option FrameMetadata) := fun buf =>
  if buf.length < 2 then .ok none buf
  else if buf.length < 2 + metadataLen buf then .ok none buf
  else
    (do
      advance 2
      if metadataLen buf < 4 then
        fail ⟨.invalidData, s!"metadata too short: {metadataLen buf}"⟩
      else
        let metadata ← decodeBody (metadataLen buf)
        pure (some metadata) : Cursor (Option FrameMetadata)) buf

/-! ## How far the decoder reads -/

/-- The reader does not panic, and takes `n` bytes, whether it succeeds or not. -/
def Takes {α : Type} (m : Cursor α) (buf : List UInt8) (n : Nat) : Prop :=
  (∃ a, m buf = .ok a (buf.drop n)) ∨ ∃ e, m buf = .err e (buf.drop n)

/-- How much is taken where `n` bytes are to be there. -/
def fieldTaken (n : Nat) (buf : List UInt8) : Nat := if buf.length < n then 0 else n

def hostnameTaken : List UInt8 → Nat
  | [] => 0
  | len :: name => 1 + fieldTaken len.toNat name

/-- How much of a buffer `decode_address` takes. -/
def addressTaken : List UInt8 → Nat
  | [] => 0
  | addrType :: rest =>
    1 + if addrType = 0x01 then fieldTaken 4 rest
      else if addrType = 0x02 then hostnameTaken rest
      else if addrType = 0x03 then fieldTaken 16 rest
      else 0

variable (buf : List UInt8)

theorem decodeIpv4_takes : Takes decodeIpv4 buf (fieldTaken 4 buf) := by
  unfold Takes fieldTaken
  by_cases h : buf.length < 4
  · refine .inr ⟨⟨.unexpectedEof, "incomplete IPv4 address"⟩, ?_⟩
    simp [decodeIpv4, bind_apply, remaining, h, fail]
  refine .inl ⟨.ipv4 (Ipv4Addr.ofOctets (buf.take 4)), ?_⟩
  simp [decodeIpv4, bind_apply, remaining, h, copyTo, not_lt.mp h]

theorem decodeIpv6_takes : Takes decodeIpv6 buf (fieldTaken 16 buf) := by
  unfold Takes fieldTaken
  by_cases h : buf.length < 16
  · refine .inr ⟨⟨.unexpectedEof, "incomplete IPv6 address"⟩, ?_⟩
    simp [decodeIpv6, bind_apply, remaining, h, fail]
  refine .inl ⟨.ipv6 (Ipv6Addr.ofOctets (buf.take 16)), ?_⟩
  simp [decodeIpv6, bind_apply, remaining, h, copyTo, not_lt.mp h]

theorem decodeHostname_takes : Takes decodeHostname buf (hostnameTaken buf) := by
  unfold Takes
  match buf with
  | [] => exact .inr ⟨_, rfl⟩
  | len :: name =>
    rw [hostnameTaken, fieldTaken, add_comm, drop_succ_cons]
    by_cases h : name.length < len.toNat
    · refine .inr ⟨⟨.unexpectedEof, "incomplete hostname"⟩, ?_⟩
      simp [decodeHostname, bind_apply, remaining, getU8, h, fail]
    have hname : decodeHostname (len :: name) = (match fromUtf8 (name.take len.toNat) with
          | .error e => fail ⟨.invalidData, e.show⟩
          | .ok hostname => ofExcept (Address.from hostname) : Cursor Address)
          (name.drop len.toNat) := by
      simp [decodeHostname, bind_apply, remaining, getU8, h, copyTo, not_lt.mp h]
    rw [hname, if_neg h]
    rcases fromUtf8 (name.take len.toNat) with _ | hostname
    · exact .inr ⟨_, rfl⟩
    cases hfrom : Address.from hostname with
    | ok address => exact .inl ⟨address, by simp [hfrom]⟩
    | error e => exact .inr ⟨e, by simp [hfrom]⟩

theorem decodeAddress_takes : Takes decodeAddress buf (addressTaken buf) := by
  match buf with
  | [] => exact .inr ⟨_, rfl⟩
  | addrType :: rest =>
    have hbody : decodeAddress (addrType :: rest) = (if addrType = 0x01 then decodeIpv4
          else if addrType = 0x02 then decodeHostname
          else if addrType = 0x03 then decodeIpv6
          else fail ⟨.invalidData, s!"invalid address type: {addrType}"⟩ : Cursor Address) rest := by
      simp [decodeAddress, bind_apply, remaining, getU8]
    unfold Takes
    rw [hbody, addressTaken, add_comm, drop_succ_cons]
    split
    · exact decodeIpv4_takes rest
    split
    · exact decodeHostname_takes rest
    split
    · exact decodeIpv6_takes rest
    · exact .inr ⟨_, rfl⟩

theorem fieldTaken_le (n buf) : fieldTaken n buf ≤ buf.length := by
  unfold fieldTaken
  split <;> omega

theorem addressTaken_le : ∀ buf : List UInt8, addressTaken buf ≤ buf.length
  | [] => Nat.le_refl 0
  | addrType :: rest => by
    have h4 := fieldTaken_le 4 rest
    have h16 := fieldTaken_le 16 rest
    have hname : hostnameTaken rest ≤ rest.length := by
      match rest with
      | [] => exact Nat.le_refl 0
      | len :: name =>
        have := fieldTaken_le len.toNat name
        simp only [hostnameTaken, length_cons]
        omega
    simp only [addressTaken, length_cons]
    repeat' split
    all_goals omega

/-- Whether a destination is parsed, as the front of the buffer tells. -/
def namesDestination (status : SessionStatus) (remainingMetadata : Nat) (rest : List UInt8) :
    Bool :=
  remainingMetadata ≠ 0 && (status = .new || (status = .keep && rest.head? = some 0x02))

theorem hasDestination_eq (status remainingMetadata rest) :
    hasDestination status remainingMetadata rest =
      .ok (namesDestination status remainingMetadata rest) rest := by
  unfold hasDestination namesDestination
  by_cases h0 : remainingMetadata = 0
  · simp [h0]
  cases status with
  | new => simp [h0]
  | keep =>
    match rest with
    | [] => simp [h0, bind_apply, remaining]
    | b :: rest => simp [h0, bind_apply, remaining, front]
  | end_ | keepAlive => simp [h0, bind_apply, remaining]

theorem decodeBody_cons (m s₀ s₁ op rest) {st status}
    (hstatus : SessionStatus.tryFrom st = .ok status) :
    decodeBody m (s₀ :: s₁ :: st :: op :: rest) =
      if namesDestination status (m - 4) rest then
        match decodeTarget rest with
        | .ok (network, target) rest' =>
          (do
            advance (m - (rest.length + 4 - rest'.length))
            pure ⟨u16FromBeBytes s₀ s₁, status, ⟨op⟩, some target, some network⟩ :
              Cursor FrameMetadata) rest'
        | .err e rest' => .err e rest'
        | .panic => .panic
      else
        (do
          advance (m - 4)
          pure ⟨u16FromBeBytes s₀ s₁, status, ⟨op⟩, none, none⟩ : Cursor FrameMetadata) rest := by
  simp only [decodeBody, bind_apply, remaining, getU16, getU8, hstatus, ofExcept_ok,
    hasDestination_eq, length_cons]
  by_cases hdest : namesDestination status (m - 4) rest = true
  · simp only [hdest, if_true, bind_apply]
    cases decodeTarget rest with
    | ok | err | panic => rfl
  have hfour : rest.length + 1 + 1 + 1 + 1 - rest.length = 4 := by omega
  simp only [hdest, Bool.false_eq_true, if_false]
  rw [bind_ok (pure_apply none rest), bind_ok (rfl : remaining rest = .ok rest.length rest), hfour]
  rfl

theorem decodeBody_badStatus (m s₀ s₁ op rest) {st e}
    (hstatus : SessionStatus.tryFrom st = .error e) :
    decodeBody m (s₀ :: s₁ :: st :: op :: rest) = .err e (op :: rest) := by
  simp only [decodeBody, bind_apply, remaining, getU16, getU8, hstatus, ofExcept_error]

theorem decode_complete {buf} (hlen : 2 + metadataLen buf ≤ buf.length) (h4 : 4 ≤ metadataLen buf) :
    FrameMetadata.decode buf =
      match decodeBody (metadataLen buf) (buf.drop 2) with
      | .ok metadata rest => .ok (some metadata) rest
      | .err e rest => .err e rest
      | .panic => .panic := by
  unfold FrameMetadata.decode
  rw [if_neg (by omega), if_neg (by omega), bind_ok (advance_of_le (by omega : 2 ≤ buf.length)),
    if_neg (by omega), bind_apply]
  cases decodeBody (metadataLen buf) (buf.drop 2) <;> rfl

theorem decodeTarget_cons (p₀ p₁ address) {net network}
    (h : TargetNetwork.tryFrom net = .ok network) : decodeTarget (net :: p₀ :: p₁ :: address) =
      match decodeAddress address with
      | .ok a rest => .ok (network, ⟨a, u16FromBeBytes p₀ p₁⟩) rest
      | .err e rest => .err e rest
      | .panic => .panic := by
  simp only [decodeTarget, bind_apply, getU8, getU16, h, ofExcept_ok]
  cases decodeAddress address <;> rfl

/-! ## When the decoder is safe -/

/-- What is asked of the decoder: it does not panic, it asks for more only when the buffer is
short and then takes nothing, it takes what the metadata declares when it succeeds, and no
byte beyond in any case. -/
def Safe (buf : List UInt8) : Prop :=
  match FrameMetadata.decode buf with
  | .ok none rest => buf.length < 2 + metadataLen buf ∧ rest = buf
  | .ok (some _) rest => 2 + metadataLen buf ≤ buf.length ∧ rest = buf.drop (2 + metadataLen buf)
  | .err _ rest => buf.length - rest.length ≤ 2 + metadataLen buf
  | .panic => False

/-- The metadata names a target: there is more of it than the four fixed bytes, the status is New,
or Keep with a network byte for UDP, and the network is a known one. -/
def NamesTarget (buf : List UInt8) : Prop :=
  5 ≤ metadataLen buf ∧ (buf.getD 4 0 = 0x01 ∨ (buf.getD 4 0 = 0x02 ∧ buf.getD 6 0 = 0x02)) ∧
    (buf.getD 6 0 = 0x01 ∨ buf.getD 6 0 = 0x02)

/-- The declared length covers the port, the type of the address and the address, as far as the
buffer has bytes for them. -/
def TargetFits (buf : List UInt8) : Prop :=
  7 ≤ metadataLen buf ∧ (10 ≤ buf.length → 8 ≤ metadataLen buf ∧
    (buf.getD 9 0 = 0x01 → 14 ≤ buf.length → 12 ≤ metadataLen buf) ∧
    (buf.getD 9 0 = 0x02 → 11 ≤ buf.length → 9 ≤ metadataLen buf ∧
      (11 + (buf.getD 10 0).toNat ≤ buf.length → 9 + (buf.getD 10 0).toNat ≤ metadataLen buf)) ∧
    (buf.getD 9 0 = 0x03 → 26 ≤ buf.length → 24 ≤ metadataLen buf))

theorem targetFits_iff {buf address l₀ l₁ s₀ s₁ status option network p₀ p₁}
    (h : buf = l₀ :: l₁ :: s₀ :: s₁ :: status :: option :: network :: p₀ :: p₁ :: address) :
    TargetFits buf ↔ 9 + addressTaken address ≤ 2 + metadataLen buf := by
  have hlen : buf.length = 9 + address.length := by rw [h]; simp only [length_cons]; omega
  have htype : buf.getD 9 0 = address.getD 0 0 := by rw [h]; rfl
  have hname : buf.getD 10 0 = address.getD 1 0 := by rw [h]; rfl
  unfold TargetFits
  rw [hlen, htype, hname]
  generalize metadataLen buf = m
  match address with
  | [] =>
    simp only [addressTaken, length_nil]
    omega
  | addrType :: rest =>
    rw [addressTaken, getD_cons_zero, getD_cons_succ, length_cons]
    by_cases h1 : addrType = 0x01
    · simp only [h1, fieldTaken, if_true, true_implies, show (0x01 : UInt8) ≠ 0x02 by decide,
        show (0x01 : UInt8) ≠ 0x03 by decide, false_implies, and_true]
      split <;> omega
    by_cases h2 : addrType = 0x02
    · simp only [h2, if_true, true_implies, show (0x02 : UInt8) ≠ 0x01 by decide,
        show (0x02 : UInt8) ≠ 0x03 by decide, false_implies, and_true, true_and, if_false]
      match rest with
      | [] => simp only [hostnameTaken, length_nil]; omega
      | len :: name =>
        rw [hostnameTaken, fieldTaken, getD_cons_zero, length_cons]
        split <;> omega
    by_cases h3 : addrType = 0x03
    · simp only [h3, fieldTaken, if_true, true_implies, show (0x03 : UInt8) ≠ 0x01 by decide,
        show (0x03 : UInt8) ≠ 0x02 by decide, false_implies, true_and, if_false]
      split <;> omega
    simp only [h1, h2, h3, if_false, false_implies, and_true]
    omega

theorem tryFrom_network {net} :
    (∃ network, TargetNetwork.tryFrom net = .ok network) ↔ net = 0x01 ∨ net = 0x02 := by
  unfold TargetNetwork.tryFrom
  by_cases h1 : net = 0x01
  · simp [h1]
  · by_cases h2 : net = 0x02 <;> simp [h1, h2]

section
variable {buf rest : List UInt8} {l₀ l₁ s₀ s₁ st op : UInt8} {status : SessionStatus}

theorem safe_of_noTarget (hbuf : buf = l₀ :: l₁ :: s₀ :: s₁ :: st :: op :: rest)
    (hlen : 2 + metadataLen buf ≤ buf.length) (h4 : 4 ≤ metadataLen buf)
    (hstatus : SessionStatus.tryFrom st = .ok status)
    (hdest : namesDestination status (metadataLen buf - 4) rest = false) : Safe buf := by
  have hbody := decodeBody_cons (metadataLen buf) s₀ s₁ op rest hstatus
  have hdrop : buf.drop 2 = s₀ :: s₁ :: st :: op :: rest := by rw [hbuf]; rfl
  have hrest : buf.drop (2 + metadataLen buf) = rest.drop (metadataLen buf - 4) := by
    have hsix : buf.drop 6 = rest := by rw [hbuf]; rfl
    rw [← hsix, drop_drop]
    congr 1
    omega
  have hsize : buf.length = rest.length + 6 := by rw [hbuf]; rfl
  rw [if_neg (by simp [hdest]),
    bind_ok (advance_of_le (by omega : metadataLen buf - 4 ≤ rest.length))] at hbody
  unfold Safe
  rw [decode_complete hlen h4, hdrop, hbody]
  exact ⟨hlen, hrest.symm⟩

theorem safe_iff_of_target {network net p₀ p₁ address}
    (hbuf : buf = l₀ :: l₁ :: s₀ :: s₁ :: st :: op :: net :: p₀ :: p₁ :: address)
    (hlen : 2 + metadataLen buf ≤ buf.length) (h4 : 4 ≤ metadataLen buf)
    (hstatus : SessionStatus.tryFrom st = .ok status)
    (hdest : namesDestination status (metadataLen buf - 4) (net :: p₀ :: p₁ :: address) = true)
    (hnet : TargetNetwork.tryFrom net = .ok network) :
    Safe buf ↔ 9 + addressTaken address ≤ 2 + metadataLen buf := by
  have hbody := decodeBody_cons (metadataLen buf) s₀ s₁ op (net :: p₀ :: p₁ :: address) hstatus
  have hdrop : buf.drop 2 = s₀ :: s₁ :: st :: op :: net :: p₀ :: p₁ :: address := by rw [hbuf]; rfl
  have hnine : ∀ n, address.drop n = buf.drop (9 + n) := fun n => by
    rw [← drop_drop, hbuf]; rfl
  have hsize : buf.length = address.length + 9 := by rw [hbuf]; rfl
  have hle := addressTaken_le address
  rw [if_pos hdest, decodeTarget_cons p₀ p₁ address hnet] at hbody
  unfold Safe
  rw [decode_complete hlen h4, hdrop, hbody]
  rcases decodeAddress_takes address with ⟨a, ha⟩ | ⟨e, he⟩
  · have hcount : (net :: p₀ :: p₁ :: address).length + 4 -
        (address.drop (addressTaken address)).length = 7 + addressTaken address := by
      simp only [length_cons, length_drop]
      omega
    rw [ha]
    simp only [hcount]
    have hskip : metadataLen buf - (7 + addressTaken address) ≤
        (address.drop (addressTaken address)).length := by
      rw [length_drop]
      omega
    rw [bind_ok (advance_of_le hskip)]
    simp only [pure_apply, hlen, true_and, drop_drop]
    -- the two ends are the same place in the buffer only if nothing was read beyond
    constructor
    · intro h
      have hl := congrArg List.length h
      simp only [length_drop] at hl
      omega
    intro h
    rw [hnine]
    congr 1
    omega
  · rw [he]
    simp only [length_drop]
    omega

end

theorem exists_fixed {buf : List UInt8} (h : 6 ≤ buf.length) :
    ∃ l₀ l₁ s₀ s₁ st op rest, buf = l₀ :: l₁ :: s₀ :: s₁ :: st :: op :: rest := by
  match buf, h with
  | l₀ :: l₁ :: s₀ :: s₁ :: st :: op :: rest, _ => exact ⟨l₀, l₁, s₀, s₁, st, op, rest, rfl⟩

theorem namesTarget_iff {buf rest l₀ l₁ s₀ s₁ st op net status}
    (hbuf : buf = l₀ :: l₁ :: s₀ :: s₁ :: st :: op :: net :: rest)
    (hstatus : SessionStatus.tryFrom st = .ok status) :
    NamesTarget buf ↔ namesDestination status (metadataLen buf - 4) (net :: rest) = true ∧
      (net = 0x01 ∨ net = 0x02) := by
  have hst : buf.getD 4 0 = status.toByte := by
    rw [hbuf, ← SessionStatus.eq_of_tryFrom hstatus]; rfl
  have hnet : buf.getD 6 0 = net := by rw [hbuf]; rfl
  have hlen : metadataLen buf - 4 ≠ 0 ↔ 5 ≤ metadataLen buf := by omega
  unfold NamesTarget namesDestination
  rw [hst, hnet, ← hlen]
  cases status <;> simp [SessionStatus.toByte]; tauto

section
variable {buf rest : List UInt8} {l₀ l₁ s₀ s₁ st op : UInt8}

theorem safe_of_err {e left} (hlen : 2 + metadataLen buf ≤ buf.length)
    (h4 : 4 ≤ metadataLen buf) (h : decodeBody (metadataLen buf) (buf.drop 2) = .err e left)
    (hleft : buf.length - left.length ≤ 2 + metadataLen buf) : Safe buf := by
  unfold Safe
  rw [decode_complete hlen h4, h]
  exact hleft

theorem safe_iff_of_complete (hbuf : buf = l₀ :: l₁ :: s₀ :: s₁ :: st :: op :: rest)
    (hlen : 2 + metadataLen buf ≤ buf.length) (h4 : 4 ≤ metadataLen buf) :
    Safe buf ↔ (NamesTarget buf → TargetFits buf) := by
  have hdrop : buf.drop 2 = s₀ :: s₁ :: st :: op :: rest := by rw [hbuf]; rfl
  have hsize : buf.length = rest.length + 6 := by rw [hbuf]; rfl
  cases hstatus : SessionStatus.tryFrom st with
  | error =>
    have hnames : ¬NamesTarget buf := by
      have hst : buf.getD 4 0 = st := by rw [hbuf]; rfl
      rintro ⟨-, h | ⟨h, -⟩, -⟩ <;> rw [hst] at h <;> rw [h] at hstatus <;> cases hstatus
    have hbody := decodeBody_badStatus (metadataLen buf) s₀ s₁ op rest hstatus
    rw [← hdrop] at hbody
    exact iff_of_true (safe_of_err hlen h4 hbody (by simp only [length_cons]; omega))
      fun h => absurd h hnames
  | ok status =>
    cases hdest : namesDestination status (metadataLen buf - 4) rest with
    | false =>
      refine iff_of_true (safe_of_noTarget hbuf hlen h4 hstatus hdest) fun h => ?_
      match rest, (by have := h.1; omega : 0 < rest.length) with
      | net :: rest, _ =>
        rw [namesTarget_iff hbuf hstatus, hdest] at h
        cases h.1
    | true =>
      have h5 : 5 ≤ metadataLen buf := by
        by_contra h
        rw [namesDestination, (by omega : metadataLen buf - 4 = 0)] at hdest
        simp at hdest
      match rest, (by omega : 0 < rest.length) with
      | net :: rest, _ =>
        have hbody := decodeBody_cons (metadataLen buf) s₀ s₁ op (net :: rest) hstatus
        rw [if_pos hdest, ← hdrop] at hbody
        rw [namesTarget_iff hbuf hstatus, hdest, ← tryFrom_network]
        cases hnet : TargetNetwork.tryFrom net with
        | error e =>
          have htarget : decodeTarget (net :: rest) = .err e rest := by
            simp only [decodeTarget, bind_apply, getU8, hnet, ofExcept_error]
          rw [htarget] at hbody
          refine iff_of_true (safe_of_err hlen h4 hbody ?_) (by simp)
          simp only [length_cons] at hsize
          omega
        | ok =>
          simp only [Except.ok.injEq, exists_eq', and_self, true_implies]
          by_cases hport : rest.length < 2
          · have htarget : decodeTarget (net :: rest) = .panic := by
              simp only [decodeTarget, bind_apply, getU8, hnet, ofExcept_ok, getU16_short hport]
            rw [htarget] at hbody
            have hunsafe : ¬Safe buf := by
              unfold Safe
              rw [decode_complete hlen h4, hbody]
              exact id
            refine iff_of_false hunsafe fun hfits => ?_
            have := hfits.1
            simp only [length_cons] at hsize
            omega
          match rest, (by omega : 2 ≤ rest.length) with
          | p₀ :: p₁ :: address, _ =>
            rw [safe_iff_of_target hbuf hlen h4 hstatus hdest hnet, targetFits_iff hbuf]

end

/-- **Exactly when the decoder is safe.** A complete buffer whose metadata names a target has to
declare enough metadata for it; all other buffers are safe. -/
theorem decode_safe_iff (buf : List UInt8) :
    Safe buf ↔ (2 + metadataLen buf ≤ buf.length → NamesTarget buf → TargetFits buf) := by
  by_cases hlen : 2 + metadataLen buf ≤ buf.length
  · simp only [hlen, true_implies]
    by_cases h4 : 4 ≤ metadataLen buf
    · obtain ⟨_, _, _, _, _, _, _, hbuf⟩ := exists_fixed (by omega : 6 ≤ buf.length)
      exact safe_iff_of_complete hbuf hlen h4
    have hnames : ¬NamesTarget buf := fun h => h4 (by have := h.1; omega)
    have hdecode : FrameMetadata.decode buf =
        .err ⟨.invalidData, s!"metadata too short: {metadataLen buf}"⟩ (buf.drop 2) := by
      unfold FrameMetadata.decode
      rw [if_neg (by omega), if_neg (by omega),
        bind_ok (advance_of_le (by omega : 2 ≤ buf.length)), if_pos (by omega)]
      rfl
    simp only [hnames, false_implies, iff_true, Safe, hdecode, length_drop]
    omega
  have hdecode : FrameMetadata.decode buf = .ok none buf := by
    unfold FrameMetadata.decode
    rw [if_pos (by omega : buf.length < 2 + metadataLen buf), ite_self]
  simp only [hlen, false_implies, iff_true, Safe, hdecode, and_true]
  omega

/-- A New frame that declares five bytes of metadata, the last of them the network: there is no
port to read. -/
theorem decode_panics :
    FrameMetadata.decode [0, 5, 0, 1, 1, 0, 2] = .panic ∧ ¬Safe [0, 5, 0, 1, 1, 0, 2] :=
  ⟨by decide, fun h => h⟩

end Shoes.Xudp.Frame
