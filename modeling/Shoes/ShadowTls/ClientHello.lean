import Shoes.Io.BufReader
import Shoes.Io.Stream
import Shoes.Lib.Utf8

/-! # ClientHello

`read_client_hello`: the first TLS record of a client, which must be one whole ClientHello. -/
namespace Shoes.ShadowTls.ClientHello
open Lib.Io Lib.Bytes Lib.Utf8 Io.BufReader

def tlsHeaderLen : Nat := 5

def tlsFrameMaxLen : Nat := tlsHeaderLen + 65535

structure ParsedClientHelloDigest where
  clientHelloDigest : List UInt8
  clientHelloDigestStartIndex : Nat
  clientHelloDigestEndIndex : Nat
  deriving DecidableEq

structure ParsedClientHello where
  clientHelloFrame : List UInt8
  recordLegacyVersion : UInt8 × UInt8
  contentVersion : UInt8 × UInt8
  parsedDigest : Option ParsedClientHelloDigest
  requestedServerName : Option Str
  supportsTls13 : Bool
  deriving DecidableEq

def invalid (message : String) : IoError := ⟨.invalidData, message⟩

def readStr (len : Nat) : Reader Str := do
  let slice ← readSlice len
  match fromUtf8 slice with
  | .ok s => return s
  | .error e =>
    let e := e.show
    throw (invalid s!"Invalid UTF-8 sequence: {e}")

/-- TLS 1.3 is among the versions, which are two bytes each. -/
def offersTls13 : List UInt8 → Bool
  | major :: minor :: rest => (major == 3 && minor == 4) || offersTls13 rest
  | _ => false

def readServerName (name : Option Str) : Reader Str := do
  failIf (name.isSome = true) (invalid "multiple server names")
  let _ ← readU16Be
  let nameType ← readU8
  failIf (nameType ≠ 0) (invalid "expected server name type to be hostname (0)")
  let nameLen ← readU16Be
  readStr nameLen.toNat

def readSupportedVersions : Reader Bool := do
  let len ← readU8
  failIf (len % 2 ≠ 0) (invalid ("invalid odd version list length: 0x" ++ hexByte len))
  return offersTls13 (← readSlice len.toNat)

/-- The loop over the extensions. Each of them takes bytes, so the length is enough fuel. -/
def readExtensions : Nat → Option Str → Bool → Reader (Option Str × Bool)
  | 0, name, tls13 => return (name, tls13)
  | fuel + 1, name, tls13 => do
    if ← isConsumed then return (name, tls13)
    else
      let extensionType ← readU16Be
      let extensionLen ← readU16Be
      if extensionType = 0x0000 then
        let name ← readServerName name
        readExtensions fuel (some name) tls13
      else if extensionType = 0x002b then
        let offered ← readSupportedVersions
        readExtensions fuel name (tls13 || offered)
      else
        skip extensionLen.toNat
        readExtensions fuel name tls13

/-- The session id, and the digest at its end if it has the length for one. -/
def readSessionId (payloadLen : Nat) : Reader (Option ParsedClientHelloDigest) := do
  let len ← readU8
  if len = 32 then
    let sessionId ← readSlice 32
    let position := payloadLen - (← remaining)
    return some ⟨sessionId.drop 28, tlsHeaderLen + position - 4, tlsHeaderLen + position⟩
  else
    skip len.toNat
    return none

/-- The message in the payload of the record. -/
def readMessage (header payload : List UInt8) : Reader ParsedClientHello := do
  failIf ((← readU8) ≠ 0x01) (invalid "expected ClientHello")
  let messageLen ← readU24Be
  failIf (messageLen + 4 ≠ payload.length) (invalid "client hello message length mismatch")
  let major ← readU8
  let minor ← readU8
  failIf (¬(major = 0x03 ∧ (minor = 0x01 ∨ minor = 0x03)))
    (invalid s!"unexpected ClientHello TLS version {major}.{minor}")
  skip 32
  let digest ← readSessionId payload.length
  let cipherSuiteLen ← readU16Be
  skip cipherSuiteLen.toNat
  let compressionMethodLen ← readU8
  skip compressionMethodLen.toNat
  let extensionsLen ← readU16Be
  let extensions ← readSlice extensionsLen.toNat
  let (name, tls13) ←
    liftM ((readExtensions (extensions.length + 1) none false).run' extensions)
  return ⟨header ++ payload, (header.getD 1 0, header.getD 2 0), (major, minor), digest, name, tls13⟩

def readClientHello : Io.Stream.Reader tlsFrameMaxLen ParsedClientHello := do
  let header ← Io.Stream.readSlice tlsHeaderLen
  if header.getD 0 0 ≠ 0x16 then throw (invalid "expected client handshake")
  else
    let payloadLen := (u16FromBeBytes (header.getD 3 0) (header.getD 4 0)).toNat
    let payload ← Io.Stream.readSlice payloadLen
    liftM ((readMessage header payload).run' payload)

theorem readMessage_frame (header payload) :
    Returns (readMessage header payload) fun hello => hello.clientHelloFrame = header ++ payload :=
    by
  iterate 16 refine .skip fun _ => ?_
  exact Returns.pure rfl

/-- **The frame is what has been taken from the stream.** -/
theorem readClientHello_view {st st' hello}
    (h : readClientHello st = .ok (hello, st')) : st.view = hello.clientHelloFrame ++ st'.view := by
  obtain ⟨⟨header, st₁⟩, hheader, h⟩ := exists_of_bind_ok h
  dsimp only at h
  split at h
  · cases h
  obtain ⟨⟨payload, st₂⟩, hpayload, h⟩ := exists_of_bind_ok h
  have hview : st.view = (header ++ payload) ++ st₂.view := by
    rw [Io.Stream.readSlice_ok_view hheader, Io.Stream.readSlice_ok_view hpayload,
      List.append_assoc]
  rcases hmessage : readMessage header payload payload with _ | result
  · simp only [StateT.run', hmessage] at h
    cases h
  simp only [StateT.run', hmessage] at h
  cases h
  rw [hview, readMessage_frame header payload payload _ _ hmessage]

end Shoes.ShadowTls.ClientHello
