import Shoes.Io.BufReader

/-! # Authentication of a REALITY client

A client proves itself in the session id of its ClientHello: sixteen bytes sealed under a key that
comes from its key share and the server's private key. They hold a version, a time and a short id.
-/
namespace Shoes.Reality.ClientAuth
open Lib.Io Lib.Bytes Io.BufReader

/-- The cryptographic functions: key agreement, key derivation and the opening of a sealed text. -/
structure Crypto where
  ecdh : (privateKey publicKey : List UInt8) → Option (List UInt8)
  deriveAuthKey : (sharedSecret salt : List UInt8) → Option (List UInt8)
  openSessionId : (sealed key nonce aad : List UInt8) → Option (List UInt8)

inductive CipherSuite
  | aes128GcmSha256
  | aes256GcmSha384
  | chacha20Poly1305Sha256
  deriving DecidableEq

def CipherSuite.id : CipherSuite → UInt16
  | .aes128GcmSha256 => 0x1301
  | .aes256GcmSha384 => 0x1302
  | .chacha20Poly1305Sha256 => 0x1303

def defaultCipherSuites : List CipherSuite :=
  [.aes128GcmSha256, .aes256GcmSha384, .chacha20Poly1305Sha256]

structure RealityServerConfig where
  privateKey : List UInt8
  shortIds : List (List UInt8)
  maxTimeDiff : Option Nat
  minClientVersion : Option (List UInt8)
  maxClientVersion : Option (List UInt8)
  cipherSuites : List CipherSuite

structure ClientHelloInfo where
  sessionId : List UInt8
  clientPublicKey : List UInt8
  authKey : List UInt8
  cipherSuite : CipherSuite
  clientHelloHandshake : List UInt8
  deriving DecidableEq

def tlsRecordHeaderSize : Nat := 5

def invalid (message : String) : IoError := ⟨.invalidData, message⟩

def denied (message : String) : IoError := ⟨.permissionDenied, message⟩

/-! ## The fields of a ClientHello -/

def extractClientRandom (hello : List UInt8) : Except IoError (List UInt8) :=
  if hello.length < 11 + 32 then .error (invalid "ClientHello too short to extract random")
  else .ok (slice hello 11 (11 + 32))

def extractSessionIdSlice (hello : List UInt8) : Except IoError (List UInt8) :=
  if hello.length < 43 + 1 then .error (invalid "ClientHello too short to extract session ID")
  else
    let len := (hello.getD 43 0).toNat
    if hello.length < 43 + 1 + len then .error (invalid "ClientHello session ID extends past end")
    else .ok (slice hello (43 + 1) (43 + 1 + len))

/-- The loop over the key shares. Each of them takes bytes, so the length is enough fuel. -/
def findX25519 : Nat → Reader (List UInt8)
  | 0 => throw (invalid "X25519 key share not found in KeyShare extension")
  | fuel + 1 => do
    failIf ((← remaining) < 4) (invalid "X25519 key share not found in KeyShare extension")
    let group ← readU16Be
    let keyLen ← readU16Be
    failIf ((← remaining) < keyLen.toNat) (invalid "KeyShare entry extends past end")
    if group = 0x001d then
      failIf (keyLen ≠ 32) (invalid s!"Invalid X25519 key length: {keyLen}")
      readSlice 32
    else
      skip keyLen.toNat
      findX25519 fuel

def parseKeyshareExtension (data : List UInt8) : Except IoError (List UInt8) :=
  (do
    let _ ← readU16Be
    findX25519 (data.length + 1) : Reader (List UInt8)).run' data

/-- The loop over the extensions of a message of `total` bytes. -/
def findKeyShare (total extensionsEnd : Nat) : Nat → Reader (List UInt8)
  | 0 => throw (invalid "KeyShare extension not found in ClientHello")
  | fuel + 1 => do
    failIf (total - (← remaining) ≥ extensionsEnd)
      (invalid "KeyShare extension not found in ClientHello")
    let extType ← readU16Be
    let extLen ← readU16Be
    if extType = 51 then
      let data ← readSlice extLen.toNat
      liftM (parseKeyshareExtension data)
    else
      skip extLen.toNat
      findKeyShare total extensionsEnd fuel

/-- The handshake header, the version, the random and the session id. -/
def skipToCipherSuites : Reader Unit := do
  let _ ← readU8
  let _ ← readU24Be
  let _ ← readU16Be
  skip 32
  let sessionIdLen ← readU8
  skip sessionIdLen.toNat

def extractClientPublicKey (hello : List UInt8) : Except IoError (List UInt8) :=
  if hello.length < tlsRecordHeaderSize then .error (invalid "ClientHello too short")
  else
    let message := hello.drop tlsRecordHeaderSize
    (do
      skipToCipherSuites
      let cipherSuitesLen ← readU16Be
      skip cipherSuitesLen.toNat
      let compressionLen ← readU8
      skip compressionLen.toNat
      let extensionsLen ← readU16Be
      let extensionsStart := message.length - (← remaining)
      findKeyShare message.length (extensionsStart + extensionsLen.toNat) (message.length + 1) :
      Reader (List UInt8)).run' message

def cipherSuiteIds : List UInt8 → List UInt16
  | b₀ :: b₁ :: rest => u16FromBeBytes b₀ b₁ :: cipherSuiteIds rest
  | _ => []

def extractClientCipherSuites (hello : List UInt8) : Except IoError (List UInt16) :=
  if hello.length < tlsRecordHeaderSize then .error (invalid "ClientHello too short")
  else
    (do
      skipToCipherSuites
      let cipherSuitesLen ← readU16Be
      failIf (cipherSuitesLen.toNat % 2 ≠ 0) (invalid "Invalid cipher suites length (not even)")
      let data ← readSlice cipherSuitesLen.toNat
      return cipherSuiteIds data : Reader (List UInt16)).run' (hello.drop tlsRecordHeaderSize)

def negotiateCipherSuite (server : List CipherSuite) (client : List UInt16) : Option CipherSuite :=
  server.find? fun suite => decide (suite.id ∈ client)

/-! ## Validation -/

section
variable (crypto : Crypto) (config : RealityServerConfig)

/-- What a client brings to open its session id with. -/
structure Presented where
  random : List UInt8
  sessionId : List UInt8
  clientPublicKey : List UInt8
  authKey : List UInt8
  deriving DecidableEq

/-- `ok_or`, for the errors that are not a refusal. -/
def orInvalid {α : Type} (x : Option α) (message : String) : Except IoError α :=
  match x with
  | some a => .ok a
  | none => .error (invalid message)

/-- The ClientHello up to the opening of the session id. -/
def presented (hello : List UInt8) : Except IoError Presented := do
  let hello ← orInvalid (if hello.length < tlsRecordHeaderSize + 4 then none else some hello)
    "ClientHello too short"
  let random ← extractClientRandom hello
  let sessionId ← extractSessionIdSlice hello
  let clientPublicKey ← extractClientPublicKey hello
  let sharedSecret ← orInvalid (crypto.ecdh config.privateKey clientPublicKey)
    "ECDH key exchange failed"
  let authKey ← orInvalid (crypto.deriveAuthKey sharedSecret (random.take 20))
    "HKDF derivation failed"
  let sessionId ← orInvalid (if sessionId.length ≠ 32 then none else some sessionId)
    "Invalid session ID length"
  return ⟨random, sessionId, clientPublicKey, authKey⟩

/-- The handshake message with zeros for the session id. -/
def aadForDecryption (hello : List UInt8) : List UInt8 :=
  let handshake := hello.drop tlsRecordHeaderSize
  if handshake.length ≥ 39 + 32 then
    handshake.take 39 ++ List.replicate 32 0 ++ handshake.drop (39 + 32)
  else handshake

def decryptSessionId (hello : List UInt8) (p : Presented) : Option (List UInt8) :=
  (crypto.openSessionId p.sessionId p.authKey (slice p.random 20 32)
    (aadForDecryption hello)).filter fun plaintext => decide (plaintext.length = 16)

def debugBytes (bytes : List UInt8) : String :=
  "[" ++ ", ".intercalate (bytes.map fun b => toString b) ++ "]"

def debugHexBytes (bytes : List UInt8) : String :=
  "[" ++ ", ".intercalate (bytes.map hexByte) ++ "]"

def checkTime (now : Option Nat) (timestamp : Nat) : Except IoError Unit :=
  match config.maxTimeDiff with
  | none => .ok ()
  | some maxDiffMs =>
    match now with
    | none => .error (.other "System time error")
    | some now =>
      let diff := (now - timestamp) + (timestamp - now)
      let maxDiff := maxDiffMs / 1000
      if diff > maxDiff then
        .error (denied s!"Timestamp difference {diff} seconds exceeds maximum {maxDiff} seconds")
      else .ok ()

def checkVersion (version : List UInt8) : Except IoError Unit :=
  let text := debugBytes version
  match config.minClientVersion.filter fun minVersion => decide (version < minVersion) with
  | some minVersion =>
    let bound := debugBytes minVersion
    .error (denied s!"Client version {text} is below minimum {bound}")
  | none =>
    match config.maxClientVersion.filter fun maxVersion => decide (maxVersion < version) with
    | some maxVersion =>
      let bound := debugBytes maxVersion
      .error (denied s!"Client version {text} is above maximum {bound}")
    | none => .ok ()

def shortId (plaintext : List UInt8) : List UInt8 := slice plaintext 8 16

/-- `process_client_hello_validation`, on a fresh connection. -/
def validateClientHello (now : Option Nat) (hello : List UInt8) :
    Except IoError ClientHelloInfo := do
  let p ← presented crypto config hello
  match decryptSessionId crypto hello p with
  | none => throw (denied "Session ID decrypt failed: DecryptionFailed")
  | some plaintext =>
    if shortId plaintext ∉ config.shortIds then
      let text := debugHexBytes (shortId plaintext)
      throw (denied s!"Invalid short_id: {text}")
    checkTime config now (u32FromBeBytes (slice plaintext 4 8)).toNat
    checkVersion config (plaintext.take 3)
    let client ← extractClientCipherSuites hello
    let server := if config.cipherSuites.isEmpty then defaultCipherSuites else config.cipherSuites
    match negotiateCipherSuite server client with
    | none => throw (invalid "No common TLS 1.3 cipher suite found")
    | some suite =>
      return ⟨p.sessionId, p.clientPublicKey, p.authKey, suite, hello.drop tlsRecordHeaderSize⟩

/-- The client holds a key and a short id that the server takes. -/
def HoldsKey (hello : List UInt8) : Prop :=
  ∃ p plaintext, presented crypto config hello = .ok p ∧
    decryptSessionId crypto hello p = some plaintext ∧ shortId plaintext ∈ config.shortIds

end

/-! ## Which errors there are -/

/-- An error that is not a refusal of the client. -/
def Malformed (e : IoError) : Prop := e.kind ≠ .permissionDenied

theorem malformed_invalid (message) : Malformed (invalid message) := by
  simp [Malformed, invalid]

instance : Fact (Malformed pastEnd) := ⟨by simp [Malformed, pastEnd]⟩

theorem run_fails {m : Reader (List UInt8)} (h : Fails m Malformed) (he : m.run' st = .error e) :
    Malformed e := by
  rcases hst : m st with _ | p
  · simp only [StateT.run', hst] at he
    cases he
    exact h st e hst
  simp only [StateT.run', hst] at he
  cases he

theorem findX25519_fails (fuel) : Fails (findX25519 fuel) Malformed := by
  induction fuel with
  | zero => exact Fails.throw (malformed_invalid _)
  | succ fuel ih =>
    refine remaining_fails.bind fun _ => (failIf_fails (malformed_invalid _) _).bind fun _ => ?_
    refine readU16Be_fails.bind fun _ => ?_
    refine readU16Be_fails.bind fun _ => remaining_fails.bind fun _ => ?_
    refine (failIf_fails (malformed_invalid _) _).bind fun _ => ?_
    split
    · exact (failIf_fails (malformed_invalid _) _).bind fun _ =>
        readSlice_fails 32
    · exact (skip_fails _).bind fun _ => ih

theorem parseKeyshareExtension_fails (h : parseKeyshareExtension data = .error e) : Malformed e :=
  run_fails (readU16Be_fails.bind fun _ => findX25519_fails _) h

theorem findKeyShare_fails (total extensionsEnd fuel) :
    Fails (findKeyShare total extensionsEnd fuel) Malformed := by
  induction fuel with
  | zero => exact Fails.throw (malformed_invalid _)
  | succ fuel ih =>
    refine remaining_fails.bind fun _ => (failIf_fails (malformed_invalid _) _).bind fun _ => ?_
    refine readU16Be_fails.bind fun _ => ?_
    refine readU16Be_fails.bind fun _ => ?_
    split
    · refine (readSlice_fails _).bind fun data => ?_
      exact Fails.lift fun e he => parseKeyshareExtension_fails he
    · exact (skip_fails _).bind fun _ => ih

theorem skipToCipherSuites_fails : Fails skipToCipherSuites Malformed :=
  readU8_fails.bind fun _ => readU24Be_fails.bind fun _ =>
    readU16Be_fails.bind fun _ => (skip_fails 32).bind fun _ =>
      readU8_fails.bind fun _ => skip_fails _

theorem extractClientPublicKey_fails (h : extractClientPublicKey hello = .error e) : Malformed e :=
    by
  unfold extractClientPublicKey at h
  split at h
  · cases h
    exact malformed_invalid _
  refine run_fails ?_ h
  refine skipToCipherSuites_fails.bind fun _ => readU16Be_fails.bind fun _ => ?_
  refine (skip_fails _).bind fun _ => ?_
  refine readU8_fails.bind fun _ => (skip_fails _).bind ?_
  intro _
  refine readU16Be_fails.bind fun _ => remaining_fails.bind fun _ => ?_
  exact findKeyShare_fails _ _ _

theorem bind_fails {α β : Type} {x : Except IoError α} {f : α → Except IoError β}
    {P : IoError → Prop} (hx : ∀ e, x = .error e → P e)
    (hf : ∀ a e, f a = .error e → P e) : ∀ e, (x >>= f) = .error e → P e := by
  intro e h
  cases x with
  | error e' =>
    cases h
    exact hx e rfl
  | ok a => exact hf a e h

theorem orInvalid_fails {α : Type} (x : Option α) (message : String) :
    ∀ e, orInvalid x message = .error e → Malformed e := by
  intro e h
  cases x with
  | none =>
    cases h
    exact malformed_invalid _
  | some a => cases h

theorem extractClientRandom_fails : ∀ e, extractClientRandom hello = .error e → Malformed e := by
  intro e h
  unfold extractClientRandom at h
  split at h <;> cases h
  exact malformed_invalid _

theorem extractSessionIdSlice_fails :
    ∀ e, extractSessionIdSlice hello = .error e → Malformed e := by
  intro e h
  unfold extractSessionIdSlice at h
  split at h
  · cases h
    exact malformed_invalid _
  dsimp only at h
  split at h <;> cases h
  exact malformed_invalid _

section
variable {crypto : Crypto} {config : RealityServerConfig} {now : Option Nat} {hello : List UInt8}

theorem presented_fails : ∀ e, presented crypto config hello = .error e → Malformed e := by
  refine bind_fails (orInvalid_fails _ _) fun hello => ?_
  refine bind_fails extractClientRandom_fails fun random => ?_
  refine bind_fails extractSessionIdSlice_fails fun sessionId => ?_
  refine bind_fails (fun e => extractClientPublicKey_fails) fun key => ?_
  refine bind_fails (orInvalid_fails _ _) fun secret => ?_
  refine bind_fails (orInvalid_fails _ _) fun authKey => ?_
  refine bind_fails (orInvalid_fails _ _) fun sessionId e h => ?_
  cases h

/-- **A client without a key is refused if its ClientHello is well-formed**, and causes another
error if not. -/
theorem validateClientHello_without_key (h : ¬ HoldsKey crypto config hello) :
    ∃ e, validateClientHello crypto config now hello = .error e ∧
      (e.kind = .permissionDenied ↔ ∃ p, presented crypto config hello = .ok p) := by
  unfold validateClientHello
  cases hp : presented crypto config hello with
  | error e =>
    refine ⟨e, rfl, fun hdenied => absurd hdenied (presented_fails e hp), ?_⟩
    rintro ⟨p, hp'⟩
    cases hp'
  | ok p =>
    cases hplain : decryptSessionId crypto hello p with
    | none =>
      refine ⟨_, by simp only [hplain, bind, Except.bind]; rfl, ?_⟩
      exact ⟨fun _ => ⟨p, rfl⟩, fun _ => rfl⟩
    | some plaintext =>
      have hshort : shortId plaintext ∉ config.shortIds :=
        fun hmem => h ⟨p, plaintext, hp, hplain, hmem⟩
      refine ⟨_, by simp only [hplain, bind, Except.bind, if_pos hshort]; rfl, ?_⟩
      exact ⟨fun _ => ⟨p, rfl⟩, fun _ => rfl⟩

end

end Shoes.Reality.ClientAuth
