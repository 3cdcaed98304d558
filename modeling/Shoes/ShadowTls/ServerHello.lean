import Shoes.Io.BufReader

/-! # ServerHello

`parse_server_hello`, which the Vision filter takes from the ShadowTLS server. -/
namespace Shoes.ShadowTls.ServerHello
open Lib.Io Lib.Bytes Io.BufReader

structure ParsedServerHello where
  serverRandom : List UInt8
  cipherSuite : UInt16
  sessionIdLen : UInt8
  isTls13 : Bool
  deriving DecidableEq

def invalid (message : String) : IoError := ⟨.invalidData, message⟩

def retryRequestRandomBytes : List UInt8 :=
  [0xCF, 0x21, 0xAD, 0x74, 0xE5, 0x9A, 0x61, 0x11, 0xBE, 0x1D, 0x8C, 0x02, 0x1E, 0x65, 0xB8, 0x91,
    0xC2, 0xA2, 0x11, 0x16, 0x7A, 0xBB, 0x8C, 0x5E, 0x07, 0x9E, 0x09, 0xE2, 0xC8, 0xA8, 0x33, 0x9C]

def extSupportedVersions : UInt16 := 0x002b

/-- The loop over the extensions. Each of them takes bytes, so the length is enough fuel. -/
def parseExtensions : Nat → Bool → Reader Bool
  | 0, isTls13 => return isTls13
  | fuel + 1, isTls13 => do
    if ← isConsumed then return isTls13
    else
      let extType ← readU16Be
      let extLen ← readU16Be
      if extType = extSupportedVersions then
        if extLen ≠ 2 then
          throw (invalid s!"supported_versions extension should be 2 bytes, got {extLen}")
        else
          let versionBytes ← readSlice 2
          parseExtensions fuel (versionBytes == [0x03, 0x04])
      else
        skip extLen.toNat
        parseExtensions fuel isTls13

def parseExtensionBlock : Reader Bool := do
  if ← isConsumed then return false
  else
    let extensionsLen ← readU16Be
    if (← remaining) < extensionsLen.toNat then
      throw (invalid "extensions length exceeds remaining data")
    else
      let extensionsData ← readSlice extensionsLen.toNat
      liftM ((parseExtensions (extensionsData.length + 1) false).run' extensionsData)

/-- The message behind the record header. -/
def parseMessage : Reader ParsedServerHello := do
  let handshakeType ← readU8
  if handshakeType ≠ 0x02 then throw (invalid "expected ServerHello handshake type")
  let messageLen ← readU24Be
  if (← remaining) < messageLen then throw (invalid "ServerHello message length exceeds frame")
  let versionMajor ← readU8
  let versionMinor ← readU8
  if versionMajor ≠ 3 ∨ versionMinor ≠ 3 then
    throw (invalid s!"expected TLS version 3.3, got {versionMajor}.{versionMinor}")
  let serverRandom ← readSlice 32
  if serverRandom = retryRequestRandomBytes then
    throw (invalid "server sent a HelloRetryRequest")
  let sessionIdLen ← readU8
  if sessionIdLen > 32 then
    throw (invalid s!"invalid session_id_len {sessionIdLen}, max is 32")
  skip sessionIdLen.toNat
  let cipherSuite ← readU16Be
  skip 1
  let isTls13 ← parseExtensionBlock
  return ⟨serverRandom, cipherSuite, sessionIdLen, isTls13⟩

def parseServerHello (frame : List UInt8) : Except IoError ParsedServerHello :=
  if frame.length < 47 then .error (invalid "ServerHello frame too short")
  else if frame.getD 0 0 ≠ 0x16 then .error (invalid "expected handshake content type")
  else if frame.getD 1 0 ≠ 3 ∨ frame.getD 2 0 ≠ 3 then
    .error (invalid s!"unexpected record TLS version {frame.getD 1 0}.{frame.getD 2 0}")
  else parseMessage.run' (frame.drop 5)

end Shoes.ShadowTls.ServerHello
