import Shoes.Xudp.MessageStream

/-! # Frames as a client sends them

Well-formed frames and their bytes. -/
namespace Shoes.Xudp.ClientFrames
open Lib.Io Lib.Utf8 Lib.Bytes Lib.IpText Lib.Ipv6Text List
open Net.Location
open Frame Sessions MessageStream

/-- An address in a frame. A hostname may be the text of an IP address. -/
inductive WireAddress
  | ipv4 (addr : Ipv4Addr)
  | ipv6 (addr : Ipv6Addr)
  | hostname (name : Str) (address : Address) (fits : name.bytes.length ≤ 255)
      (parses : Address.from name = .ok address)

def WireAddress.bytes : WireAddress → List UInt8
  | .ipv4 addr => 0x01 :: addr.octets
  | .hostname name _ _ _ => 0x02 :: UInt8.ofNat name.bytes.length :: name.bytes
  | .ipv6 addr => 0x03 :: addr.octets

def WireAddress.address : WireAddress → Address
  | .ipv4 addr => .ipv4 addr
  | .hostname _ address _ _ => address
  | .ipv6 addr => .ipv6 addr

structure Target where
  port : UInt16
  address : WireAddress

def Target.bytes (t : Target) : List UInt8 := 0x02 :: u16ToBeBytes t.port ++ t.address.bytes

def Target.location (t : Target) : NetLocation := ⟨t.address.address, t.port⟩

/-- A well-formed frame. `extra` is the rest of the metadata: a GlobalID, or padding. -/
structure Frame where
  sessionId : UInt16
  status : SessionStatus
  target : Option Target
  extra : List UInt8
  payload : Option (List UInt8)
  target_status : target ≠ none → status = .new ∨ status = .keep
  new_target : status = .new → target ≠ none
  keep_extra : status = .keep → target = none → extra.head? ≠ some 0x02
  fits : 4 + (target.elim [] Target.bytes ++ extra).length ≤ 65535
  payload_fits : ∀ p ∈ payload, p.length ≤ 65535

namespace Frame
variable (f : Frame)

def option : FrameOption := ⟨if f.payload.isSome then 0x01 else 0x00⟩

/-- The metadata behind the fixed part. -/
def destination : List UInt8 := f.target.elim [] Target.bytes ++ f.extra

def header : List UInt8 :=
  u16ToBeBytes (UInt16.ofNat (4 + f.destination.length)) ++ (u16ToBeBytes f.sessionId ++
    f.status.toByte :: f.option.raw :: f.destination)

def dataBytes : List UInt8 :=
  match f.payload with
  | none => []
  | some p => u16ToBeBytes (UInt16.ofNat p.length) ++ p

def bytes : List UInt8 := f.header ++ f.dataBytes

def metadata : FrameMetadata where
  sessionId := f.sessionId
  status := f.status
  option := f.option
  target := f.target.map Target.location
  network := f.target.map fun _ => .udp

end Frame

def framesBytes (frames : List Frame) : List UInt8 := (frames.map Frame.bytes).flatten

def answers (chunks : List (List UInt8)) : List Read := chunks.map .bytes


/-- A resolver for frames without names. -/
def sampleResolve : NetLocation → SocketAddr := fun _ => .v4 ⟨0, 0, 0, 0⟩ 0

def sampleTarget : Target := ⟨53, .ipv4 ⟨1, 2, 3, 4⟩⟩

def sampleNew (id : UInt16) (b : UInt8) : Frame where
  sessionId := id
  status := .new
  target := some sampleTarget
  extra := []
  payload := some [b]
  target_status := by simp
  new_target := by simp
  keep_extra := by simp
  fits := by decide
  payload_fits := by simp

def sampleEnd (id : UInt16) (payload : Option UInt8) : Frame where
  sessionId := id
  status := .end_
  target := none
  extra := []
  payload := payload.map fun b => [b]
  target_status := by simp
  new_target := by simp
  keep_extra := by simp
  fits := by decide
  payload_fits := by cases payload <;> simp

end Shoes.Xudp.ClientFrames
