import Shoes.Lib.Bytes

/-! # What logical streams queue for the session writer -/
namespace Shoes.Transport.VirtualStream
open Lib.Bytes

def outboundHeaderRoom : Nat := 8

/-- A payload behind room for its header. -/
structure OutboundFrame where
  bytes : List UInt8
  room : outboundHeaderRoom ≤ bytes.length
  deriving DecidableEq

namespace OutboundFrame

def copyFrom (payload : List UInt8) : OutboundFrame :=
  ⟨List.replicate outboundHeaderRoom 0 ++ payload, by simp⟩

def payload (f : OutboundFrame) : List UInt8 := f.bytes.drop outboundHeaderRoom

def intoFrame (f : OutboundFrame) (header : List UInt8) : List UInt8 := writeAt f.bytes 0 header

theorem intoFrame_eq (f : OutboundFrame) {header : List UInt8}
    (h : header.length = outboundHeaderRoom) : f.intoFrame header = header ++ f.payload := by
  simp [intoFrame, payload, writeAt, h]

theorem copyFrom_payload (payload) : (copyFrom payload).payload = payload := by
  simp [copyFrom, OutboundFrame.payload]

end OutboundFrame

inductive OutboundCommand
  | data (streamId : UInt32) (frame : OutboundFrame)
  | finished (streamId : UInt32)
  | barrier
  deriving DecidableEq

structure WindowUpdate where
  streamId : UInt32
  consumed : UInt32
  window : UInt32
  deriving DecidableEq

end Shoes.Transport.VirtualStream
