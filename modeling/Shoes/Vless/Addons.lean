import Shoes.Io.Stream
import Shoes.Lib.Cursor
import Shoes.Lib.Utf8

/-! # The addons of a VLESS request

A protobuf message with the flow as its first field and a seed as its second. -/
namespace Shoes.Vless.Addons
open Lib.Io Lib.Utf8 Lib.Cursor Io.Stream List

/-- `read_varint` from byte `cursor` on; there is a panic when the bytes run out. -/
def readVarint (length cursor : Nat) : List UInt8 → Outcome Nat
  | [] => .panic
  | byte :: rest =>
    if byte &&& 0x80 ≠ 0 then
      if cursor = 7 then .err (.other "Varint is too long") rest
      else readVarint (length <<< 8 ||| (byte ^^^ 0x80).toNat) (cursor + 1) rest
    else .ok (length <<< 8 ||| byte.toNat) rest

inductive Field
  | flow (s : Str)
  | seed (bs : List UInt8)

def Field.data : Field → List UInt8
  | .flow s => s.bytes
  | .seed bs => bs

/-- The flow after a field. -/
def Field.next (flow : Str) : Field → Str
  | .flow s => s
  | .seed _ => flow

/-- A protobuf varint of at most two bytes. -/
def varint (n : Nat) : List UInt8 :=
  if n < 128 then [UInt8.ofNat n] else [UInt8.ofNat (n % 128 + 128), UInt8.ofNat (n / 128)]

def Field.encode (f : Field) : List UInt8 :=
  (match f with | .flow _ => 0x0a | .seed _ => 0x12) :: (varint f.data.length ++ f.data)

variable {total fuel length cursor : Nat} {flow : Str} {bytes rest body : List UInt8} {tag : UInt8}

/-- Addons with another byte behind them. -/
def input (bytes : List UInt8) : Input 512 := .new ⟨[bytes ++ [1]], by simp⟩

end Shoes.Vless.Addons
