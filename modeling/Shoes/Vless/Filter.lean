import Shoes.ShadowTls.ServerHello

/-! # The Vision filter

`VisionFilter` looks at the first TLS records of a connection, of both directions, to find out
whether they are TLS and may be sent without a second encryption. -/
namespace Shoes.Vless.Filter
open Lib.Io ShadowTls.ServerHello

structure VisionFilter where
  recordFilterCount : Nat
  isTls : Bool
  isTls12OrAbove : Bool
  supportsXtls : Bool
  deriving DecidableEq

namespace VisionFilter

def new : VisionFilter := ⟨8, false, false, false⟩

section
variable (f : VisionFilter)

def isFiltering : Bool := f.recordFilterCount > 0

def decrementFilterCount : VisionFilter :=
  { f with recordFilterCount := f.recordFilterCount - 1 }

def stopFiltering : VisionFilter := { f with recordFilterCount := 0 }

def tls13CipherAes128Ccm8Sha256 : UInt16 := 0x1305

def isClientHello (data : List UInt8) : Bool :=
  data.length ≥ 6 && data.getD 0 0 == 0x16 && data.getD 1 0 == 0x03 && data.getD 5 0 == 0x01

def isServerHello (data : List UInt8) : Bool :=
  data.length ≥ 6 && data.getD 0 0 == 0x16 && data.getD 1 0 == 0x03 && data.getD 2 0 == 0x03 &&
    data.getD 5 0 == 0x02

/-- The first ServerHello decides. -/
def filterServerHello (data : List UInt8) : VisionFilter :=
  let f := { f with isTls12OrAbove := true, isTls := true }
  match parseServerHello data with
  | .error _ => f.stopFiltering
  | .ok parsed =>
    if parsed.isTls13 then
      if parsed.cipherSuite = tls13CipherAes128Ccm8Sha256 then f.stopFiltering
      else { f with supportsXtls := true }.stopFiltering
    else f

def filterRecord (data : List UInt8) : VisionFilter :=
  if f.recordFilterCount = 0 then f
  else
    let f := f.decrementFilterCount
    if data.length < 5 then f.stopFiltering
    else
      let f := if !f.isTls && isClientHello data then { f with isTls := true } else f
      if !f.isTls12OrAbove && isServerHello data then f.filterServerHello data else f

end

theorem filterRecord_header (f : VisionFilter) {data : List UInt8} (h : data.length = 5) :
    f.filterRecord data = f.decrementFilterCount := by
  have hclient : isClientHello data = false := by simp [isClientHello, h]
  have hserver : isServerHello data = false := by simp [isServerHello, h]
  unfold filterRecord
  split
  · rename_i hzero
    cases f
    simp only [decrementFilterCount] at hzero ⊢
    simp [hzero]
  · simp [h, hclient, hserver]

end VisionFilter

end Shoes.Vless.Filter
