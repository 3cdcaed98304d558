import Shoes.Net.Location
import Mathlib.Data.Nat.Bitwise

/-! # Address masks

`AddressMask` and `NetLocationMask` with their parsers, over addresses as `u128` bits. An IPv4
address is masked in its mapped form, so it keeps its own bits and the 96 before them. -/
namespace Shoes.Net.Masks
open Lib.Io Lib.Utf8 Lib.Bytes Lib.IpText Lib.Ipv6Text List
open Location

/-! ## Addresses as bits -/

def u32From (ip : Ipv4Addr) : BitVec 32 :=
  BitVec.ofNat 32 (((ip.a.toNat * 256 + ip.b.toNat) * 256 + ip.c.toNat) * 256 + ip.d.toNat)

def u128From (ip : Ipv6Addr) : BitVec 128 :=
  BitVec.ofNat 128 (ip.segments.foldl (fun acc s => acc * 65536 + s.toNat) 0)

def toIpv6Mapped (ip : Ipv4Addr) : Ipv6Addr where
  segments := [0, 0, 0, 0, 0, 0xffff, u16FromBeBytes ip.a ip.b, u16FromBeBytes ip.c ip.d]
  segments_length := rfl

theorem u128From_mapped (ip) :
    u128From (toIpv6Mapped ip) = (0xffff#96 ++ u32From ip : BitVec (96 + 32)) := by
  have ha := ip.a.toNat_lt
  have hb := ip.b.toNat_lt
  have hc := ip.c.toNat_lt
  have hd := ip.d.toNat_lt
  have h32 : (u32From ip).toNat
      = ((ip.a.toNat * 256 + ip.b.toNat) * 256 + ip.c.toNat) * 256 + ip.d.toNat := by
    rw [u32From, BitVec.toNat_ofNat, Nat.mod_eq_of_lt]
    omega
  apply BitVec.eq_of_toNat_eq
  rw [BitVec.toNat_append, ← Nat.shiftLeft_add_eq_or_of_lt (u32From ip).isLt, h32,
    Nat.shiftLeft_eq, u128From, BitVec.toNat_ofNat, Nat.mod_eq_of_lt]
  all_goals
    simp only [toIpv6Mapped, foldl_cons, foldl_nil, u16FromBeBytes_toNat]
    simp
    omega

/-! ## Netmasks -/

/-- The netmask that keeps this many leading bits; all bits cannot be shifted away. -/
def netmaskOf (keepBits : Nat) : BitVec 128 :=
  let clearBits := 128 - keepBits
  if clearBits = 128 then 0 else (BitVec.allOnes 128 >>> clearBits) <<< clearBits

variable {keepBits : Nat}

theorem getMsbD_netmaskOf (h : keepBits ≤ 128) (i) :
    (netmaskOf keepBits).getMsbD i = decide (i < keepBits) := by
  unfold netmaskOf
  dsimp only
  split
  · have h0 : keepBits = 0 := by omega
    simp [h0]
  rw [BitVec.getMsbD_shiftLeft, BitVec.getMsbD_ushiftRight, BitVec.getMsbD_allOnes, Bool.eq_iff_iff]
  simp only [Bool.and_eq_true, decide_eq_true_eq, Bool.not_eq_true', decide_eq_false_iff_not]
  omega

theorem netmaskOf_ne_zero (hpos : 0 < keepBits) (h : keepBits ≤ 128) : netmaskOf keepBits ≠ 0 := by
  intro h0
  have hbit := getMsbD_netmaskOf h 0
  rw [h0] at hbit
  simp only [BitVec.ofNat_eq_ofNat, BitVec.getMsbD_zero, hpos, decide_true] at hbit
  cases hbit

/-- Equality under a netmask is agreement of the leading bits it keeps. -/
theorem masked_eq_iff (h : keepBits ≤ 128) (x y) :
    x &&& netmaskOf keepBits = y &&& netmaskOf keepBits
      ↔ ∀ i < keepBits, x.getMsbD i = y.getMsbD i := by
  have hbit : ∀ (z : BitVec 128) (i : Nat),
      (z &&& netmaskOf keepBits).getMsbD i = (z.getMsbD i && decide (i < keepBits)) := by
    intro z i
    rw [BitVec.getMsbD_and, getMsbD_netmaskOf h]
  constructor
  · intro heq i hi
    have hx := hbit x i
    rw [heq, hbit y i] at hx
    simpa [hi] using hx.symm
  intro heq
  apply BitVec.eq_of_getMsbD_eq
  intro i _
  rw [hbit, hbit]
  by_cases hi : i < keepBits
  · rw [heq i hi]
  · simp [hi]

theorem trailingZeros_netmaskOf (hpos : 0 < keepBits) (h : keepBits ≤ 128) :
    (netmaskOf keepBits).ctz.toNat = 128 - keepBits := by
  have hall : ∀ n ∈ List.range 129, 0 < n → (netmaskOf n).ctz.toNat = 128 - n := by decide +kernel
  exact hall keepBits (mem_range.mpr (by omega)) hpos

/-! ## `AddressMask` -/

structure AddressMask where
  address : Address
  netmask : BitVec 128
  deriving DecidableEq

def AddressMask.any : AddressMask := ⟨.ipv4 ⟨0, 0, 0, 0⟩, 0⟩

/-- `ParseIntError` of an unsigned integer. -/
inductive ParseIntError
  | empty
  | invalidDigit
  | posOverflow
  deriving DecidableEq, Repr

def ParseIntError.show : ParseIntError → String
  | .empty => "cannot parse integer from empty string"
  | .invalidDigit => "invalid digit found in string"
  | .posOverflow => "number too large to fit in target type"

/-- The digit loop of `from_str`: at one place a bad digit is reported before an overflow. -/
def parseLoop (limit : Nat) : Nat → List UInt8 → Except ParseIntError Nat
  | acc, [] => .ok acc
  | acc, b :: bs =>
    match toDigit 10 b with
    | none => .error .invalidDigit
    | some d =>
      if acc * 10 + d > limit then .error .posOverflow else parseLoop limit (acc * 10 + d) bs

/-- `str::parse` for an unsigned integer type with this greatest value. -/
def parseUnsigned (limit : Nat) (bs : List UInt8) : Except ParseIntError Nat :=
  match bs with
  | [] => .error .empty
  | [43] => .error .invalidDigit
  | 43 :: rest => parseLoop limit 0 rest
  | bs => parseLoop limit 0 bs

/-- Before and after the first byte that is `c`. -/
def splitFirst (c : UInt8) : List UInt8 → Option (List UInt8 × List UInt8)
  | [] => none
  | b :: bs =>
    if b = c then some ([], bs) else (splitFirst c bs).map fun p => (b :: p.1, p.2)

/-- Before and after the last byte that is `c`. -/
def splitLast (c : UInt8) (bs : List UInt8) : Option (List UInt8 × List UInt8) :=
  (splitFirst c bs.reverse).map fun p => (p.2.reverse, p.1.reverse)

variable {after : List UInt8}

theorem splitFirst_append (h : splitFirst c bs = some (before, after)) : bs =
    before ++ c :: after := by
  induction bs generalizing before with
  | nil => cases h
  | cons b bs ih =>
    simp only [splitFirst] at h
    split at h
    · rename_i hb
      cases h
      rw [hb, nil_append]
    rcases hs : splitFirst c bs with _ | _
    · rw [hs] at h; cases h
    rw [hs] at h
    cases h
    rw [ih hs, cons_append]

theorem splitLast_append (h : splitLast c bs = some (before, after)) : bs = before ++ c :: after :=
    by
  unfold splitLast at h
  rcases hs : splitFirst c bs.reverse with _ | _
  · rw [hs] at h; cases h
  rw [hs] at h
  cases h
  have hr := congrArg List.reverse (splitFirst_append hs)
  simpa using hr

/-- How many leading bits of its 128 an address keeps, or why the number is refused. -/
def keepBitsOf (address : Address) (numBits : Option Nat) : Except IoError Nat :=
  match address with
  | .ipv4 _ =>
    let numBits := numBits.getD 32
    if numBits > 32 then
      .error (IoError.other s!"Invalid number of bits for ipv4 address: {numBits}")
    -- an exception for 0, so that the rule matches an IPv6 address too
    else if numBits = 0 then .ok 0
    else .ok (96 + numBits)
  | .ipv6 _ =>
    let numBits := numBits.getD 128
    if numBits > 128 then
      .error (IoError.other s!"Invalid number of bits for ipv4 address: {numBits}")
    else .ok numBits
  | .hostname name =>
    if numBits.isSome then
      .error (IoError.other
        s!"Cannot specify number of number of netmask bits for hostnames: {name.show}")
    else .ok 128

/-- The address text and the number of bits after the last slash. -/
def splitBits (s : Str) : Except IoError (Str × Option Nat) :=
  match h : splitLast 47 s.bytes with
  | some (before, after) =>
    match parseUnsigned 255 after with
    | .error e => .error (IoError.other s!"Failed to parse netmask: {e.show}")
    | .ok bits =>
      .ok (⟨before, isUtf8_before_ascii (by decide) (splitLast_append h ▸ s.valid)⟩, some bits)
  | none => .ok (s, none)

def AddressMask.from (s : Str) : Except IoError AddressMask :=
  match splitBits s with
  | .error e => .error e
  | .ok (addressStr, numBits) =>
    match Address.from addressStr with
    | .error e => .error e
    | .ok address =>
      match keepBitsOf address numBits with
      | .error e => .error e
      | .ok keepBits => .ok ⟨address, netmaskOf keepBits⟩

/-! ## `NetLocationMask` -/

structure NetLocationMask where
  addressMask : AddressMask
  port : UInt16
  deriving DecidableEq

def NetLocationMask.any : NetLocationMask := ⟨AddressMask.any, 0⟩

theorem isUtf8_cons_ascii (hc : c < 0x80) (bs) : isUtf8 (c :: bs) = isUtf8 bs := by
  simp [isUtf8, utf8Run, utf8Step, hc]

theorem isUtf8_bracketed (hr : splitFirst 93 rest = some (inside, after))
    (hv : isUtf8 (91 :: rest) = true) : isUtf8 inside = true := by
  rw [isUtf8_cons_ascii (by decide), splitFirst_append hr] at hv
  exact isUtf8_before_ascii (by decide) hv

theorem isUtf8_withBits (hl : splitLast 47 bs = some (before, after))
    (ha : splitFirst 58 after = some (bits, port))
    (hv : isUtf8 bs = true) : isUtf8 (before ++ 47 :: bits) = true := by
  have hbs : bs = (before ++ 47 :: bits) ++ 58 :: port := by
    rw [splitLast_append hl, splitFirst_append ha, append_assoc, cons_append]
  exact isUtf8_before_ascii (by decide) (hbs ▸ hv)

def parsePort (bs : List UInt8) : Except IoError UInt16 :=
  match parseUnsigned 65535 bs with
  | .error e => .error (IoError.other s!"Failed to parse port: {e.show}")
  | .ok port => .ok (UInt16.ofNat port)

/-- `[addr/bits]:port`: what is between the brackets, and the port if a colon follows. -/
def splitBracketed (s : Str) : Option (Except IoError (Str × UInt16)) :=
  match hs : s.bytes with
  | 91 :: rest =>
    match hr : splitFirst 93 rest with
    | some (inside, after) =>
      let inside : Str := ⟨inside, isUtf8_bracketed hr (hs ▸ s.valid)⟩
      match after with
      | 58 :: port => some ((parsePort port).map fun port => (inside, port))
      | _ => some (.ok (inside, 0))
    | none => none
  | _ => none

/-- `addr/bits:port`, `addr:port` or `addr`: one colon before a port, more are an IPv6
address. -/
def splitPlain (s : Str) : Except IoError (Str × UInt16) :=
  match hl : splitLast 47 s.bytes with
  | some (before, after) =>
    match ha : splitFirst 58 after with
    | some (bits, port) =>
      match parseUnsigned 255 bits with
      | .error e => .error (IoError.other s!"Failed to parse netmask bits: {e.show}")
      | .ok _ =>
        (parsePort port).map fun port =>
          (⟨before ++ 47 :: bits, isUtf8_withBits hl ha s.valid⟩, port)
    | none => .ok (s, 0)
  | none =>
    if s.bytes.count 58 = 1 then
      match hc : splitFirst 58 s.bytes with
      | some (before, port) =>
        (parsePort port).map fun port =>
          (⟨before, isUtf8_before_ascii (by decide) (splitFirst_append hc ▸ s.valid)⟩, port)
      | none => .ok (s, 0)
    else .ok (s, 0)

def NetLocationMask.from (s : Str) : Except IoError NetLocationMask :=
  match (splitBracketed s).getD (splitPlain s) with
  | .error e => .error e
  | .ok (addressMaskStr, port) =>
    match AddressMask.from addressMaskStr with
    | .error e => .error e
    | .ok addressMask => .ok ⟨addressMask, port⟩

/-! ## What the parsers return -/

/-- The numbers of leading bits that a parsed mask can keep. -/
def Keeps : Address → Nat → Prop
  | .ipv4 _, keepBits => keepBits = 0 ∨ 96 < keepBits ∧ keepBits ≤ 128
  | .ipv6 _, keepBits => keepBits ≤ 128
  | .hostname _, keepBits => keepBits = 128

theorem Keeps.le (h : Keeps address keepBits) : keepBits ≤ 128 := by
  cases address <;> simp only [Keeps] at h <;> omega

theorem keepBitsOf_keeps (h : keepBitsOf address numBits = .ok keepBits) : Keeps address keepBits :=
    by
  cases address with
  | ipv4 =>
    simp only [keepBitsOf] at h
    repeat' split at h
    all_goals cases h
    · exact .inl rfl
    · exact .inr ⟨by omega, by omega⟩
  | ipv6 =>
    simp only [keepBitsOf] at h
    split at h <;> cases h
    simp only [Keeps]
    omega
  | hostname =>
    simp only [keepBitsOf] at h
    split at h <;> cases h
    rfl

theorem AddressMask.from_keeps (h : AddressMask.from s = .ok mask) :
    ∃ keepBits, Keeps mask.address keepBits ∧ mask.netmask = netmaskOf keepBits := by
  unfold AddressMask.from at h
  split at h
  · cases h
  split at h
  · cases h
  split at h <;> cases h
  rename_i keepBits hk
  exact ⟨keepBits, keepBitsOf_keeps hk, rfl⟩

theorem NetLocationMask.from_keeps (h : NetLocationMask.from s = .ok mask) :
    ∃ keepBits, Keeps mask.addressMask.address keepBits
      ∧ mask.addressMask.netmask = netmaskOf keepBits := by
  unfold NetLocationMask.from at h
  split at h
  · cases h
  split at h <;> cases h
  rename_i hmask
  exact AddressMask.from_keeps hmask

end Shoes.Net.Masks
