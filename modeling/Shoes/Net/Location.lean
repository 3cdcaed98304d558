import Shoes.Lib.Io
import Shoes.Lib.Utf8
import Shoes.Lib.Ipv6Text

/-! # Addresses and locations

`Address` and `NetLocation`, their parsers and their `Display`. A hostname is whatever the parser
does not take for an IP address; `Address.Canonical` are the addresses that it returns, and those
print and parse back to themselves. -/
namespace Shoes.Net.Location
open Lib.Io Lib.Utf8 Lib.Bytes Lib.IpText Lib.Ipv6Text

inductive Address
  | ipv4 (addr : Ipv4Addr)
  | ipv6 (addr : Ipv6Addr)
  | hostname (name : Str)
  deriving DecidableEq

/-- What the bytes looked at so far leave possible. -/
structure Scan where
  dots : Nat
  possibleIpv4 : Bool
  possibleIpv6 : Bool
  possibleHostname : Bool
  deriving DecidableEq, Repr

/-- The loop of `Address::from` over the bytes of the text. -/
def scan : Scan → List UInt8 → Scan
  | st, [] => st
  | st, c :: cs =>
    if c = 58 then { st with possibleIpv4 := false, possibleHostname := false }
    else if c = 46 then
      let st := { st with possibleIpv6 := false, dots := st.dots + 1 }
      -- more than three dots can only be a hostname
      if st.dots > 3 then st else scan st cs
    else if (65 ≤ c ∧ c ≤ 70) ∨ (97 ≤ c ∧ c ≤ 102) then scan { st with possibleIpv4 := false } cs
    else if ¬(48 ≤ c ∧ c ≤ 57) then { st with possibleIpv4 := false, possibleIpv6 := false }
    else scan st cs

def Address.from (s : Str) : Except IoError Address :=
  let st := scan ⟨0, true, true, true⟩ s.bytes
  match (if st.possibleIpv4 ∧ st.dots = 3 then parseIpv4 s.bytes else none) with
  | some addr => .ok (.ipv4 addr)
  | none =>
    match (if st.possibleIpv6 then parseIpv6 s.bytes else none) with
    | some addr => .ok (.ipv6 addr)
    | none =>
      if st.possibleHostname then .ok (.hostname s)
      else .error ⟨.invalidData, "Failed to parse address: " ++ s.show⟩

def Address.isIpv6 : Address → Bool
  | .ipv6 _ => true
  | _ => false

def Address.text : Address → Str
  | .ipv4 addr => ⟨addr.text, isUtf8_of_ascii addr.text_ascii⟩
  | .ipv6 addr => ⟨addr.text, isUtf8_of_ascii addr.text_ascii⟩
  | .hostname name => name

structure NetLocation where
  address : Address
  port : UInt16
  deriving DecidableEq

inductive SocketAddr
  | v4 (ip : Ipv4Addr) (port : UInt16)
  | v6 (ip : Ipv6Addr) (port : UInt16)
  deriving DecidableEq

def SocketAddr.location : SocketAddr → NetLocation
  | .v4 ip port => ⟨.ipv4 ip, port⟩
  | .v6 ip port => ⟨.ipv6 ip, port⟩

/-- `to_socket_addr_nonblocking`: the address, if no name has to be looked up. -/
def NetLocation.toSocketAddrNonblocking (l : NetLocation) : Option SocketAddr :=
  match l.address with
  | .ipv4 ip => some (.v4 ip l.port)
  | .ipv6 ip => some (.v6 ip l.port)
  | .hostname _ => none

/-- The text before and after the last colon, as `rfind(':')` splits it. -/
def rsplitColon : List UInt8 → Option (List UInt8 × List UInt8)
  | [] => none
  | c :: cs =>
    match rsplitColon cs with
    | some (before, after) => some (c :: before, after)
    | none => if c = 58 then some ([], cs) else none

theorem rsplitColon_append (h : rsplitColon bs = some (before, after)) : bs =
    before ++ 58 :: after := by
  induction bs generalizing before with
  | nil => cases h
  | cons c cs ih =>
    simp only [rsplitColon] at h
    split at h
    next b a hr =>
      cases h
      rw [List.cons_append, ← ih hr]
    obtain ⟨hc, ⟨⟩⟩ := Option.ite_none_right_eq_some.mp h
    rw [hc, List.nil_append]

/-- The address text, the port and whether only an IPv6 address will do. The last colon may
be part of an IPv6 address; then what follows it need not be a port. -/
def splitPort (s : Str) (defaultPort : Option UInt16) : Str × Option UInt16 × Bool :=
  match h : rsplitColon s.bytes with
  | some (before, after) =>
    match parseU16 after with
    | some port =>
      (⟨before, isUtf8_before_ascii (by decide) (rsplitColon_append h ▸ s.valid)⟩, some port, false)
    | none => (s, defaultPort, true)
  | none => (s, defaultPort, false)

def NetLocation.fromStr (s : Str) (defaultPort : Option UInt16) : Except IoError NetLocation :=
  let (addressStr, port, expectIpv6) := splitPort s defaultPort
  match Address.from addressStr with
  | .error e => .error e
  | .ok address =>
    if expectIpv6 ∧ ¬address.isIpv6 then .error (IoError.other "Invalid location")
    else match port with
      | some port => .ok ⟨address, port⟩
      | none => .error (IoError.other "No port")

/-- `Display for NetLocation`; an IPv6 address gets no brackets. -/
def NetLocation.text (l : NetLocation) : List UInt8 :=
  l.address.text.bytes ++ 58 :: numText 10 l.port.toNat

/-! ## Round trips -/

/-- The addresses that `Address::from` returns. -/
def Address.Canonical (a : Address) : Prop :=
  match a with
  | .hostname name => Address.from name = .ok (.hostname name)
  | _ => True

instance (a : Address) : Decidable a.Canonical :=
  match a with
  | .hostname _ => inferInstanceAs (Decidable (_ = _))
  | .ipv4 _ => inferInstanceAs (Decidable True)
  | .ipv6 _ => inferInstanceAs (Decidable True)

theorem scan_digits (st rest) :
    ∀ {ds}, (∀ b ∈ ds, 48 ≤ b ∧ b ≤ 57) → scan st (ds ++ rest) = scan st rest
  | [], _ => rfl
  | b :: ds, h => by
    obtain ⟨h1, h2⟩ := h b (by simp)
    have hcolon : b ≠ 58 := by rintro rfl; exact absurd h2 (by decide)
    have hdot : b ≠ 46 := by rintro rfl; exact absurd h1 (by decide)
    have hupper : ¬(65 ≤ b ∧ b ≤ 70) := fun hu =>
      absurd (UInt8.le_trans hu.1 h2) (by decide)
    have hlower : ¬(97 ≤ b ∧ b ≤ 102) := fun hu =>
      absurd (UInt8.le_trans hu.1 h2) (by decide)
    simp only [List.cons_append, scan, hcolon, hdot, hupper, hlower, h1, h2, if_false, or_self,
      and_self, not_true_eq_false]
    exact scan_digits st rest fun c hc => h c (by simp [hc])

theorem toDigit_ten (h : (toDigit 10 b).isSome = true) : 48 ≤ b ∧ b ≤ 57 := by
  simp only [toDigit, Option.isSome_ite] at h
  simp only [UInt8.le_iff_toNat_le]
  change 48 ≤ b.toNat ∧ b.toNat ≤ 57
  repeat' split at h
  all_goals omega

theorem toDigit_sixteen (h : (toDigit 16 b).isSome = true) :
    b ≠ 58 ∧ b ≠ 46 ∧ (((65 ≤ b ∧ b ≤ 70) ∨ (97 ≤ b ∧ b ≤ 102)) ∨ (48 ≤ b ∧ b ≤ 57)) := by
  simp only [toDigit, Option.isSome_ite] at h
  simp only [UInt8.le_iff_toNat_le, ne_eq, ← UInt8.toNat_inj]
  change b.toNat ≠ 58 ∧ b.toNat ≠ 46 ∧ (((65 ≤ b.toNat ∧ b.toNat ≤ 70) ∨
    (97 ≤ b.toNat ∧ b.toNat ≤ 102)) ∨ (48 ≤ b.toNat ∧ b.toNat ≤ 57))
  repeat' split at h
  all_goals omega

theorem scan_hex_colon (rest) : ∀ {ds} (st : Scan), (∀ b ∈ ds, (toDigit 16 b).isSome = true) →
      (scan st (ds ++ 58 :: rest)).possibleIpv6 = st.possibleIpv6 ∧
        (scan st (ds ++ 58 :: rest)).possibleIpv4 = false
  | [], st, _ => by simp [scan]
  | b :: ds, st, h => by
    have hds : ∀ c ∈ ds, (toDigit 16 c).isSome = true := fun c hc => h c (by simp [hc])
    obtain ⟨hcolon, hdot, hclass⟩ := toDigit_sixteen (h b (by simp))
    simp only [List.cons_append, scan, hcolon, hdot, if_false]
    split
    · exact scan_hex_colon rest { st with possibleIpv4 := false } hds
    rename_i hletter
    have hdigit := hclass.resolve_left hletter
    simp only [hdigit, and_self, not_true_eq_false, if_false]
    exact scan_hex_colon rest st hds

theorem numText_digits (n) : ∀ b ∈ numText 10 n, 48 ≤ b ∧ b ≤ 57 := fun _ hb =>
  toDigit_ten (toDigit_of_mem_numText (by decide) (by decide) hb)

theorem scan_ipv4 (ip : Ipv4Addr) :
    scan ⟨0, true, true, true⟩ ip.text = ⟨3, true, false, true⟩ := by
  have hdigits : ∀ st rest n, scan st (numText 10 n ++ rest) = scan st rest :=
    fun st rest n => scan_digits st rest (numText_digits n)
  have hlast : ∀ st n, scan st (numText 10 n) = st := fun st n => by
    simpa [scan] using hdigits st [] n
  simp [Ipv4Addr.text, hdigits, hlast, scan]

/-- **A printed address parses back**, if the parser can return it at all. -/
theorem Address.from_text (h : a.Canonical) : Address.from a.text = .ok a := by
  cases a with
  | ipv4 ip => simp [Address.from, Address.text, scan_ipv4, parseIpv4_text]
  | ipv6 ip =>
    obtain ⟨_, rest, htext, hds⟩ := text_colon ip
    obtain ⟨h6, h4⟩ := scan_hex_colon rest ⟨0, true, true, true⟩ hds
    rw [← htext] at h6 h4
    simp [Address.from, Address.text, h4, h6, parseIpv6_text]
  | hostname name => exact h

theorem rsplitColon_none (h : (58 : UInt8) ∉ bs) : rsplitColon bs = none := by
  induction bs with
  | nil => rfl
  | cons c cs ih =>
    have hc : c ≠ 58 := fun hc => h (by simp [hc])
    simp [rsplitColon, ih fun hm => h (by simp [hm]), hc]

theorem rsplitColon_of_append (h : (58 : UInt8) ∉ after) :
    rsplitColon (before ++ 58 :: after) = some (before, after) := by
  induction before with
  | nil => simp [rsplitColon, rsplitColon_none h]
  | cons c cs ih => simp [rsplitColon, ih]

theorem colon_not_mem_numText (n) : (58 : UInt8) ∉ numText 10 n := fun h =>
  absurd (numText_digits n 58 h).2 (by decide)

theorem splitPort_text {l : NetLocation} {s : Str} (hs : s.bytes = l.text) (defaultPort) :
    splitPort s defaultPort = (l.address.text, some l.port, false) := by
  have hsplit : rsplitColon s.bytes = some (l.address.text.bytes, numText 10 l.port.toNat) := by
    rw [hs]; exact rsplitColon_of_append (colon_not_mem_numText _)
  unfold splitPort
  split
  next before after hb =>
    cases hsplit.symm.trans hb
    simp only [parseU16_numText]
  next hb => cases hsplit.symm.trans hb

/-- **A printed location parses back.** The port is what follows the last colon, whatever
the address before it is. -/
theorem NetLocation.fromStr_text {l : NetLocation} (h : l.address.Canonical) {s : Str}
    (hs : s.bytes = l.text) (defaultPort) : NetLocation.fromStr s defaultPort = .ok l := by
  simp [NetLocation.fromStr, splitPort_text hs, Address.from_text h]

theorem NetLocation.text_isUtf8 (l : NetLocation) : isUtf8 l.text = true := by
  have hport : isUtf8 (58 :: numText 10 l.port.toNat) = true :=
    isUtf8_of_ascii fun b hb => by
      rcases List.mem_cons.mp hb with rfl | hb
      · decide
      · exact numText_ascii (by decide) (by decide) b hb
  exact isUtf8_append l.address.text.valid hport

end Shoes.Net.Location
