import Shoes.Net.Masks

/-! # Printed addresses

The texts of socket addresses and of masks, and what the parsers make of them. -/
namespace Shoes.Net.Texts
open Lib.Io Lib.Utf8 Lib.Bytes Lib.IpText Lib.Ipv6Text List
open Location Masks

/-- What starts with a bracket is a hostname. -/
theorem from_bracket {s : Str} {rest} (hs : s.bytes = 91 :: rest) :
    Address.from s = .ok (.hostname s) := by
  simp [Address.from, hs, scan]

/-! ## Socket addresses -/

/-- `Display for SocketAddr`, without a scope id. -/
def socketText : SocketAddr → List UInt8
  | .v4 ip port => ip.text ++ 58 :: numText 10 port.toNat
  | .v6 ip port => (91 :: (ip.text ++ [93])) ++ 58 :: numText 10 port.toNat

def bracketed (ip : Ipv6Addr) : Str where
  bytes := 91 :: (ip.text ++ [93])
  valid := isUtf8_of_ascii fun b hb => by
    simp only [mem_cons, mem_append, not_mem_nil, or_false] at hb
    rcases hb with rfl | hb | rfl
    · decide
    · exact Ipv6Addr.text_ascii ip b hb
    · decide

/-- **The text of a socket address parses to it exactly if it is an IPv4 address**; a location with
a hostname prints and parses back. -/
theorem socketText_parses (a : SocketAddr) (name : Str) (port : UInt16) (s s' : Str)
    (defaultPort : Option UInt16) (hs : s.bytes = socketText a)
    (hname : Address.from name = .ok (.hostname name))
    (hs' : s'.bytes = NetLocation.text ⟨.hostname name, port⟩) :
    (NetLocation.fromStr s defaultPort = .ok a.location ↔ ∃ ip port, a = .v4 ip port) ∧
    NetLocation.fromStr s' defaultPort = .ok ⟨.hostname name, port⟩ := by
  refine ⟨?_, @NetLocation.fromStr_text ⟨.hostname name, port⟩ hname s' hs' defaultPort⟩
  cases a with
  | v4 ip port =>
    have hparsed := @NetLocation.fromStr_text ⟨.ipv4 ip, port⟩ trivial s hs defaultPort
    exact ⟨fun _ => ⟨ip, port, rfl⟩, fun _ => hparsed⟩
  | v6 ip port =>
    have hparsed := @NetLocation.fromStr_text ⟨.hostname (bracketed ip), port⟩ (from_bracket rfl) s hs
      defaultPort
    simp [hparsed, SocketAddr.location]

def str (bytes : List UInt8) (h : isUtf8 bytes = true := by decide +kernel) : Str := ⟨bytes, h⟩

theorem socketText_parses_localhost :
    (NetLocation.fromStr (str [49, 46, 49, 46, 49, 46, 49, 58, 56, 48]) none =
      .ok (SocketAddr.v4 ⟨1, 1, 1, 1⟩ 80).location ↔
      ∃ ip port, SocketAddr.v4 ⟨1, 1, 1, 1⟩ 80 = .v4 ip port) ∧
    NetLocation.fromStr (str [103, 58, 56, 48]) none = .ok ⟨.hostname (str [103]), 80⟩ :=
  socketText_parses (.v4 ⟨1, 1, 1, 1⟩ 80) (str [103]) 80 _ _ none (by decide +kernel)
    (by decide +kernel) (by decide +kernel)

/-- `[::1]:80` is taken for a hostname. -/
theorem bracketed_is_hostname :
    socketText (.v6 ⟨[0, 0, 0, 0, 0, 0, 0, 1], rfl⟩ 80) = [91, 58, 58, 49, 93, 58, 56, 48] ∧
    NetLocation.fromStr (str [91, 58, 58, 49, 93, 58, 56, 48]) none =
      .ok ⟨.hostname (str [91, 58, 58, 49, 93]), 80⟩ := by
  decide +kernel

/-! ## Masks -/

/-- `Display for AddressMask`. -/
def maskText (m : AddressMask) : List UInt8 :=
  let bits := if m.netmask = 0 then 0 else 128 - m.netmask.ctz.toNat
  let displayBits := match m.address with
    | .ipv4 _ => if bits > 96 then bits - 96 else bits
    | _ => bits
  m.address.text.bytes ++ 47 :: numText 10 displayBits

/-- `Display for NetLocationMask`. -/
def locationMaskText (m : NetLocationMask) : List UInt8 :=
  if m.port = 0 then maskText m.addressMask
  else maskText m.addressMask ++ 58 :: numText 10 m.port.toNat

def isHostname : Address → Bool
  | .hostname _ => true
  | _ => false

variable {c : UInt8} {n limit keepBits : Nat} {address : Address} {bs after : List UInt8}

theorem splitFirst_none (h : c ∉ bs) : splitFirst c bs = none := by
  cases hs : splitFirst c bs with
  | none => rfl
  | some p => exact absurd (by simp [splitFirst_append hs]) h

theorem splitFirst_of_append {before} (h : c ∉ before) :
    splitFirst c (before ++ c :: after) = some (before, after) := by
  induction before with
  | nil => simp [splitFirst]
  | cons b before ih =>
    obtain ⟨hb, hrest⟩ := not_or.mp (mt mem_cons.mpr h)
    simp [splitFirst, Ne.symm hb, ih hrest]

theorem splitLast_of_append (h : c ∉ after) (before) :
    splitLast c (before ++ c :: after) = some (before, after) := by
  have hreverse : (before ++ c :: after).reverse = after.reverse ++ c :: before.reverse := by simp
  rw [splitLast, hreverse, splitFirst_of_append (by simpa using h)]
  simp

theorem parseLoop_of_parseDigits {acc} (h : parseDigits limit acc bs = some n) :
    parseLoop limit acc bs = .ok n := by
  induction bs generalizing acc with
  | nil => cases h; rfl
  | cons b bs ih =>
    simp only [parseDigits] at h
    simp only [parseLoop]
    rcases hb : toDigit 10 b with _ | d
    · simp [hb] at h
    simp only [hb] at h ⊢
    split_ifs at h ⊢
    exact ih h

theorem parseUnsigned_numText (h : n ≤ limit) : parseUnsigned limit (numText 10 n) = .ok n := by
  unfold parseUnsigned
  split
  · next heq => exact absurd heq (numText_ne_nil (by decide) n)
  · next heq => exact absurd heq (numText_ne_plus n _)
  · next heq => exact absurd heq (numText_ne_plus n _)
  · exact parseLoop_of_parseDigits (parseDigits_numText h)

theorem parsePort_numText (port) : parsePort (numText 10 port.toNat) = .ok port := by
  simp [parsePort, parseUnsigned_numText (Nat.le_of_lt_succ port.toNat_lt)]

theorem slash_not_mem_numText (n) : (47 : UInt8) ∉ numText 10 n := fun h =>
  absurd (numText_digits n 47 h).1 (by decide)

theorem canonical_of_ip (hip : isHostname address = false) : address.Canonical := by
  cases address with
  | hostname => cases hip
  | _ => trivial

/-- A mask as it is printed. -/
theorem maskText_eq (h : Keeps address keepBits) :
    ∃ n ≤ 255, maskText ⟨address, netmaskOf keepBits⟩ = address.text.bytes ++ 47 :: numText 10 n ∧
      (isHostname address = false → keepBitsOf address (some n) = .ok keepBits) := by
  have hle := h.le
  have hbits : (if netmaskOf keepBits = 0 then 0 else 128 - (netmaskOf keepBits).ctz.toNat) =
      keepBits := by
    rcases Nat.eq_zero_or_pos keepBits with rfl | hpos
    · rfl
    rw [if_neg (netmaskOf_ne_zero hpos hle), trailingZeros_netmaskOf hpos hle]
    omega
  cases address with
  | ipv4 ip =>
    simp only [Keeps] at h
    refine ⟨if keepBits > 96 then keepBits - 96 else keepBits, by split_ifs <;> omega,
      by simp only [maskText, hbits], fun _ => ?_⟩
    rcases h with rfl | h
    · rfl
    rw [if_pos h.1]
    simp only [keepBitsOf, Option.getD_some, if_neg (by omega : ¬keepBits - 96 > 32),
      if_neg (by omega : keepBits - 96 ≠ 0)]
    congr 1
    omega
  | ipv6 ip =>
    exact ⟨keepBits, by omega, by simp only [maskText, hbits], fun _ => by simp [keepBitsOf, hle]⟩
  | hostname => exact ⟨keepBits, by omega, by simp only [maskText, hbits], fun h => by cases h⟩

theorem addressMask_from_text {s : Str} (hs : s.bytes = address.text.bytes ++ 47 :: numText 10 n)
    (hn : n ≤ 255) (hip : isHostname address = false)
    (hkeep : keepBitsOf address (some n) = .ok keepBits) :
    AddressMask.from s = .ok ⟨address, netmaskOf keepBits⟩ := by
  have hsplit : splitLast 47 s.bytes = some (address.text.bytes, numText 10 n) := by
    rw [hs]
    exact splitLast_of_append (slash_not_mem_numText n) _
  have hbits : splitBits s = .ok (address.text, some n) := by
    unfold splitBits
    split
    next hb =>
      cases hsplit.symm.trans hb
      simp only [parseUnsigned_numText hn]
    next hb => cases hsplit.symm.trans hb
  simp [AddressMask.from, hbits, Address.from_text (canonical_of_ip hip), hkeep]

theorem splitBracketed_text {s : Str} {rest} (hs : s.bytes = address.text.bytes ++ 47 :: rest)
    (hip : isHostname address = false) : splitBracketed s = none := by
  unfold splitBracketed
  split
  swap
  next => rfl
  rename_i tail htail
  rcases htext : address.text.bytes with _ | ⟨b, bs⟩
  · simp [htext, htail] at hs
  obtain ⟨rfl, -⟩ : 91 = b ∧ _ := by simpa [htext, htail] using hs
  have haddress := (from_bracket htext).symm.trans (Address.from_text (canonical_of_ip hip))
  rw [← Except.ok.inj haddress] at hip
  cases hip

theorem splitPlain_text {s : Str} {m : NetLocationMask} (hn : n ≤ 255)
    (hm : maskText m.addressMask = address.text.bytes ++ 47 :: numText 10 n)
    (hs : s.bytes = locationMaskText m) :
    ∃ t : Str, t.bytes = address.text.bytes ++ 47 :: numText 10 n ∧
      splitPlain s = .ok (t, m.port) := by
  have hslash := slash_not_mem_numText
  rw [locationMaskText, hm] at hs
  split_ifs at hs with hport
  · have hlast := splitLast_of_append (hslash n) address.text.bytes
    rw [← hs] at hlast
    refine ⟨s, hs, ?_⟩
    unfold splitPlain
    split
    next hb =>
      cases hlast.symm.trans hb
      split
      next hc => cases (splitFirst_none (colon_not_mem_numText n)).symm.trans hc
      next => rw [hport]
    next hb => cases hlast.symm.trans hb
  have hafter : (47 : UInt8) ∉ numText 10 n ++ 58 :: numText 10 m.port.toNat := by simp [hslash]
  have hlast := splitLast_of_append hafter address.text.bytes
  rw [← cons_append, ← append_assoc, ← hs] at hlast
  refine ⟨⟨_, isUtf8_before_ascii (by decide) (hs ▸ s.valid)⟩, rfl, ?_⟩
  unfold splitPlain
  split
  swap
  next hb => cases hlast.symm.trans hb
  rename_i hb
  cases hlast.symm.trans hb
  split
  next hc =>
    cases (splitFirst_of_append (colon_not_mem_numText n)).symm.trans hc
    simp only [parseUnsigned_numText hn, parsePort_numText]
    rfl
  next hc => cases (splitFirst_of_append (colon_not_mem_numText n)).symm.trans hc

theorem hostname_of_from {s name : Str} (h : Address.from s = .ok (.hostname name)) : name = s := by
  unfold Address.from at h
  dsimp only at h
  split at h
  · cases h
  split at h
  · cases h
  split_ifs at h
  cases h
  rfl

/-- A mask of a hostname is the whole text, since a number of bits is refused for it. -/
theorem mask_of_hostname {s name : Str} {netmask}
    (h : AddressMask.from s = .ok ⟨.hostname name, netmask⟩) :
    name = s ∧ splitLast 47 s.bytes = none := by
  unfold AddressMask.from splitBits at h
  split at h
  · cases h
  next hbits =>
    split at h
    · cases h
    next hname =>
      split at h <;> cases h
      next hkeep =>
        split at hbits
        · split at hbits <;> cases hbits
          simp [keepBitsOf] at hkeep
        next hlast =>
          cases hbits
          exact ⟨hostname_of_from hname, hlast⟩

theorem not_hostname_of_slash {s : Str} {mask} (hs : s.bytes = bs ++ 47 :: numText 10 n)
    (h : AddressMask.from s = .ok mask) : isHostname mask.address = false := by
  rcases mask with ⟨_ | _ | name, netmask⟩
  · rfl
  · rfl
  · have hlast := (mask_of_hostname h).2
    rw [hs, splitLast_of_append (slash_not_mem_numText n)] at hlast
    cases hlast

theorem splitBracketed_bytes {s inside : Str} {port}
    (h : splitBracketed s = some (.ok (inside, port))) :
    ∃ after, s.bytes = 91 :: (inside.bytes ++ 93 :: after) := by
  unfold splitBracketed at h
  split at h
  swap
  · cases h
  rename_i rest hs
  split at h
  swap
  · cases h
  rename_i text after hr
  refine ⟨after, hs.trans ?_⟩
  rw [splitFirst_append hr]
  split at h
  next p _ =>
    rcases hp : parsePort p with _ | _ <;> simp only [hp, Except.map] at h <;> cases h
    rfl
  · cases h
    rfl

/-- No mask of a hostname is read from the brackets of its own text, which is the name with a
slash behind it. -/
theorem bracketed_ne_name {name after rest : List UInt8} :
    91 :: (name ++ 93 :: after) ≠ name ++ 47 :: rest := by
  intro h
  have htake := congrArg (List.take (name.length + 1)) h
  rw [take_succ_cons, take_left, take_append, take_of_length_le (by omega)] at htake
  have hcount := congrArg (List.count 91) htake
  simp at hcount

theorem locationMask_hostname_refused {s : Str} {l : NetLocationMask} (hn : n ≤ 255)
    (hm : maskText l.addressMask = l.addressMask.address.text.bytes ++ 47 :: numText 10 n)
    (hs : s.bytes = locationMaskText l) (h : NetLocationMask.from s = .ok l) :
    isHostname l.addressMask.address = false := by
  obtain ⟨t, ht, hplain⟩ := splitPlain_text hn hm hs
  unfold NetLocationMask.from at h
  split at h
  · cases h
  next inside port hsplit =>
  split at h <;> cases h
  next mask hmask =>
  cases hb : splitBracketed s with
  | none =>
    rw [hb, Option.getD_none, hplain] at hsplit
    cases hsplit
    exact not_hostname_of_slash ht hmask
  | some r =>
    rw [hb, Option.getD_some] at hsplit
    obtain ⟨after, hbytes⟩ := splitBracketed_bytes (hb.trans (congrArg some hsplit))
    rcases mask with ⟨_ | _ | name, netmask⟩
    · rfl
    · rfl
    · obtain ⟨rfl, -⟩ := mask_of_hostname hmask
      rw [hs, locationMaskText, hm] at hbytes
      split_ifs at hbytes
      · exact absurd hbytes.symm bracketed_ne_name
      · rw [append_assoc] at hbytes
        exact absurd hbytes.symm bracketed_ne_name

/-- **A mask that the parsers return prints and parses back exactly if it is of an IP address.** -/
theorem masks_parse_back (m : AddressMask) (l : NetLocationMask) (s t s' t' : Str)
    (h : AddressMask.from s = .ok m) (ht : t.bytes = maskText m)
    (h' : NetLocationMask.from s' = .ok l) (ht' : t'.bytes = locationMaskText l) :
    (AddressMask.from t = .ok m ↔ isHostname m.address = false) ∧
    (NetLocationMask.from t' = .ok l ↔ isHostname l.addressMask.address = false) := by
  constructor
  · obtain ⟨keepBits, hkeeps, hmask⟩ := AddressMask.from_keeps h
    obtain ⟨n, hn, htext, hkeep⟩ := maskText_eq hkeeps
    rw [← hmask] at htext
    refine ⟨not_hostname_of_slash (ht.trans htext), fun hip => ?_⟩
    rw [addressMask_from_text (ht.trans htext) hn hip (hkeep hip), ← hmask]
  obtain ⟨keepBits, hkeeps, hmask⟩ := NetLocationMask.from_keeps h'
  obtain ⟨n, hn, htext, hkeep⟩ := maskText_eq hkeeps
  rw [← hmask] at htext
  refine ⟨locationMask_hostname_refused hn htext ht', fun hip => ?_⟩
  obtain ⟨t, hbytes, hplain⟩ := splitPlain_text hn htext ht'
  have hnone : splitBracketed t' = none := by
    rw [locationMaskText, htext] at ht'
    split_ifs at ht'
    · exact splitBracketed_text ht' hip
    · exact splitBracketed_text (ht'.trans (append_assoc ..)) hip
  simp [NetLocationMask.from, hnone, hplain, addressMask_from_text hbytes hn hip (hkeep hip), ← hmask]

/-- `1.1.1.1/8` parses back, `g/128:9`, the text of the mask of `g:9`, does not. -/
theorem masks_parse_back_private :
    (AddressMask.from (str [49, 46, 49, 46, 49, 46, 49, 47, 56]) =
      .ok ⟨.ipv4 ⟨1, 1, 1, 1⟩, netmaskOf 104⟩ ↔ isHostname (.ipv4 ⟨1, 1, 1, 1⟩) = false) ∧
    (NetLocationMask.from (str [103, 47, 49, 50, 56, 58, 57]) =
      .ok ⟨⟨.hostname (str [103]), netmaskOf 128⟩, 9⟩ ↔ isHostname (.hostname (str [103])) = false) :=
  masks_parse_back ⟨.ipv4 ⟨1, 1, 1, 1⟩, netmaskOf 104⟩ ⟨⟨.hostname (str [103]), netmaskOf 128⟩, 9⟩
    (str [49, 46, 49, 46, 49, 46, 49, 47, 56]) _ (str [103, 58, 57]) _
    (by decide +kernel) (by decide +kernel) (by decide +kernel) (by decide +kernel)

/-- The mask of the hostname `g` prints as `g/128`, which is refused. -/
theorem hostname_mask_refused :
    AddressMask.from (str [103]) = .ok ⟨.hostname (str [103]), netmaskOf 128⟩ ∧
    maskText ⟨.hostname (str [103]), netmaskOf 128⟩ = [103, 47, 49, 50, 56] ∧
    ¬(AddressMask.from (str [103, 47, 49, 50, 56])).isOk := by
  decide +kernel

end Shoes.Net.Texts
