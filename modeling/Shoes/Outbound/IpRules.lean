import Shoes.Outbound.Index

/-! # Address rules against a linear scan

The compiled address rules should pick what a scan of the masks with `match_mask` picks. They keep
one radix tree for each family and ask that of the address. But `match_mask` compares all addresses
as 128 bits, so a rule of the other family can accept an address too. -/
namespace Shoes.Outbound.IpRules
open Lib Lib.Io Lib.Utf8 Lib.IpText Lib.Ipv6Text List
open Lib.FirstMatch Net.Location Net.Masks
open Routing.Matchers Index

/-! ## `match_mask` on an address -/

/-- A destination that is an address. -/
def ipTarget (ip : IpAddr) (port : UInt16) : Target := ⟨⟨⟨ip.address, port⟩, none⟩, none⟩

/-- `match_mask` accepts the address and port. -/
def maskAccepts (resolver : Resolver) (resolveRuleHostnames : Bool) (ip : IpAddr) (port : UInt16)
    (mask : NetLocationMask) : Bool :=
  match (matchMask resolver resolveRuleHostnames mask (ipTarget ip port)).1 with
  | .ok accepted => accepted
  | .error _ => false

/-- The rule address of a mask as 128 bits. -/
def ruleBits : Address → Option (BitVec 128)
  | .ipv4 ip => some (u128From (toIpv6Mapped ip))
  | .ipv6 ip => some (u128From ip)
  | .hostname _ => none

theorem ipTarget_port (ip port) : (ipTarget ip port).location.location.port = port := rfl

theorem matchMask_ip (hbits : ruleBits mask.addressMask.address = some bits)
    (hport : ¬(mask.port > 0 ∧ mask.port ≠ port)) (hzero : mask.addressMask.netmask ≠ 0) :
    maskAccepts resolver resolveRuleHostnames ip port mask
      = (bits &&& mask.addressMask.netmask == ipToU128 ip &&& mask.addressMask.netmask) := by
  obtain ⟨t, ht⟩ : ∃ t, destinationIp resolver (ipTarget ip port) = .ok (ipToU128 ip, t) := by
    cases ip <;> exact ⟨_, rfl⟩
  have hres : matchResolved resolver mask (ipTarget ip port)
      = (matchAddress resolver mask (ipToU128 ip), t) := by
    rw [matchResolved, ht]
  have haddr : matchAddress resolver mask (ipToU128 ip)
      = .ok (bits &&& mask.addressMask.netmask == ipToU128 ip &&& mask.addressMask.netmask) := by
    unfold matchAddress
    cases hm : mask.addressMask.address <;> rw [hm] at hbits <;> cases hbits <;> rfl
  have hhost : hostname mask.addressMask.address = none := by
    cases hm : mask.addressMask.address <;> rw [hm] at hbits <;> cases hbits <;> rfl
  rw [maskAccepts, matchMask, ipTarget_port, if_neg hport, if_neg hzero, hhost]
  rw [hres, haddr]

/-- What `match_mask` asks of an address: the port, if the mask has one, and the bits that
the netmask keeps. -/
theorem maskAccepts_iff (hbits : ruleBits mask.addressMask.address = some bits)
    (hmask : mask.addressMask.netmask = netmaskOf keepBits) (hkeep : keepBits ≤ 128) :
    maskAccepts resolver resolveRuleHostnames ip port mask = true ↔
      (mask.port = 0 ∨ mask.port = port)
        ∧ ∀ i < keepBits, bits.getMsbD i = (ipToU128 ip).getMsbD i := by
  have hpos : mask.port > 0 ↔ mask.port ≠ 0 := UInt16.pos_iff_ne_zero
  by_cases hport : mask.port > 0 ∧ mask.port ≠ port
  · have hno : ¬(mask.port = 0 ∨ mask.port = port) := by
      rintro (h | h)
      · exact hpos.mp hport.1 h
      · exact hport.2 h
    rw [maskAccepts, matchMask, ipTarget_port, if_pos hport]
    simp [hno]
  have hyes : mask.port = 0 ∨ mask.port = port := by
    by_contra hno
    rw [not_or] at hno
    exact hport ⟨hpos.mpr hno.1, hno.2⟩
  by_cases hzero : mask.addressMask.netmask = 0
  · have hk : keepBits = 0 := by
      by_contra hne
      exact netmaskOf_ne_zero (Nat.pos_of_ne_zero hne) hkeep (hmask ▸ hzero)
    rw [maskAccepts, matchMask, ipTarget_port, if_neg hport, if_pos hzero, hk]
    simp [hyes]
  rw [matchMask_ip hbits hport hzero, beq_iff_eq, hmask, masked_eq_iff hkeep]
  exact (and_iff_right hyes).symm

/-! ## The radix trees -/

theorem leadingBits_prefix_iff (hn : n ≤ 128) (x y) :
    leadingBits x n <+: leadingBits y 128 ↔ ∀ i < n, x.getMsbD i = y.getMsbD i := by
  have hbit : ∀ (z : BitVec 128) (i : Nat), i < n → z.getLsbD (127 - i) = z.getMsbD i := by
    intro z i hi
    rw [BitVec.getMsbD_eq_getLsbD]
    simp [show i < 128 by omega]
  rw [prefix_iff_eq_take]
  simp only [leadingBits, length_map, length_range, ← map_take, take_range,
    min_eq_left hn, map_inj_left, mem_range]
  constructor
  · intro h i hi
    rw [← hbit x i hi, h i hi, hbit y i hi]
  intro h i hi
  rw [hbit x i hi, h i hi, hbit y i hi]

theorem bits_netmaskOf (hk : keepBits ≤ 128) :
    (if netmaskOf keepBits = 0 then 0 else 128 - (netmaskOf keepBits).ctz.toNat) = keepBits := by
  by_cases h0 : keepBits = 0
  · subst h0
    rfl
  have hpos := Nat.pos_of_ne_zero h0
  rw [if_neg (netmaskOf_ne_zero hpos hk), trailingZeros_netmaskOf hpos hk, Nat.sub_sub_self hk]

theorem prefixLen_ipv4 (hk : keepBits ≤ 128) :
    prefixLen ⟨.ipv4 ip, netmaskOf keepBits⟩ = keepBits - 96 := by
  have hbits := bits_netmaskOf hk
  unfold prefixLen
  split_ifs at hbits ⊢ with h0
  · omega
  · rw [hbits]

/-- Under a mask with a prefix in the mapped form, two IPv4 addresses are equal exactly if
their keys start with the same bits. -/
theorem mapped_agree_iff (hk : keepBits = 0 ∨ 96 < keepBits ∧ keepBits ≤ 128) (x y) :
    (∀ i < keepBits, (u128From (toIpv6Mapped x)).getMsbD i = (u128From (toIpv6Mapped y)).getMsbD i)
      ↔ ∀ i < keepBits - 96, (ipv4Key x).getMsbD i = (ipv4Key y).getMsbD i := by
  have hkey : ∀ (ip : Ipv4Addr) (i : Nat), i < 32 →
      (ipv4Key ip).getMsbD i = (u32From ip).getMsbD i := by
    intro ip i hi
    rw [ipv4Key, BitVec.getMsbD_shiftLeft, BitVec.getMsbD_eq_getLsbD, BitVec.getMsbD_eq_getLsbD]
    simp only [show i + 96 < 128 by omega, hi, show 128 - 1 - (i + 96) = 32 - 1 - i by omega,
      BitVec.getLsbD_setWidth, show 32 - 1 - i < 128 by omega, decide_true, Bool.true_and]
  have hmapped : ∀ (ip : Ipv4Addr) (i : Nat), (u128From (toIpv6Mapped ip)).getMsbD i
      = if 96 ≤ i then (u32From ip).getMsbD (i - 96) else (0xffff#96).getMsbD i := by
    intro ip i
    rw [u128From_mapped, BitVec.getMsbD_append]
  constructor
  · intro h i hi
    have hi' := h (i + 96) (by omega)
    rw [hmapped, hmapped, if_pos (by omega), if_pos (by omega), Nat.add_sub_cancel] at hi'
    rw [hkey x i (by omega), hkey y i (by omega), hi']
  intro h i hi
  rw [hmapped, hmapped]
  split
  · have hi' := h (i - 96) (by omega)
    rwa [hkey x _ (by omega), hkey y _ (by omega)] at hi'
  · rfl

/-! ## The indexes -/

/-- A mask as the parsers return it. -/
def Prefix (mask : NetLocationMask) : Prop :=
  ∃ keepBits, Keeps mask.addressMask.address keepBits
    ∧ mask.addressMask.netmask = netmaskOf keepBits

section
variable {resolver : Resolver} {resolveRuleHostnames : Bool} {port : UInt16}

theorem walk_v4_iff (h : Prefix ⟨⟨.ipv4 ip', netmask⟩, p⟩) :
    maskAccepts resolver resolveRuleHostnames (.v4 ip) port ⟨⟨.ipv4 ip', netmask⟩, p⟩ = true ↔
      (p = 0 ∨ p = port) ∧ leadingBits (ipv4Key ip') (prefixLen ⟨.ipv4 ip', netmask⟩)
        <+: leadingBits (ipv4Key ip) 128 := by
  obtain ⟨keepBits, hk, rfl⟩ := h
  have hle : keepBits ≤ 128 := hk.le
  rw [maskAccepts_iff rfl rfl hle, prefixLen_ipv4 hle, leadingBits_prefix_iff (by omega)]
  exact and_congr_right fun _ => mapped_agree_iff hk ip' ip

theorem walk_v6_iff (h : Prefix ⟨⟨.ipv6 ip', netmask⟩, p⟩) :
    maskAccepts resolver resolveRuleHostnames (.v6 ip) port ⟨⟨.ipv6 ip', netmask⟩, p⟩ = true ↔
      (p = 0 ∨ p = port) ∧ leadingBits (u128From ip') (prefixLen ⟨.ipv6 ip', netmask⟩)
        <+: leadingBits (u128From ip) 128 := by
  obtain ⟨keepBits, hk, rfl⟩ := h
  have hle : keepBits ≤ 128 := hk.le
  rw [maskAccepts_iff rfl rfl hle, prefixLen, bits_netmaskOf hle, leadingBits_prefix_iff hle]
  rfl

end

def sameFamily : IpAddr → Address → Bool
  | .v4 _, .ipv4 _ => true
  | .v6 _, .ipv6 _ => true
  | _, _ => false

section
variable {Regex : Type} (resolver : Resolver) (resolveRuleHostnames : Bool) (ip : IpAddr)
  (port : UInt16)

def accepts : ConnectMatcher Regex → Bool
  | .location mask => maskAccepts resolver resolveRuleHostnames ip port mask
  | _ => false

def ownAccepts : ConnectMatcher Regex → Bool
  | .location mask => sameFamily ip mask.addressMask.address
      && maskAccepts resolver resolveRuleHostnames ip port mask
  | _ => false

variable {resolver resolveRuleHostnames ip port} {flat : List (Entry Regex)}
  {inner : CompiledRulesInner Regex}

theorem bestIp_isLeast (h : Indexed flat inner)
    (hpre : ∀ order mask outbound, (order, .location mask, outbound) ∈ flat → Prefix mask) :
    IsLeast (fun c => ∃ m, (c.1, m, c.2) ∈ flat
      ∧ ownAccepts resolver resolveRuleHostnames ip port m = true) (inner.bestIp port ip) := by
  cases ip with
  | v4 ip =>
    refine (IpRadix.query_isLeast inner.ipv4 (ipv4Key ip) port).congr fun c => ?_
    constructor
    · rintro ⟨m, hm, hacc⟩
      match m, hm, hacc with
      | .location ⟨⟨.ipv4 ip', netmask⟩, p⟩, hm, hacc =>
        obtain ⟨hp, hwalk⟩ := (walk_v4_iff (hpre _ _ _ hm)).mp hacc
        exact ⟨p, _, hwalk, (h.ipv4 _ _).mpr ⟨ip', netmask, hm, rfl⟩, hp⟩
    rintro ⟨p, qs, hwalk, hmem, hp⟩
    obtain ⟨ip', netmask, hm, rfl⟩ := (h.ipv4 _ _).mp hmem
    exact ⟨_, hm, (walk_v4_iff (hpre _ _ _ hm)).mpr ⟨hp, hwalk⟩⟩
  | v6 ip =>
    refine (IpRadix.query_isLeast inner.ipv6 (u128From ip) port).congr fun c => ?_
    constructor
    · rintro ⟨m, hm, hacc⟩
      match m, hm, hacc with
      | .location ⟨⟨.ipv6 ip', netmask⟩, p⟩, hm, hacc =>
        obtain ⟨hp, hwalk⟩ := (walk_v6_iff (hpre _ _ _ hm)).mp hacc
        exact ⟨p, _, hwalk, (h.ipv6 _ _).mpr ⟨ip', netmask, hm, rfl⟩, hp⟩
    rintro ⟨p, qs, hwalk, hmem, hp⟩
    obtain ⟨ip', netmask, hm, rfl⟩ := (h.ipv6 _ _).mp hmem
    exact ⟨_, hm, (walk_v6_iff (hpre _ _ _ hm)).mpr ⟨hp, hwalk⟩⟩

end

/-! ## Against the scan -/

section
variable {Regex : Type}
  (expandGeosite expandGeoip : Str → Except IoError (List (ParsedRule Regex)))

/-- Every mask of the rules and of the rule sets they refer to comes out of the parser. -/
def MasksParsed (rules : List (ParsedRule Regex)) : Prop :=
  ∀ rule ∈ rules, ∀ mask, .location mask ∈ matchersOf expandGeosite expandGeoip rule →
    ∃ text, NetLocationMask.from text = .ok mask

section
variable (resolver : Resolver) (resolveRuleHostnames : Bool) (ip : IpAddr) (port : UInt16)

def ruleAccepts (rule : ParsedRule Regex) : Bool :=
  (matchersOf expandGeosite expandGeoip rule).any (accepts resolver resolveRuleHostnames ip port)

def ruleOwnAccepts (rule : ParsedRule Regex) : Bool :=
  (matchersOf expandGeosite expandGeoip rule).any
    (ownAccepts resolver resolveRuleHostnames ip port)

end

variable {expandGeosite expandGeoip} {rules : List (ParsedRule Regex)}
  {compiled : CompiledRules Regex} {resolver : Resolver} {resolveRuleHostnames : Bool}

/-- **What the compiled address rules pick.** The outbound of the first rule with a mask of
the address's own family that accepts it. -/
theorem matchIp_eq_firstMatch (h : compile expandGeosite expandGeoip rules = .ok compiled)
    (hparsed : MasksParsed expandGeosite expandGeoip rules) (ip port) :
    compiled.matchIp ip port = firstMatch
      (ruleOwnAccepts expandGeosite expandGeoip resolver resolveRuleHostnames ip port)
      ParsedRule.outbound rules := by
  refine compile_firstMatch h ?_
  intro flat inner hnum hix
  refine bestIp_isLeast hix ?_
  intro order mask outbound hm
  obtain ⟨i, rule, -, hr, hmem, -⟩ := (hnum.mem_iff _).mp hm
  obtain ⟨text, htext⟩ := hparsed rule (mem_of_getElem? hr) mask hmem
  exact NetLocationMask.from_keeps htext

/-- **The compiled address rules and the scan.** They pick the same outbound exactly if,
where the first rule that accepts the address does so only with masks of the other family,
the first one after it with a mask of the address's own family names the same outbound. -/
theorem match_ip_eq_scan_iff (h : compile expandGeosite expandGeoip rules = .ok compiled)
    (hparsed : MasksParsed expandGeosite expandGeoip rules) (ip : IpAddr) (port : UInt16) :
    compiled.matchIp ip port = firstMatch
        (ruleAccepts expandGeosite expandGeoip resolver resolveRuleHostnames ip port)
        ParsedRule.outbound rules
      ↔ Agree (ruleOwnAccepts expandGeosite expandGeoip resolver resolveRuleHostnames ip port)
        (ruleAccepts expandGeosite expandGeoip resolver resolveRuleHostnames ip port)
        ParsedRule.outbound rules := by
  rw [matchIp_eq_firstMatch h hparsed]
  exact firstMatch_eq_iff _ _ _ rules

/-- `10.0.0.0/8:443`, `0.0.0.0/0` and an outbound, `lan`. -/
def tenText : Str := ⟨[49, 48, 46, 48, 46, 48, 46, 48, 47, 56, 58, 52, 52, 51], by decide⟩
def tenMask : NetLocationMask := ⟨⟨.ipv4 ⟨10, 0, 0, 0⟩, netmaskOf 104⟩, 443⟩
def anyText : Str := ⟨[48, 46, 48, 46, 48, 46, 48, 47, 48], by decide⟩
def anyMask : NetLocationMask := ⟨⟨.ipv4 ⟨0, 0, 0, 0⟩, netmaskOf 0⟩, 0⟩
def via : Str := ⟨[108, 97, 110], by decide⟩

/-- A rule set with one network and a port. -/
def tenSet (_ : Str) : Except IoError (List (ParsedRule Unit)) :=
  .ok [⟨0, via, some (.location tenMask), none, anyText⟩]

/-- The wider network comes first. -/
def widerFirst : List (ParsedRule Unit) :=
  [⟨1, via, some (.location anyMask), none, anyText⟩, ⟨2, via, none, some (.geoip via), via⟩]

theorem match_ip_eq_scan_expanded : ∃ compiled,
    compile (fun _ => .ok []) tenSet widerFirst = .ok compiled
      ∧ compiled.matchIp (.v4 ⟨10, 1, 2, 3⟩) 443 = some anyText
      ∧ compiled.matchIp (.v4 ⟨10, 1, 2, 3⟩) 443 = firstMatch
        (ruleAccepts (fun _ => .ok []) tenSet (fun _ => .ok []) false (.v4 ⟨10, 1, 2, 3⟩) 443)
        ParsedRule.outbound widerFirst := by
  refine ⟨_, rfl, by decide +kernel, (match_ip_eq_scan_iff rfl ?_ _ _).mpr (by decide +kernel)⟩
  intro rule hrule mask hmask
  rcases mem_pair.mp hrule with rfl | rfl
  · have hany : ConnectMatcher.location mask ∈ [(.location anyMask : ConnectMatcher Unit)] := hmask
    exact ⟨anyText, by cases mem_singleton.mp hany; rfl⟩
  · have hten : ConnectMatcher.location mask ∈ [(.location tenMask : ConnectMatcher Unit)] := hmask
    exact ⟨tenText, by cases mem_singleton.mp hten; rfl⟩

/-- `0.0.0.0/0` is meant to match IPv6 addresses too, but is filed with the IPv4 masks
only. -/
theorem any_address_misses_v6 : ∃ compiled, NetLocationMask.from anyText = .ok anyMask
      ∧ compile (fun _ => .ok []) (fun _ => .ok [])
        [(⟨1, via, some (.location anyMask), none, via⟩ : ParsedRule Unit)] = .ok compiled
      ∧ compiled.matchIp (.v6 ⟨[0, 0, 0, 0, 0, 0, 0, 1], rfl⟩) 443 = none
      ∧ firstMatch (ruleAccepts (fun _ => .ok []) (fun _ => .ok []) (fun _ => .ok []) false
          (.v6 ⟨[0, 0, 0, 0, 0, 0, 0, 1], rfl⟩) 443) ParsedRule.outbound
          [(⟨1, via, some (.location anyMask), none, via⟩ : ParsedRule Unit)] = some via :=
  ⟨_, rfl, rfl, by decide +kernel, by decide +kernel⟩

end

end Shoes.Outbound.IpRules
