import Shoes.Lib.FirstMatch
import Shoes.Lib.Trie
import Shoes.Routing.Matchers

/-! # Compiled rule indexes

`CompiledRules` of the outbound dispatcher: one index per kind of matcher, each entry with the
position of its rule. `compile` numbers the rules, expands references to rule sets and files every
matcher. -/
namespace Shoes.Outbound.Index
open Lib Lib.Io Lib.Utf8 Lib.IpText Lib.Ipv6Text List
open Lib.FirstMatch Net.Location Net.Masks Routing.Matchers

/-! ## Parsed rules -/

inductive ExternalRuleSet
  | geosite (code : Str)
  | geoip (code : Str)
  deriving DecidableEq

structure ParsedRule (Regex : Type) where
  line : Nat
  source : Str
  matcher : Option (ConnectMatcher Regex)
  external : Option ExternalRuleSet
  outbound : Str

abbrev Entry (Regex : Type) := Nat × ConnectMatcher Regex × Str

/-! ## The suffix trie -/

abbrev SuffixTrie := Trie Nat (Nat × Str)

def SuffixTrie.insert (suffix : Str) (order : Nat) (outbound : Str) (t : SuffixTrie) : SuffixTrie :=
  Trie.insert (order, outbound) suffix.chars.reverse t

/-- The suffix is all of the hostname, or a full stop comes before it. -/
def anchored : List UInt8 → Bool
  | [] => true
  | b :: _ => b == 46

/-- The loop of `SuffixTrie::query` over the bytes of the hostname from its end; each byte
is looked up as if it were a character. -/
def SuffixTrie.queryFrom : List UInt8 → SuffixTrie → Option (Nat × Str) → Option (Nat × Str)
  | [], _, best => best
  | b :: before, node, best =>
    match node.child b.toNat with
    | none => best
    | some child =>
      SuffixTrie.queryFrom before child
        (if anchored before then offerHits (fun _ => true) id best child.entries else best)

def SuffixTrie.query (t : SuffixTrie) (host : Str) (best : Option (Nat × Str)) :
    Option (Nat × Str) :=
  SuffixTrie.queryFrom host.bytes.reverse t best

/-! ## The radix trees -/

abbrev IpRadix := Trie Bool (Nat × Str × UInt16)

/-- An IPv4 address stands in the top 32 bits of its key. -/
def ipv4Key (ip : Ipv4Addr) : BitVec 128 := (u32From ip).setWidth 128 <<< 96

/-- The leading bits, as the walk takes them. -/
def leadingBits (ipBits : BitVec 128) (n : Nat) : List Bool :=
  (List.range n).map fun i => ipBits.getLsbD (127 - i)

def IpRadix.insert (ipBits : BitVec 128) (prefixLen order : Nat) (outbound : Str) (port : UInt16)
    (t : IpRadix) : IpRadix :=
  Trie.insert (order, outbound, port) (leadingBits ipBits prefixLen) t

/-- The entries of one node; one with a port matches only that port. -/
def offerPorts (port : UInt16) (best : Option (Nat × Str)) (es : List (Nat × Str × UInt16)) :
    Option (Nat × Str) :=
  offerHits (fun e => e.2.2 == 0 || e.2.2 == port) (fun e => (e.1, e.2.1)) best es

/-- The loop of `IpRadix::query`. -/
def IpRadix.queryFrom (port : UInt16) :
    List Bool → IpRadix → Option (Nat × Str) → Option (Nat × Str)
  | [], node, best => offerPorts port best node.entries
  | bit :: bits, node, best =>
    match node.child bit with
    | none => offerPorts port best node.entries
    | some child => IpRadix.queryFrom port bits child (offerPorts port best node.entries)

def IpRadix.query (t : IpRadix) (ipBits : BitVec 128) (port : UInt16)
    (best : Option (Nat × Str)) : Option (Nat × Str) :=
  IpRadix.queryFrom port (leadingBits ipBits 128) t best

def prefixLen (mask : AddressMask) : Nat :=
  if mask.netmask = 0 then 0
  else
    let bits := 128 - mask.netmask.ctz.toNat
    match mask.address with
    | .ipv4 _ => bits - 96
    | _ => bits

/-! ## The indexes -/

structure CompiledRulesInner (Regex : Type) where
  hasIpRules : Bool
  catchAll : Option (Nat × Str)
  suffixTrie : SuffixTrie
  full : Assoc.Map Str (Nat × Str)
  keywords : List (Nat × Str × Str)
  regexes : List (Nat × Str × Regex)
  ipv4 : IpRadix
  ipv6 : IpRadix
  protocols : List (Nat × Str × SniffedProtocol)

structure CompiledRules (Regex : Type) where
  inner : Option (CompiledRulesInner Regex)

variable {Regex : Type}

section
variable (rules : CompiledRules Regex)

def CompiledRules.isEmpty : Bool := rules.inner.isNone

def CompiledRules.hasIpRules : Bool :=
  rules.inner.any CompiledRulesInner.hasIpRules

/-- The hostname in lower case, copied only if it has to be. -/
def lowered (domain : Str) : Str :=
  if domain.bytes.any fun b => decide (65 ≤ b ∧ b ≤ 90) then domain.toAsciiLowercase else domain

def keywordCand (e : Nat × Str × Str) : Nat × Str := (e.1, e.2.2)

def regexCand (e : Nat × Str × Regex) : Nat × Str := (e.1, e.2.1)

def CompiledRulesInner.bestDomain (isMatch : Regex → Str → Bool)
    (inner : CompiledRulesInner Regex) (host : Str) : Option (Nat × Str) :=
  let best := SuffixTrie.query inner.suffixTrie host none
  let best := offerFound best (inner.full.get host)
  let best := offerUntil (fun e => containsBytes e.2.1.bytes host.bytes) keywordCand best
    inner.keywords
  offerUntil (fun e => isMatch e.2.2 host) regexCand best inner.regexes

def CompiledRules.matchDomain (isMatch : Regex → Str → Bool) (rules : CompiledRules Regex)
    (domain : Str) : Option Str :=
  rules.inner.bind fun inner => (inner.bestDomain isMatch (lowered domain)).map Prod.snd

/-- The radix tree of the address's family, asked for the address. -/
def CompiledRulesInner.bestIp (inner : CompiledRulesInner Regex) (port : UInt16) :
    IpAddr → Option (Nat × Str)
  | .v4 ip => IpRadix.query inner.ipv4 (ipv4Key ip) port none
  | .v6 ip => IpRadix.query inner.ipv6 (u128From ip) port none

def CompiledRules.matchIp (ip : IpAddr) (port : UInt16) : Option Str :=
  rules.inner.bind fun inner => (inner.bestIp port ip).map Prod.snd

def CompiledRules.matchProtocol (protocol : SniffedProtocol) : Option Str :=
  rules.inner.bind fun inner =>
    (offerHits (fun e => e.2.2 == protocol) (fun e => (e.1, e.2.1)) none inner.protocols).map
      Prod.snd

def CompiledRules.matchCatchAll : Option Str :=
  rules.inner.bind fun inner => inner.catchAll.map Prod.snd

end

/-! ## `compile` -/

def externalRuleSetError (code : Str) (msg : String) : IoError :=
  ⟨.invalidData, s!"rule set `{code.show}`: {msg}"⟩

/-- The matchers of an expanded rule set, under the order and the outbound of the rule that
refers to it. -/
def expandedEntries (code : Str) (order : Nat) (outbound : Str) :
    List (ParsedRule Regex) → Except IoError (List (Entry Regex))
  | [] => .ok []
  | rule :: rules =>
    match rule.matcher with
    | none => .error (externalRuleSetError code "expanded rule has no matcher")
    | some matcher =>
      match expandedEntries code order outbound rules with
      | .error e => .error e
      | .ok entries => .ok ((order, matcher, outbound) :: entries)

section
variable (expandGeosite expandGeoip : Str → Except IoError (List (ParsedRule Regex)))

/-- What one rule adds to `flat`. -/
def ruleEntries (order : Nat) (rule : ParsedRule Regex) : Except IoError (List (Entry Regex)) :=
  match rule.external with
  | some (.geosite code) =>
    match expandGeosite code with
    | .error e => .error e
    | .ok expanded => expandedEntries code order rule.outbound expanded
  | some (.geoip code) =>
    match expandGeoip code with
    | .error e => .error e
    | .ok expanded => expandedEntries code order rule.outbound expanded
  | none =>
    match rule.matcher with
    | some matcher => .ok [(order, matcher, rule.outbound)]
    | none => .ok []

/-- A rule without a matcher and without a rule set is a catch-all; the last one counts. -/
def catchAllOf (order : Nat) (rule : ParsedRule Regex) (catchAll : Option (Nat × Str)) :
    Option (Nat × Str) :=
  if rule.external.isNone ∧ rule.matcher.isNone then some (order, rule.outbound) else catchAll

/-- The first loop of `compile`. -/
def flatten : Nat → Option (Nat × Str) → List (ParsedRule Regex) →
    Except IoError (List (Entry Regex) × Option (Nat × Str))
  | _, catchAll, [] => .ok ([], catchAll)
  | order, catchAll, rule :: rules =>
    match ruleEntries expandGeosite expandGeoip order rule with
    | .error e => .error e
    | .ok entries =>
      match flatten (order + 1) (catchAllOf order rule catchAll) rules with
      | .error e => .error e
      | .ok (flat, catchAll) => .ok (entries ++ flat, catchAll)

end

/-- The error for a hostname in a rule on addresses. -/
def hostnameError (name : Str) : IoError :=
  ⟨.invalidInput,
    s!"IP/CIDR rule cannot use hostname `{name.show}`; use DOMAIN-SUFFIX/DOMAIN instead"⟩

/-- File one matcher. A full domain that is there already keeps its rule. -/
def addMatcher (inner : CompiledRulesInner Regex) (e : Entry Regex) :
    Except IoError (CompiledRulesInner Regex) :=
  match e with
  | (order, .domainSuffix suffix, outbound) =>
    .ok { inner with suffixTrie := SuffixTrie.insert suffix order outbound inner.suffixTrie }
  | (order, .domainFull domain, outbound) =>
    .ok { inner with full := inner.full.orInsert domain.toAsciiLowercase (order, outbound) }
  | (order, .domainKeyword keyword, outbound) =>
    .ok { inner with keywords := inner.keywords ++ [(order, keyword.toAsciiLowercase, outbound)] }
  | (order, .domainRegex regex, outbound) =>
    .ok { inner with regexes := inner.regexes ++ [(order, outbound, regex)] }
  | (order, .location mask, outbound) =>
    let prefixLen := prefixLen mask.addressMask
    match mask.addressMask.address with
    | .ipv4 ip => .ok { inner with
        hasIpRules := true
        ipv4 := IpRadix.insert (ipv4Key ip) prefixLen order outbound mask.port inner.ipv4 }
    | .ipv6 ip => .ok { inner with
        hasIpRules := true
        ipv6 := IpRadix.insert (u128From ip) prefixLen order outbound mask.port inner.ipv6 }
    | .hostname name => .error (hostnameError name)
  | (order, .protocol protocol, outbound) =>
    .ok { inner with protocols := inner.protocols ++ [(order, outbound, protocol)] }

/-- The second loop of `compile`. -/
def addMatchers : CompiledRulesInner Regex → List (Entry Regex) →
    Except IoError (CompiledRulesInner Regex)
  | inner, [] => .ok inner
  | inner, e :: es =>
    match addMatcher inner e with
    | .error e => .error e
    | .ok inner => addMatchers inner es

/-- The indexes before any matcher is filed. -/
def emptyInner (catchAll : Option (Nat × Str)) : CompiledRulesInner Regex where
  hasIpRules := false
  catchAll := catchAll
  suffixTrie := Trie.empty
  full := Assoc.Map.empty
  keywords := []
  regexes := []
  ipv4 := Trie.empty
  ipv6 := Trie.empty
  protocols := []

def compile (expandGeosite expandGeoip : Str → Except IoError (List (ParsedRule Regex)))
    (rules : List (ParsedRule Regex)) : Except IoError (CompiledRules Regex) :=
  match flatten expandGeosite expandGeoip 0 none rules with
  | .error e => .error e
  | .ok (flat, catchAll) =>
    if flat.isEmpty ∧ catchAll.isNone then .ok ⟨none⟩
    else
      match addMatchers (emptyInner catchAll) flat with
      | .error e => .error e
      | .ok inner => .ok ⟨some inner⟩

/-! ## What `flatten` numbers

A parsed rule stands for the matchers it compiles to. -/

/-- The matchers of a list of expanded rules, if every rule has one. -/
def expandedMatchers (expanded : Except IoError (List (ParsedRule Regex))) :
    List (ConnectMatcher Regex) :=
  match expanded with
  | .ok rules => rules.filterMap ParsedRule.matcher
  | .error _ => []

section
variable (expandGeosite expandGeoip : Str → Except IoError (List (ParsedRule Regex)))

def matchersOf (rule : ParsedRule Regex) : List (ConnectMatcher Regex) :=
  match rule.external with
  | some (.geosite code) => expandedMatchers (expandGeosite code)
  | some (.geoip code) => expandedMatchers (expandGeoip code)
  | none => rule.matcher.toList

variable {expandGeosite expandGeoip}

theorem expandedEntries_eq {rules : List (ParsedRule Regex)}
    (h : expandedEntries code order outbound rules = .ok entries) :
    entries = (rules.filterMap ParsedRule.matcher).map fun m => (order, m, outbound) := by
  induction rules generalizing entries with
  | nil => cases h; rfl
  | cons rule rules ih =>
    simp only [expandedEntries] at h
    split at h
    · cases h
    rename_i matcher hm
    split at h <;> cases h
    rename_i rest hrest
    simp [hm, ih hrest]

theorem ruleEntries_eq (h : ruleEntries expandGeosite expandGeoip order rule = .ok entries) :
    entries = (matchersOf expandGeosite expandGeoip rule).map fun m =>
      (order, m, rule.outbound) := by
  unfold ruleEntries at h
  unfold matchersOf
  rcases hx : rule.external with _ | set
  · rw [hx] at h
    cases hm : rule.matcher <;> rw [hm] at h <;> cases h <;> rfl
  rw [hx] at h
  cases set with
  | geosite code =>
    dsimp only at h ⊢
    cases he : expandGeosite code with
    | error => rw [he] at h; cases h
    | ok => rw [he] at h; exact expandedEntries_eq h
  | geoip code =>
    dsimp only at h ⊢
    cases he : expandGeoip code with
    | error => rw [he] at h; cases h
    | ok => rw [he] at h; exact expandedEntries_eq h

variable (expandGeosite expandGeoip) in
/-- The numbered matchers are those of the rules, each under the position of its rule, and
the positions ascend. -/
structure Numbers (start : Nat) (rules : List (ParsedRule Regex)) (flat : List (Entry Regex)) :
    Prop where
  mem_iff : ∀ e : Entry Regex, e ∈ flat ↔ ∃ i rule, e.1 = start + i ∧ rules[i]? = some rule
    ∧ e.2.1 ∈ matchersOf expandGeosite expandGeoip rule ∧ rule.outbound = e.2.2
  ascending : flat.Pairwise fun e e' => e.1 ≤ e'.1

theorem Numbers.cons (h : Numbers expandGeosite expandGeoip (start + 1) rules flat) :
    Numbers expandGeosite expandGeoip start (rule :: rules)
      ((matchersOf expandGeosite expandGeoip rule).map (fun m => (start, m, rule.outbound))
        ++ flat) where
  mem_iff := by
    intro e
    rw [mem_append, h.mem_iff, mem_map]
    constructor
    · rintro (⟨m, hm, rfl⟩ | ⟨i, r, ho, hr, hm, hout⟩)
      · exact ⟨0, rule, rfl, rfl, hm, rfl⟩
      · exact ⟨i + 1, r, by omega, by simpa using hr, hm, hout⟩
    rintro ⟨i, r, ho, hr, hm, hout⟩
    cases i with
    | zero =>
      simp only [List.getElem?_cons_zero, Option.some.injEq] at hr
      subst hr
      exact .inl ⟨e.2.1, hm, Prod.ext ho.symm (Prod.ext rfl hout)⟩
    | succ i => exact .inr ⟨i, r, by omega, by simpa using hr, hm, hout⟩
  ascending := by
    rw [pairwise_append]
    refine ⟨?_, h.ascending, ?_⟩
    · rw [pairwise_map]
      exact pairwise_of_forall fun _ _ => le_rfl
    intro e he e' he'
    obtain ⟨m, -, rfl⟩ := mem_map.mp he
    obtain ⟨i, r, _, -⟩ := (h.mem_iff e').mp he'
    omega

theorem flatten_numbers (h : flatten expandGeosite expandGeoip start catchAll rules = .ok (flat, catchAll')) :
    Numbers expandGeosite expandGeoip start rules flat := by
  induction rules generalizing start catchAll flat with
  | nil =>
    cases h
    exact ⟨by simp, List.Pairwise.nil⟩
  | cons rule rules ih =>
    simp only [flatten] at h
    split at h
    · cases h
    rename_i entries he
    split at h <;> cases h
    rename_i rest catchAll'' hrest
    rw [ruleEntries_eq he]
    exact (ih hrest).cons

end

/-! ## What the indexes hold -/

def keywordEntry : Entry Regex → Option (Nat × Str × Str)
  | (order, .domainKeyword keyword, outbound) => some (order, keyword.toAsciiLowercase, outbound)
  | _ => none

def regexEntry : Entry Regex → Option (Nat × Str × Regex)
  | (order, .domainRegex regex, outbound) => some (order, outbound, regex)
  | _ => none

def protocolEntry : Entry Regex → Option (Nat × Str × SniffedProtocol)
  | (order, .protocol protocol, outbound) => some (order, outbound, protocol)
  | _ => none

/-- The indexes hold exactly the matchers filed so far. -/
structure Indexed (filed : List (Entry Regex)) (inner : CompiledRulesInner Regex) : Prop where
  suffix : ∀ path e, e ∈ Trie.get path inner.suffixTrie ↔
    ∃ d, (e.1, .domainSuffix d, e.2) ∈ filed ∧ path = d.chars.reverse
  full : ∀ key, IsLeast (fun c => ∃ d, (c.1, .domainFull d, c.2) ∈ filed
    ∧ d.toAsciiLowercase = key) (inner.full.get key)
  keywords : inner.keywords = filed.filterMap keywordEntry
  regexes : inner.regexes = filed.filterMap regexEntry
  ipv4 : ∀ path e, e ∈ Trie.get path inner.ipv4 ↔
    ∃ ip netmask, (e.1, .location ⟨⟨.ipv4 ip, netmask⟩, e.2.2⟩, e.2.1) ∈ filed
      ∧ path = leadingBits (ipv4Key ip) (prefixLen ⟨.ipv4 ip, netmask⟩)
  ipv6 : ∀ path e, e ∈ Trie.get path inner.ipv6 ↔
    ∃ ip netmask, (e.1, .location ⟨⟨.ipv6 ip, netmask⟩, e.2.2⟩, e.2.1) ∈ filed
      ∧ path = leadingBits (u128From ip) (prefixLen ⟨.ipv6 ip, netmask⟩)
  protocols : inner.protocols = filed.filterMap protocolEntry

theorem indexed_empty (catchAll) : Indexed [] (emptyInner catchAll : CompiledRulesInner Regex) where
  suffix := by simp [emptyInner]
  full := by
    intro key
    exact isLeast_none (by simp)
  keywords := rfl
  regexes := rfl
  ipv4 := by simp [emptyInner]
  ipv6 := by simp [emptyInner]
  protocols := rfl

/-! ### One matcher

What filing a matcher does to each of the indexes: it adds to its own and leaves the others
as they are. -/

section
variable {inner inner' : CompiledRulesInner Regex} {e : Entry Regex}

section
variable (h : addMatcher inner e = .ok inner')
include h

theorem addMatcher_suffix (path w) :
    w ∈ Trie.get path inner'.suffixTrie ↔ w ∈ Trie.get path inner.suffixTrie
      ∨ ∃ d, (w.1, .domainSuffix d, w.2) = e ∧ path = d.chars.reverse := by
  obtain ⟨_, matcher, _⟩ := e
  cases matcher with
  | domainSuffix d =>
    cases h
    rw [SuffixTrie.insert, Trie.mem_get_insert]
    apply or_congr_right
    simp only [Prod.ext_iff, ConnectMatcher.domainSuffix.injEq]
    constructor
    · rintro ⟨hp, ho, hout⟩
      exact ⟨d, ⟨ho, rfl, hout⟩, hp⟩
    rintro ⟨_, ⟨ho, rfl, hout⟩, hp⟩
    exact ⟨hp, ho, hout⟩
  | location => simp only [addMatcher] at h; split at h <;> cases h <;> simp
  | _ => cases h; simp

theorem addMatcher_full (hleast : IsLeast P (inner.full.get key)) (hasc : ∀ c, P c → c.1 ≤ e.1) :
    IsLeast (fun c => P c ∨ ∃ d, (c.1, .domainFull d, c.2) = e ∧ d.toAsciiLowercase = key)
      (inner'.full.get key) := by
  obtain ⟨order, matcher, outbound⟩ := e
  cases matcher with
  | domainFull d =>
    cases h
    by_cases hkey : key = d.toAsciiLowercase
    · subst hkey
      -- the rule that is there has a smaller order, so keeping it is what `offer` does
      have hkeep : (inner.full.get d.toAsciiLowercase).or (some (order, outbound))
          = offer (inner.full.get d.toAsciiLowercase) (order, outbound) := by
        rcases hb : inner.full.get d.toAsciiLowercase with _ | b
        · rfl
        rw [hb] at hleast
        exact (if_neg (not_lt.mpr (hasc b hleast.1))).symm
      rw [Assoc.Map.get_orInsert_self, hkeep]
      exact (hleast.offer (order, outbound)).congr fun c => by simp [Prod.ext_iff]
    rw [Assoc.Map.get_orInsert_ne _ hkey]
    refine hleast.congr fun c => ?_
    simp only [Prod.ext_iff, ConnectMatcher.domainFull.injEq, or_iff_left_iff_imp]
    rintro ⟨_, ⟨-, rfl, -⟩, hk⟩
    exact absurd hk.symm hkey
  | location =>
    simp only [addMatcher] at h
    split at h <;> cases h <;> exact hleast.congr fun c => by simp
  | _ => cases h; exact hleast.congr fun c => by simp

theorem addMatcher_lists : inner'.keywords = inner.keywords ++ [e].filterMap keywordEntry ∧
    inner'.regexes = inner.regexes ++ [e].filterMap regexEntry ∧
    inner'.protocols = inner.protocols ++ [e].filterMap protocolEntry := by
  obtain ⟨_, matcher, _⟩ := e
  cases matcher with
  | location =>
    simp only [addMatcher] at h
    split at h <;> cases h <;> simp [keywordEntry, regexEntry, protocolEntry]
  | _ => cases h; simp [keywordEntry, regexEntry, protocolEntry]

theorem addMatcher_ipv4 (path w) : w ∈ Trie.get path inner'.ipv4 ↔ w ∈ Trie.get path inner.ipv4
      ∨ ∃ ip netmask, (w.1, .location ⟨⟨.ipv4 ip, netmask⟩, w.2.2⟩, w.2.1) = e
        ∧ path = leadingBits (ipv4Key ip) (prefixLen ⟨.ipv4 ip, netmask⟩) := by
  obtain ⟨_, matcher, _⟩ := e
  cases matcher with
  | location mask =>
    obtain ⟨⟨address, netmask⟩, _⟩ := mask
    cases address with
    | ipv4 ip =>
      cases h
      rw [IpRadix.insert, Trie.mem_get_insert]
      apply or_congr_right
      constructor
      · rintro ⟨hp, rfl⟩
        exact ⟨ip, netmask, rfl, hp⟩
      rintro ⟨_, _, hw, hp⟩
      cases hw
      exact ⟨hp, rfl⟩
    | ipv6 => cases h; simp
    | hostname => cases h
  | _ => cases h; simp

theorem addMatcher_ipv6 (path w) : w ∈ Trie.get path inner'.ipv6 ↔ w ∈ Trie.get path inner.ipv6
      ∨ ∃ ip netmask, (w.1, .location ⟨⟨.ipv6 ip, netmask⟩, w.2.2⟩, w.2.1) = e
        ∧ path = leadingBits (u128From ip) (prefixLen ⟨.ipv6 ip, netmask⟩) := by
  obtain ⟨_, matcher, _⟩ := e
  cases matcher with
  | location mask =>
    obtain ⟨⟨address, netmask⟩, _⟩ := mask
    cases address with
    | ipv4 => cases h; simp
    | ipv6 ip =>
      cases h
      rw [IpRadix.insert, Trie.mem_get_insert]
      apply or_congr_right
      constructor
      · rintro ⟨hp, rfl⟩
        exact ⟨ip, netmask, rfl, hp⟩
      rintro ⟨_, _, hw, hp⟩
      cases hw
      exact ⟨hp, rfl⟩
    | hostname => cases h
  | _ => cases h; simp

end

end

theorem Indexed.add {filed inner inner'}
    {e : Entry Regex} (h : Indexed filed inner) (hasc : ∀ e' ∈ filed, e'.1 ≤ e.1)
    (hadd : addMatcher inner e = .ok inner') : Indexed (filed ++ [e]) inner' where
  suffix := by
    intro path w
    rw [addMatcher_suffix hadd, h.suffix]
    simp only [mem_append, mem_singleton, or_and_right, exists_or]
  full := by
    intro key
    refine (addMatcher_full hadd (h.full key) ?_).congr ?_
    · rintro c ⟨d, hd, -⟩
      exact hasc _ hd
    intro c
    simp only [mem_append, mem_singleton, or_and_right, exists_or]
  keywords := by rw [(addMatcher_lists hadd).1, h.keywords, filterMap_append]
  regexes := by rw [(addMatcher_lists hadd).2.1, h.regexes, filterMap_append]
  ipv4 := by
    intro path w
    rw [addMatcher_ipv4 hadd, h.ipv4]
    simp only [mem_append, mem_singleton, or_and_right, exists_or]
  ipv6 := by
    intro path w
    rw [addMatcher_ipv6 hadd, h.ipv6]
    simp only [mem_append, mem_singleton, or_and_right, exists_or]
  protocols := by rw [(addMatcher_lists hadd).2.2, h.protocols, filterMap_append]

theorem Indexed.addAll {filed flat : List (Entry Regex)} {inner inner' : CompiledRulesInner Regex}
    (h : Indexed filed inner) (hasc : (filed ++ flat).Pairwise fun e e' => e.1 ≤ e'.1)
    (hadd : addMatchers inner flat = .ok inner') : Indexed (filed ++ flat) inner' := by
  induction flat generalizing filed inner with
  | nil =>
    cases hadd
    rwa [append_nil]
  | cons e flat ih =>
    simp only [addMatchers] at hadd
    split at hadd
    · cases hadd
    rename_i inner₁ he
    have hassoc : filed ++ e :: flat = (filed ++ [e]) ++ flat := by simp
    have hle : ∀ e' ∈ filed, e'.1 ≤ e.1 := by
      intro e' he'
      exact (pairwise_append.mp hasc).2.2 e' he' e mem_cons_self
    rw [hassoc] at hasc ⊢
    exact ih (h.add hle he) hasc hadd

/-- **What `compile` builds.** The matchers of the rules are numbered by position, and the
indexes hold exactly them; without any matcher there may be no indexes at all. -/
theorem compile_indexed {compiled : CompiledRules Regex}
    (h : compile expandGeosite expandGeoip rules = .ok compiled) :
    ∃ flat, Numbers expandGeosite expandGeoip 0 rules flat
      ∧ (flat = [] ∧ compiled.inner = none
        ∨ ∃ inner, compiled.inner = some inner ∧ Indexed flat inner) := by
  unfold compile at h
  split at h
  · cases h
  rename_i flat catchAll hf
  have hnum := flatten_numbers hf
  refine ⟨flat, hnum, ?_⟩
  split at h
  next hempty =>
    cases h
    exact .inl ⟨isEmpty_iff.mp hempty.1, rfl⟩
  split at h <;> cases h
  rename_i inner hadd
  exact .inr ⟨inner, rfl, (indexed_empty catchAll).addAll hnum.ascending hadd⟩

/-- **A search of the indexes is a scan of the rules**, when what it finds has the least order of all
filed matchers that pass the test of the scan. -/
theorem compile_firstMatch
    {expandGeosite expandGeoip : Str → Except IoError (List (ParsedRule Regex))}
    {rules : List (ParsedRule Regex)} {compiled : CompiledRules Regex}
    {accepts : ConnectMatcher Regex → Bool} {search : CompiledRulesInner Regex → Option (Nat × Str)}
    (h : compile expandGeosite expandGeoip rules = .ok compiled)
    (hs : ∀ flat inner, Numbers expandGeosite expandGeoip 0 rules flat → Indexed flat inner →
      IsLeast (fun c => ∃ m, (c.1, m, c.2) ∈ flat ∧ accepts m = true) (search inner)) :
    (compiled.inner.bind fun inner => (search inner).map Prod.snd)
      = firstMatch (fun rule => (matchersOf expandGeosite expandGeoip rule).any accepts)
        ParsedRule.outbound rules := by
  obtain ⟨flat, hnum, hinner⟩ := compile_indexed h
  have hmap : (compiled.inner.bind fun inner => (search inner).map Prod.snd)
      = (compiled.inner.bind search).map Prod.snd := by
    cases compiled.inner <;> rfl
  rw [hmap]
  refine @IsLeast.eq_find _ _ (fun c => ∃ m, (c.1, m, c.2) ∈ flat ∧ accepts m = true) _ ?_ _ _ _
    fun c => ⟨?_, ?_⟩
  · rcases hinner with ⟨rfl, hnone⟩ | ⟨inner, hsome, hix⟩
    · rw [hnone]
      exact isLeast_none (by simp)
    · rw [hsome]
      exact hs flat inner hnum hix
  · rintro ⟨m, hm, hacc⟩
    obtain ⟨i, rule, hi, hr, hmem, hout⟩ := (hnum.mem_iff _).mp hm
    rw [zero_add] at hi
    exact ⟨rule, hi ▸ hr, any_eq_true.mpr ⟨m, hmem, hacc⟩, hout⟩
  rintro ⟨rule, hr, hany, hout⟩
  obtain ⟨m, hmem, hacc⟩ := any_eq_true.mp hany
  exact ⟨m, (hnum.mem_iff _).mpr ⟨c.1, rule, by simp, hr, hmem, hout⟩, hacc⟩

/-! ## What a query meets -/

/-- A search of the suffix trie offers the entries of the nodes below the root that it
reaches at the start of a label. -/
theorem SuffixTrie.queryFrom_eq (bs t best) :
    SuffixTrie.queryFrom bs t best = offerHits (fun _ => true) id best
      ((Trie.descended (bs.map UInt8.toNat) t).flatMap fun n =>
        if n.2.head?.all (· == 46) then n.1 else []) := by
  induction bs generalizing t best with
  | nil => rfl
  | cons b before ih =>
    have hanchor : (before.map UInt8.toNat).head?.all (· == 46) = anchored before := by
      cases before with
      | nil => rfl
      | cons => simp [anchored, ← UInt8.toNat_inj]
    rw [SuffixTrie.queryFrom, map_cons]
    rcases hc : t.child b.toNat with _ | _
    · simp [Trie.descended_none hc, offerHits]
    simp only [Trie.descended_some hc, Trie.visited, flatMap_cons, hanchor]
    rw [offerHits_append, ih]
    split <;> rfl

theorem SuffixTrie.query_isLeast (t) (host : Str) :
    IsLeast (fun c => ∃ qs rest, qs ≠ [] ∧ qs ++ rest = host.bytes.reverse.map UInt8.toNat
      ∧ rest.head?.all (· == 46) = true ∧ c ∈ Trie.get qs t) (SuffixTrie.query t host none) := by
  rw [SuffixTrie.query, SuffixTrie.queryFrom_eq]
  have hnone : IsLeast (fun _ : Nat × Str => False) none := isLeast_none fun _ h => h
  refine (hnone.offerHits (fun _ => true) id _).congr fun c => ?_
  simp only [false_or, true_and, id, exists_eq_right', mem_flatMap]
  constructor
  · rintro ⟨qs, rest, hne, hq, hr, hc⟩
    obtain ⟨es, hv, hw⟩ := Trie.mem_descended_iff.mpr ⟨qs, hne, hq, hc⟩
    exact ⟨(es, rest), hv, by simpa [hr] using hw⟩
  rintro ⟨⟨es, rest⟩, hv, hc⟩
  split at hc
  next hr =>
    obtain ⟨qs, hne, hq, hw⟩ := Trie.mem_descended_iff.mp ⟨es, hv, hc⟩
    exact ⟨qs, rest, hne, hq, hr, hw⟩
  · cases hc

theorem IpRadix.queryFrom_eq (port bits t best) : IpRadix.queryFrom port bits t best
      = offerPorts port best ((Trie.visited bits t).flatMap Prod.fst) := by
  induction bits generalizing t best with
  | nil => simp [IpRadix.queryFrom, Trie.visited, Trie.descended]
  | cons bit bits ih =>
    rw [IpRadix.queryFrom, Trie.visited, flatMap_cons]
    rcases hc : t.child bit with _ | _
    · simp [Trie.descended_none hc]
    dsimp only
    rw [Trie.descended_some hc, ih, offerPorts, offerPorts, offerPorts, offerHits_append]

theorem IpRadix.query_isLeast (t ipBits port) :
    IsLeast (fun c => ∃ p qs, qs <+: leadingBits ipBits 128 ∧ (c.1, c.2, p) ∈ Trie.get qs t
      ∧ (p = 0 ∨ p = port)) (IpRadix.query t ipBits port none) := by
  rw [IpRadix.query, IpRadix.queryFrom_eq]
  have hnone : IsLeast (fun _ : Nat × Str => False) none := isLeast_none fun _ h => h
  refine (hnone.offerHits _ _ _).congr fun c => ?_
  simp only [false_or, mem_flatMap]
  constructor
  · rintro ⟨p, qs, ⟨rest, hq⟩, hc, hp⟩
    obtain ⟨es, hv, hw⟩ := Trie.mem_visited_iff.mpr ⟨qs, hq, hc⟩
    exact ⟨(c.1, c.2, p), ⟨(es, rest), hv, hw⟩, by simpa using hp, rfl⟩
  rintro ⟨e, ⟨⟨es, rest⟩, hv, hw⟩, hp, rfl⟩
  obtain ⟨qs, hq, hw⟩ := Trie.mem_visited_iff.mp ⟨es, hv, hw⟩
  exact ⟨e.2.2, qs, ⟨rest, hq⟩, hw, by simpa using hp⟩

end Shoes.Outbound.Index
