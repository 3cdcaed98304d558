import Shoes.Outbound.Index

/-! # Dialing through the dispatcher

`dial_tcp` looks the hostname up first, if the rules look at addresses, and then chooses the
outbound, which looks it up again if the first time brought nothing. Another dial may replace the
rules in between. `World` is what one call finds: both readings of the rules, and the resolver's
answers. -/
namespace Shoes.Outbound.Dispatcher
open Lib Lib.Io Lib.Utf8 Net.Location Net.Masks Option
open Routing.Matchers Index

variable {Regex Group : Type}

inductive DialError
  | missingOutbound (tag : Str)
  | io (e : IoError)

/-- What does not change in an `OutboundDispatcher`. -/
structure OutboundDispatcher (Group : Type) where
  chains : Assoc.Map Str Group
  defaultOut : Option Str
  direct : Group

/-- What one call of `dial_tcp` finds. -/
structure World (Regex : Type) where
  rulesAtResolve : Option (CompiledRules Regex)
  frontAnswer : Except IoError (List SocketAddr)
  rulesAtSelect : Option (CompiledRules Regex)
  lazyAnswer : Except IoError (List SocketAddr)

def resolveAddresses (l : NetLocation) (answer : Except IoError (List SocketAddr)) :
    Except IoError (List SocketAddr) :=
  match l.toSocketAddrNonblocking with
  | some addr => .ok [addr]
  | none =>
    match answer with
    | .error e => .error e
    | .ok addrs =>
      if addrs.isEmpty then .error (IoError.other s!"could not resolve location: {showLocation l}")
      else .ok addrs

/-! ## `select_outbound` -/

/-- What decided, with the tag it names and, for an address rule, the address it matched. -/
inductive Choice
  | protocol (tag : Str)
  | domain (tag : Str)
  | ip (ip : IpAddr) (tag : Str)
  | fallback (tag : Str)
  | direct
  deriving DecidableEq

/-- The result of `select_outbound`. -/
def Choice.outbound : Choice → Option Str
  | .protocol tag => some tag
  | .domain tag => some tag
  | .ip _ tag => some tag
  | .fallback tag => some tag
  | .direct => none

def matchIpAt (rules : CompiledRules Regex) (port : UInt16) (ip : IpAddr) : Option Choice :=
  (rules.matchIp ip port).map (Choice.ip ip)

/-- The address rules: a literal is matched as it is, a hostname by the address it was
resolved to before, else by the first of its addresses that matches. -/
def selectByIp (rules : CompiledRules Regex) (target : ResolvedLocation)
    (answer : Except IoError (List SocketAddr)) : Except IoError (Option Choice) :=
  let port := target.location.port
  match target.location.address with
  | .ipv4 ip => .ok (matchIpAt rules port (.v4 ip))
  | .ipv6 ip => .ok (matchIpAt rules port (.v6 ip))
  | .hostname _ =>
    if rules.hasIpRules then
      match target.resolvedAddr with
      | some addr => .ok (matchIpAt rules port (ipOf addr))
      | none =>
        match resolveAddresses target.location answer with
        | .error e => .error e
        | .ok addrs => .ok (addrs.findSome? fun addr => matchIpAt rules port (ipOf addr))
    else .ok none

/-- The protocol rules and then the domain rules. -/
def selectByName (isMatch : Regex → Str → Bool) (rules : CompiledRules Regex)
    (target : ResolvedLocation) (sniffed : Option SniffedProtocol) : Option Choice :=
  ((sniffed.bind rules.matchProtocol).map Choice.protocol).or
    (((hostname target.location.address).bind (rules.matchDomain isMatch)).map Choice.domain)

/-- The catch-all, then `default_out`, then direct. -/
def selectFallback (d : OutboundDispatcher Group) (rules : CompiledRules Regex) : Choice :=
  match rules.matchCatchAll.or d.defaultOut with
  | some tag => .fallback tag
  | none => .direct

def selectOutbound (isMatch : Regex → Str → Bool) (d : OutboundDispatcher Group)
    (rules : Option (CompiledRules Regex)) (target : ResolvedLocation)
    (sniffed : Option SniffedProtocol) (answer : Except IoError (List SocketAddr)) :
    Except IoError Choice :=
  match rules with
  | none => .ok .direct
  | some rules =>
    if rules.isEmpty then .ok .direct
    else
      match selectByName isMatch rules target sniffed with
      | some choice => .ok choice
      | none =>
        match selectByIp rules target answer with
        | .error e => .error e
        | .ok (some choice) => .ok choice
        | .ok none => .ok (selectFallback d rules)

/-! ## `dial_tcp` -/

/-- The address that the first half of `dial_tcp` finds, if it looks for one. -/
def frontAddr (w : World Regex) (target : NetLocation) : Option SocketAddr :=
  match w.rulesAtResolve with
  | none => none
  | some rules =>
    if rules.hasIpRules ∧ (hostname target.address).isSome then
      match resolveAddresses target w.frontAnswer with
      | .ok (addr :: _) => some addr
      | _ => none
    else none

/-- `dial_tcp`: what decided, and the chain group and location that are dialed. -/
def dialTcp (isMatch : Regex → Str → Bool) (d : OutboundDispatcher Group) (w : World Regex)
    (target : NetLocation) (sniffed : Option SniffedProtocol) :
    Except DialError (Choice × Group × ResolvedLocation) :=
  let resolved : ResolvedLocation := ⟨target, frontAddr w target⟩
  match selectOutbound isMatch d w.rulesAtSelect resolved sniffed w.lazyAnswer with
  | .error e => .error (.io e)
  | .ok choice =>
    match choice.outbound with
    | none => .ok (choice, d.direct, resolved)
    | some tag =>
      match d.chains.get tag with
      | none => .error (.missingOutbound tag)
      | some group => .ok (choice, group, resolved)

/-! ## The address that decided -/

section
variable {isMatch : Regex → Str → Bool} {d : OutboundDispatcher Group}
  {sniffed : Option SniffedProtocol} {target : ResolvedLocation}
  {answer : Except IoError (List SocketAddr)} {ip : IpAddr} {tag : Str}

theorem selectByName_ne_ip (rules) :
    selectByName isMatch rules target sniffed ≠ some (.ip ip tag) := by
  intro h
  rcases or_eq_some_iff.mp h with h | ⟨-, h⟩
  · obtain ⟨t, -, ht⟩ := map_eq_some_iff.mp h
    cases ht
  obtain ⟨t, -, ht⟩ := map_eq_some_iff.mp h
  cases ht

theorem selectFallback_ne_ip (rules : CompiledRules Regex) :
    selectFallback d rules ≠ .ip ip tag := by
  unfold selectFallback
  intro h
  split at h <;> cases h

theorem selectOutbound_ip_iff :
    selectOutbound isMatch d rules target sniffed answer = .ok (.ip ip tag) ↔
      ∃ r, rules = some r ∧ r.isEmpty = false ∧ selectByName isMatch r target sniffed = none
        ∧ selectByIp r target answer = .ok (some (.ip ip tag)) := by
  constructor
  · intro h
    unfold selectOutbound at h
    split at h
    · cases h
    rename_i r
    split at h
    · cases h
    rename_i hempty
    split at h
    next choice hname =>
      cases h
      exact absurd hname (selectByName_ne_ip r)
    rename_i hname
    split at h
    · cases h
    next choice hip =>
      cases h
      exact ⟨r, rfl, Bool.eq_false_iff.mpr hempty, hname, hip⟩
    · exact absurd (Except.ok.inj h) (selectFallback_ne_ip r)
  · rintro ⟨r, rfl, hempty, hname, hip⟩
    simp only [selectOutbound, hempty, hname, hip]
    rfl

theorem dialTcp_ip_iff : dialTcp isMatch d w l sniffed = .ok (.ip ip tag, group, location) ↔
      selectOutbound isMatch d w.rulesAtSelect ⟨l, frontAddr w l⟩ sniffed w.lazyAnswer
          = .ok (.ip ip tag)
        ∧ d.chains.get tag = some group ∧ location = ⟨l, frontAddr w l⟩ := by
  constructor
  · intro h
    unfold dialTcp at h
    dsimp only at h
    split at h
    · cases h
    rename_i choice hsel
    split at h
    next hout =>
      cases h
      cases hout
    rename_i t hout
    split at h <;> cases h
    rename_i g hg
    cases hout
    exact ⟨hsel, hg, rfl⟩
  · rintro ⟨hsel, hg, rfl⟩
    simp only [dialTcp, hsel, Choice.outbound, hg]

section
variable (isMatch : Regex → Str → Bool) (d : OutboundDispatcher Group) (w : World Regex)

/-- The location that is dialed carries the address that an address rule decided by. -/
def CarriesDecidingIp (target : NetLocation) (sniffed : Option SniffedProtocol) : Prop :=
  ∀ ip tag group location,
    dialTcp isMatch d w target sniffed = .ok (.ip ip tag, group, location) →
    location.resolvedAddr.map ipOf = some ip

/-- The first look-up brought no address, and among those of the second is one that an address rule
decides by: the rules then in force look at addresses and have neither a protocol nor a domain rule
for the target, and the tag has a chain group. -/
def DecidedLate (target : NetLocation) (sniffed : Option SniffedProtocol) : Prop :=
  frontAddr w target = none
    ∧ ∃ rules, w.rulesAtSelect = some rules ∧ rules.isEmpty = false ∧ rules.hasIpRules = true
      ∧ selectByName isMatch rules ⟨target, none⟩ sniffed = none
      ∧ ∃ addrs ip tag, resolveAddresses target w.lazyAnswer = .ok addrs
        ∧ addrs.findSome? (fun addr => matchIpAt rules target.port (ipOf addr)) = some (.ip ip tag)
        ∧ (d.chains.get tag).isSome = true

end

/-- **The address that decides is the address that is dialed**, for a hostname, exactly
unless the first look-up brings nothing and the second decides. -/
theorem routed_address_is_dialed_iff (isMatch : Regex → Str → Bool) (d : OutboundDispatcher Group)
    (w : World Regex) (name : Str) (port : UInt16) (sniffed : Option SniffedProtocol) :
    CarriesDecidingIp isMatch d w ⟨.hostname name, port⟩ sniffed ↔
      ¬DecidedLate isMatch d w ⟨.hostname name, port⟩ sniffed := by
  constructor
  · rintro hcarries ⟨hfront, rules, hrules, hempty, hhas, hname, addrs, ip, tag, haddrs, hfind, hg⟩
    obtain ⟨group, hgroup⟩ := isSome_iff_exists.mp hg
    have hip : selectByIp rules ⟨⟨.hostname name, port⟩, none⟩ w.lazyAnswer
        = .ok (some (.ip ip tag)) := by
      simp only [selectByIp, hhas, haddrs, hfind]
      rfl
    have hdial := hcarries ip tag group ⟨⟨.hostname name, port⟩, none⟩
      (dialTcp_ip_iff.mpr ⟨by
        rw [hfront]
        exact selectOutbound_ip_iff.mpr ⟨rules, hrules, hempty, hname, hip⟩, hgroup,
        by rw [hfront]⟩)
    cases hdial
  intro hlate ip tag group location hdial
  obtain ⟨hsel, hgroup, rfl⟩ := dialTcp_ip_iff.mp hdial
  obtain ⟨rules, hrules, hempty, hname, hip⟩ := selectOutbound_ip_iff.mp hsel
  simp only [selectByIp] at hip
  split at hip
  swap
  · cases hip
  rename_i hhas
  split at hip
  · -- the address was found first, and it is the one that was matched
    rename_i addr haddr
    obtain ⟨_, -, ⟨⟩⟩ := map_eq_some_iff.mp (Except.ok.inj hip)
    rw [haddr]
    rfl
  rename_i hnone
  split at hip
  · cases hip
  rename_i addrs haddrs
  refine absurd ⟨hnone, rules, hrules, hempty, hhas, hname, addrs, ip, tag, haddrs,
    Except.ok.inj hip, ?_⟩ hlate
  rw [hgroup]
  rfl

/-- An outbound, `vpn`, and a hostname, `host`. -/
def via : Str := ⟨[118, 112, 110], by decide⟩
def host : Str := ⟨[104, 111, 115, 116], by decide⟩

/-- The first look-up times out, the second succeeds and its address decides, and the
location that is dialed carries no address. -/
theorem decided_by_address_not_dialed : ∃ compiled, compile (fun _ => .ok []) (fun _ => .ok [])
        [(⟨1, via, some (.location ⟨⟨.ipv4 ⟨10, 0, 0, 0⟩, netmaskOf 104⟩, 0⟩), none, via⟩ :
          ParsedRule Unit)] = .ok compiled
      ∧ (dialTcp (fun (_ : Unit) _ => false) (⟨Assoc.Map.empty.insert via (), none, ()⟩)
          ⟨some compiled, .error ⟨.timedOut, "timed out"⟩, some compiled,
            .ok [.v4 ⟨10, 0, 0, 1⟩ 443]⟩ ⟨.hostname host, 443⟩ none).toOption
        = some (.ip (.v4 ⟨10, 0, 0, 1⟩) via, (), ⟨⟨.hostname host, 443⟩, none⟩) :=
  ⟨_, rfl, by decide +kernel⟩

end

end Shoes.Outbound.Dispatcher
