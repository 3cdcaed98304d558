import Shoes.Net.Masks

/-! # Route matchers

The matching half of `client_proxy_selector`: the first rule of a list with a matcher that accepts.
A destination is looked up at most once, and only when a mask needs its address; what was found is
carried along in `Target`. -/
namespace Shoes.Routing.Matchers
open Lib.Io Lib.Utf8 Lib.IpText Lib.Ipv6Text
open Net.Location Net.Masks

/-! ## Destinations -/

inductive IpAddr
  | v4 (ip : Ipv4Addr)
  | v6 (ip : Ipv6Addr)
  deriving DecidableEq

def IpAddr.address : IpAddr → Address
  | .v4 ip => .ipv4 ip
  | .v6 ip => .ipv6 ip

/-- `SocketAddr::ip`. -/
def ipOf : SocketAddr → IpAddr
  | .v4 ip _ => .v4 ip
  | .v6 ip _ => .v6 ip

def hostname : Address → Option Str
  | .hostname name => some name
  | _ => none

structure ResolvedLocation where
  location : NetLocation
  resolvedAddr : Option SocketAddr
  deriving DecidableEq

/-- `Resolver::resolve_location`, the same answer whenever it is asked the same. -/
abbrev Resolver := NetLocation → Except IoError (List SocketAddr)

def showLocation (l : NetLocation) : String :=
  l.address.text.show ++ ":" ++ toString l.port.toNat

def resolveSingleAddress (resolver : Resolver) (l : NetLocation) : Except IoError SocketAddr :=
  match l.toSocketAddrNonblocking with
  | some addr => .ok addr
  | none =>
    match resolver l with
    | .error e => .error e
    | .ok [] => .error (IoError.other s!"could not resolve location: {showLocation l}")
    | .ok (addr :: _) => .ok addr

/-- `resolve_location`: the address found is kept in the location. -/
def resolveLocation (resolver : Resolver) (l : ResolvedLocation) :
    Except IoError (SocketAddr × ResolvedLocation) :=
  match l.resolvedAddr with
  | some addr => .ok (addr, l)
  | none =>
    match resolveSingleAddress resolver l.location with
    | .error e => .error e
    | .ok addr => .ok (addr, { l with resolvedAddr := some addr })

/-! ## Matchers and rules -/

inductive SniffedProtocol
  | http
  | tls
  | quic
  | bittorrent
  | ssh
  deriving DecidableEq, Repr

inductive ConnectMatcher (Regex : Type)
  | location (mask : NetLocationMask)
  | domainKeyword (keyword : Str)
  | domainFull (domain : Str)
  | domainSuffix (domain : Str)
  | domainRegex (regex : Regex)
  | protocol (protocol : SniffedProtocol)

def ConnectMatcher.requiresProtocolSniff {Regex : Type} : ConnectMatcher Regex → Bool
  | .protocol _ => true
  | _ => false

/-! ## Matching -/

/-- `ip_to_u128`: an IPv4 address in its mapped form. -/
def ipToU128 : IpAddr → BitVec 128
  | .v4 ip => u128From (toIpv6Mapped ip)
  | .v6 ip => u128From ip

/-- `matches_domain`: the same name, or a longer one with a full stop (46) before the
domain. -/
def matchesDomain (baseDomain host : List UInt8) : Bool :=
  baseDomain.isSuffixOf host
    && (host.length == baseDomain.length
      || host.getD (host.length - baseDomain.length - 1) 0 == 46)

/-- `str::contains`. -/
def containsBytes (pattern : List UInt8) : List UInt8 → Bool
  | [] => pattern.isEmpty
  | b :: bs => pattern.isPrefixOf (b :: bs) || containsBytes pattern bs

/-- What is matched, with `resolved_ip`, the address it was looked up to. -/
structure Target where
  location : ResolvedLocation
  resolvedIp : Option (BitVec 128)
  deriving DecidableEq

def Target.hostname (t : Target) : Option Str := Matchers.hostname t.location.location.address

inductive MatchMaskError
  | nonFatal (e : IoError)
  | fatal (e : IoError)
  deriving DecidableEq

/-- The address of the destination, looked up if it is not known yet. -/
def destinationIp (resolver : Resolver) (t : Target) : Except IoError (BitVec 128 × Target) :=
  match t.resolvedIp with
  | some ip => .ok (ip, t)
  | none =>
    match resolveLocation resolver t.location with
    | .error e => .error e
    | .ok (addr, location) =>
      .ok (ipToU128 (ipOf addr), ⟨location, some (ipToU128 (ipOf addr))⟩)

/-- The address of the rule against that of the destination, both under the netmask. -/
def matchAddress (resolver : Resolver) (mask : NetLocationMask) (ip : BitVec 128) :
    Except MatchMaskError Bool :=
  let netmask := mask.addressMask.netmask
  match mask.addressMask.address with
  | .ipv4 addr => .ok (u128From (toIpv6Mapped addr) &&& netmask == ip &&& netmask)
  | .ipv6 addr => .ok (u128From addr &&& netmask == ip &&& netmask)
  | .hostname name =>
    match resolver ⟨.hostname name, mask.port⟩ with
    | .error e => .error (.nonFatal e)
    | .ok addrs => .ok (addrs.any fun addr => ipToU128 (ipOf addr) &&& netmask == ip &&& netmask)

/-- The rest of `match_mask`, where the address of the destination is needed. -/
def matchResolved (resolver : Resolver) (mask : NetLocationMask) (t : Target) :
    Except MatchMaskError Bool × Target :=
  match destinationIp resolver t with
  | .error e => (.error (.fatal e), t)
  | .ok (ip, t) => (matchAddress resolver mask ip, t)

def matchMask (resolver : Resolver) (resolveRuleHostnames : Bool) (mask : NetLocationMask)
    (t : Target) : Except MatchMaskError Bool × Target :=
  if mask.port > 0 ∧ mask.port ≠ t.location.location.port then (.ok false, t)
  else if mask.addressMask.netmask = 0 then (.ok true, t)
  else
    match hostname mask.addressMask.address, t.hostname with
    | some base, some remote => (.ok (matchesDomain base.bytes remote.bytes), t)
    | some _, none =>
      if resolveRuleHostnames then matchResolved resolver mask t else (.ok false, t)
    | none, _ => matchResolved resolver mask t

variable {Regex : Type} (isMatch : Regex → Str → Bool)

/-- The arms of `match_matcher` that look at a hostname. -/
def matchHostname (matcher : ConnectMatcher Regex) (host : Str) : Bool :=
  match matcher with
  | .domainKeyword keyword =>
    !keyword.bytes.isEmpty && containsBytes keyword.bytes host.toAsciiLowercase.bytes
  | .domainFull domain =>
    !domain.bytes.isEmpty && host.toAsciiLowercase == domain.toAsciiLowercase
  | .domainSuffix domain =>
    !domain.bytes.isEmpty && matchesDomain domain.bytes host.toAsciiLowercase.bytes
  | .domainRegex regex => isMatch regex host
  | _ => false

def matchMatcher (resolver : Resolver) (resolveRuleHostnames : Bool)
    (sniffed : Option SniffedProtocol) (matcher : ConnectMatcher Regex) (t : Target) :
    Except MatchMaskError Bool × Target :=
  match matcher with
  | .location mask => matchMask resolver resolveRuleHostnames mask t
  | .protocol protocol => (.ok (sniffed == some protocol), t)
  | matcher => (.ok (t.hostname.any (matchHostname isMatch matcher)), t)

end Shoes.Routing.Matchers
