import Shoes.Lib.Io
import Shoes.Lib.Ipv6Text
import Shoes.Lib.Utf8

/-! # Panel users and runtime users

A row of the panel's list becomes a runtime user if it is active at the time: enabled and not
expired. A dedicated egress address is bound for its own term. Texts are their UTF-8 bytes. -/
namespace Shoes.V2board.RuntimeModel
open Lib.Io Lib.Utf8 Lib.IpText Lib.Ipv6Text

/-! ## Dedicated egress -/

inductive IpAddr
  | v4 (addr : Ipv4Addr)
  | v6 (addr : Ipv6Addr)
  deriving DecidableEq

/-- `str::parse::<IpAddr>`. -/
def IpAddr.parse (text : List UInt8) : Option IpAddr :=
  match parseIpv4 text with
  | some addr => some (.v4 addr)
  | none => (parseIpv6 text).map .v6

inductive UpstreamProtocol
  | socks5
  | http
  deriving DecidableEq

structure UpstreamProxy where
  protocol : UpstreamProtocol
  addr : IpAddr
  port : UInt16
  username : Option (List UInt8)
  password : Option (List UInt8)
  deriving DecidableEq

inductive DedicatedEgress
  | source (addr : IpAddr)
  | upstream (proxy : UpstreamProxy)
  deriving DecidableEq

inductive EgressRejection
  | unparseableAddress
  | expired
  | ingressEgressUnimplemented
  | unknownMode (mode : List UInt8)
  | unsupportedUpstreamProtocol (protocol : List UInt8)
  | unusableUpstreamPort
  | halfFilledCredential
  deriving DecidableEq

/-- The panel's `dedicated_ip` object. -/
structure DedicatedIp where
  ip : Option (List UInt8)
  mode : Option (List UInt8)
  protocol : Option (List UInt8)
  port : Option UInt16
  username : Option (List UInt8)
  password : Option (List UInt8)
  expiresAt : Option Int
  deriving DecidableEq

def asciiText (s : String) : List UInt8 := s.toList.map fun c => UInt8.ofNat c.toNat

def nonEmpty (value : Option (List UInt8)) : Option (List UInt8) :=
  (value.map trim).filter fun v => !v.isEmpty

def upstreamFromWire (wire : DedicatedIp) (addr : IpAddr) :
    Except EgressRejection DedicatedEgress := do
  let text := (wire.protocol.map trim).getD []
  let protocol ←
    if text = asciiText "socks5" ∨ text = asciiText "socks" then pure UpstreamProtocol.socks5
    else if text = asciiText "http" then pure UpstreamProtocol.http
    else throw (.unsupportedUpstreamProtocol text)
  let port ←
    match wire.port with
    | some port => if port > 0 then pure port else throw .unusableUpstreamPort
    | none => throw .unusableUpstreamPort
  let username := nonEmpty wire.username
  let password := nonEmpty wire.password
  if username.isSome ≠ password.isSome then throw .halfFilledCredential
  return .upstream ⟨protocol, addr, port, username, password⟩

/-- A term in unix seconds is over; zero and below is no term. -/
def lapsed (expiresAt : Option Int) (now : Int) : Bool :=
  match expiresAt with
  | some expiresAt => decide (expiresAt > 0) && decide (expiresAt ≤ now)
  | none => false

def bindingFromWire (wire : DedicatedIp) (now : Int) : Except EgressRejection DedicatedEgress :=
  if lapsed wire.expiresAt now then .error .expired
  else
    match IpAddr.parse (trim (wire.ip.getD [])) with
    | none => .error .unparseableAddress
    | some addr =>
      let mode := (wire.mode.map trim).getD []
      if mode = [] ∨ mode = asciiText "egress" then .ok (.source addr)
      else if mode = asciiText "proxy" then upstreamFromWire wire addr
      else if mode = asciiText "ingress_egress" then .error .ingressEgressUnimplemented
      else .error (.unknownMode mode)

/-! ## Activity -/

/-- A row of the panel's user list. -/
structure UserInfo where
  id : Nat
  uuid : Option (List UInt8)
  secret : Option (List UInt8)
  password : Option (List UInt8)
  username : Option (List UInt8)
  speedLimit : Option Nat
  deviceLimit : Option Nat
  label : Option (List UInt8)
  enabled : Option Bool
  expiresAt : Option Int
  expiresOn : Option (List UInt8)
  dedicatedIp : Option DedicatedIp
  deriving DecidableEq

namespace UserInfo

def credential (user : UserInfo) : Option (List UInt8) :=
  user.uuid <|> user.password <|> user.username

def key (user : UserInfo) : List UInt8 :=
  (user.uuid <|> user.username <|> user.label).getD (asciiText "user-" ++ numText 10 user.id)

end UserInfo

/-- The date parsers: an instant is in nanoseconds of UTC, a date is the number of its day. -/
structure Chrono where
  naiveDateTime : (value : List UInt8) → (format : String) → Option Int
  rfc3339 : (value : List UInt8) → Option Int
  naiveDate : (value : List UInt8) → (format : String) → Option Int
  succOpt : (day : Int) → Option Int

def nanosPerSecond : Int := 1000000000

def timestamp (now : Int) : Int := now / nanosPerSecond

/-- The start of a day. -/
def midnight (day : Int) : Int := day * 86400 * nanosPerSecond

/-- The instant from which a row with this text is expired. -/
def expiresOnInstant (chrono : Chrono) (value : List UInt8) : Option Int :=
  match chrono.naiveDateTime value "%Y-%m-%d %H:%M:%S" with
  | some expiresAt => some expiresAt
  | none =>
    match chrono.naiveDateTime value "%Y-%m-%dT%H:%M:%S" with
    | some expiresAt => some expiresAt
    | none =>
      match chrono.rfc3339 value with
      | some expiresAt => some expiresAt
      | none => ((chrono.naiveDate value "%Y-%m-%d").bind chrono.succOpt).map midnight

def expiresOnExpired (chrono : Chrono) (value : Option (List UInt8)) (now : Int) : Bool :=
  match nonEmpty value with
  | none => false
  | some value =>
    match expiresOnInstant chrono value with
    | none => false
    | some expiresAt => decide (expiresAt ≤ now)

def panelUserActive (chrono : Chrono) (user : UserInfo) (now : Int) : Bool :=
  if user.enabled = some false then false
  else if lapsed user.expiresAt (timestamp now) then false
  else if expiresOnExpired chrono user.expiresOn now then false
  else true

/-! ## Runtime users -/

structure RuntimeUser where
  uid : Nat
  credential : List UInt8
  secret : Option (List UInt8)
  userKey : List UInt8
  speedLimitMbps : Option Nat
  deviceLimit : Option Nat
  dedicatedIp : Option DedicatedEgress
  deriving DecidableEq

/-- The binding of a row at a time, if it has one that is honoured. -/
def dedicatedBinding (user : UserInfo) (now : Int) : Option DedicatedEgress :=
  user.dedicatedIp.bind fun wire => (bindingFromWire wire (timestamp now)).toOption

def runtimeUser (nodeTag : String) (user : UserInfo) (now : Int) : Except IoError RuntimeUser :=
  match user.credential with
  | none =>
    let id := user.id
    .error ⟨.invalidInput, s!"node `{nodeTag}` user {id} has no uuid/password/username credential"⟩
  | some credential =>
    .ok ⟨user.id, credential, user.secret, user.key, user.speedLimit, user.deviceLimit,
      dedicatedBinding user now⟩

/-- Visit the active users in order, up to the first error. -/
def forEachRuntimeUser {σ : Type} (chrono : Chrono) (nodeTag : String) (now : Int)
    (visit : σ → RuntimeUser → Except IoError σ) (s : σ) (users : List UserInfo) :
    Except IoError σ :=
  (users.filter fun user => panelUserActive chrono user now).foldlM
    (fun s user => do visit s (← runtimeUser nodeTag user now)) s

end Shoes.V2board.RuntimeModel
