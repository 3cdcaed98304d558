import Shoes.Lib.LruCache
import Shoes.Lib.Machine
import Shoes.Routing.Matchers

/-! # The routing cache

`ClientProxySelector` with its cache of decisions. A decision is kept under a key made from the
destination, with the hostname in lower case; matching sees the destination as it was given. The
cache changes nothing as long as no matcher tells two destinations apart that share a key. -/
namespace Shoes.Routing.Selector
open Lib Lib.Io Lib.Utf8 Lib.IpText Lib.Ipv6Text
open Lib.LruCache Lib.Machine
open Net.Location Net.Masks Matchers

/-! ## Rules and decisions -/

/-- What a rule does. Its chain group is known by the position of the rule. -/
inductive ConnectAction
  | allow (overrideAddress : Option NetLocation)
  | block
  deriving DecidableEq

structure ConnectRule (Regex : Type) where
  matchers : List (ConnectMatcher Regex)
  action : ConnectAction

/-- `ConnectDecision`: through the chain group of a rule to a location, or not at all. -/
inductive ConnectDecision
  | allow (rule : Nat) (remoteLocation : ResolvedLocation)
  | block
  deriving DecidableEq

/-- Where the rule sends a location: port 0 of an override stands for the requested port,
and the address that was looked up does not belong to an override. -/
def remoteLocation (overrideAddress : Option NetLocation) (location : ResolvedLocation) :
    ResolvedLocation :=
  match overrideAddress with
  | some l => ⟨if l.port > 0 then l else ⟨l.address, location.location.port⟩, none⟩
  | none => location

def toDecision (rule : Nat) (action : ConnectAction) (location : ResolvedLocation) :
    ConnectDecision :=
  match action with
  | .allow overrideAddress => .allow rule (remoteLocation overrideAddress location)
  | .block => .block

/-! ## Matching a rule list -/

section
variable {Regex : Type} (isMatch : Regex → Str → Bool) (resolver : Resolver)
  (resolveRuleHostnames : Bool) (sniffed : Option SniffedProtocol)

/-- The inner loop of `match_rule`; a non-fatal error is like no match. -/
def matchMatchers : List (ConnectMatcher Regex) → Target → Except IoError Bool × Target
  | [], t => (.ok false, t)
  | m :: ms, t =>
    match matchMatcher isMatch resolver resolveRuleHostnames sniffed m t with
    | (.ok true, t) => (.ok true, t)
    | (.ok false, t) => matchMatchers ms t
    | (.error (.nonFatal _), t) => matchMatchers ms t
    | (.error (.fatal e), t) =>
      (.error (IoError.other ("fatal error while matching route matcher for "
        ++ showLocation t.location.location ++ ": " ++ e.message)), t)

/-- The outer loop of `match_rule`, from the rule at a position. -/
def matchRuleFrom : Nat → List (ConnectRule Regex) → Target → Except IoError (Option Nat) × Target
  | _, [], t => (.ok none, t)
  | i, rule :: rules, t =>
    match matchMatchers isMatch resolver resolveRuleHostnames sniffed rule.matchers t with
    | (.ok true, t) => (.ok (some i), t)
    | (.ok false, t) => matchRuleFrom (i + 1) rules t
    | (.error e, t) => (.error e, t)

def matchRule (rules : List (ConnectRule Regex)) (t : Target) :
    Except IoError (Option Nat) × Target :=
  matchRuleFrom isMatch resolver resolveRuleHostnames sniffed 0 rules t

end

/-! ## The cache -/

inductive RoutingCacheKey
  | hostname (hostname : Str) (port : UInt16)
  | ipv4 (addr : Ipv4Addr) (port : UInt16)
  | ipv6 (addr : Ipv6Addr) (port : UInt16)
  deriving DecidableEq

inductive CachedDecision
  | allow (rule : Nat)
  | block
  deriving DecidableEq

def RoutingCacheKey.fromLocation (toLowercase : Str → Str) (l : NetLocation) : RoutingCacheKey :=
  match l.address with
  | .hostname name => .hostname (toLowercase name) l.port
  | .ipv4 addr => .ipv4 addr l.port
  | .ipv6 addr => .ipv6 addr l.port

/-- What is kept of the answer of `match_rule`. -/
def cachedOf : Option Nat → CachedDecision
  | some rule => .allow rule
  | none => .block

def cacheRuleThreshold : Nat := 16

section
variable {Regex : Type} (L : Lru RoutingCacheKey CachedDecision) (toLowercase : Str → Str)
  (isMatch : Regex → Str → Bool) (resolver : Resolver) (rules : List (ConnectRule Regex))
  (resolveRuleHostnames : Bool)

/-- `with_options_and_cache_size`: there is a cache if matching is costly and does not look
at sniffed protocols. -/
def newCache (cacheCapacity : Nat) : Option L.Cache :=
  if ¬rules.any (fun rule => rule.matchers.any ConnectMatcher.requiresProtocolSniff)
      ∧ (resolveRuleHostnames ∨ rules.length > cacheRuleThreshold) then
    some (L.new (max cacheCapacity 1))
  else none

def decisionAt (rule : Option Nat) (location : ResolvedLocation) : ConnectDecision :=
  match rule with
  | some i =>
    match rules[i]? with
    | some rule => toDecision i rule.action location
    | none => .block
  | none => .block

def cachedToDecision (cached : CachedDecision) (location : ResolvedLocation) : ConnectDecision :=
  match cached with
  | .allow rule => decisionAt rules (some rule) location
  | .block => .block

def startTarget (location : ResolvedLocation) : Target :=
  ⟨location, location.resolvedAddr.map fun addr => ipToU128 (ipOf addr)⟩

/-- `judge_uncached`, with the address that `judge_inner` derives from the location. -/
def judgeUncached (location : ResolvedLocation) : Except IoError ConnectDecision :=
  match matchRule isMatch resolver resolveRuleHostnames none rules (startTarget location) with
  | (.error e, _) => .error e
  | (.ok rule, t) => .ok (decisionAt rules rule t.location)

def judge (cache : Option L.Cache) (location : ResolvedLocation) :
    Except IoError ConnectDecision × Option L.Cache :=
  match cache with
  | none => (judgeUncached isMatch resolver rules resolveRuleHostnames location, none)
  | some c =>
    match L.find c (RoutingCacheKey.fromLocation toLowercase location.location) with
    | some cached => (.ok (cachedToDecision rules cached location), some c)
    | none =>
      match matchRule isMatch resolver resolveRuleHostnames none rules (startTarget location) with
      | (.error e, _) => (.error e, some c)
      | (.ok rule, t) =>
        (.ok (decisionAt rules rule t.location),
          some (L.put (RoutingCacheKey.fromLocation toLowercase t.location.location)
            (cachedOf rule) c))

end

/-! ## What matching depends on

Looking the destination up at another moment, or having it looked up already, makes no
difference to the answers, because the resolver always gives the same. -/

section
variable {Regex : Type} {isMatch : Regex → Str → Bool} {resolver : Resolver}
  {resolveRuleHostnames : Bool} {sniffed : Option SniffedProtocol}

/-- What is known of the destination is what the resolver says. -/
structure Known (resolver : Resolver) (t : Target) : Prop where
  addr : ∀ a, t.location.resolvedAddr = some a →
    resolveSingleAddress resolver t.location.location = .ok a
  ip : ∀ ip, t.resolvedIp = some ip →
    ∃ a, resolveSingleAddress resolver t.location.location = .ok a ∧ ip = ipToU128 (ipOf a)

/-- A destination of which nothing is known. -/
def fresh (l : NetLocation) : Target := ⟨⟨l, none⟩, none⟩

theorem known_fresh (resolver l) : Known resolver (fresh l) where
  addr := by intro a h; cases h
  ip := by intro ip h; cases h

/-- A step on a destination that answers as it would if nothing were known of it. -/
structure Steady (resolver : Resolver) (t : Target) {α : Type} (r : α × Target) (answer : α) :
    Prop where
  answer_eq : r.1 = answer
  known : Known resolver r.2
  location_eq : r.2.location.location = t.location.location

theorem steady_here (h : Known resolver t) {α : Type} (a : α) :
    Steady resolver t (a, t) a := ⟨rfl, h, rfl⟩

theorem destinationIp_known (h : Known resolver t) :
    (∃ e, resolveSingleAddress resolver t.location.location = .error e
      ∧ destinationIp resolver t = .error e)
    ∨ ∃ a t', resolveSingleAddress resolver t.location.location = .ok a
      ∧ destinationIp resolver t = .ok (ipToU128 (ipOf a), t') ∧ Known resolver t'
      ∧ t'.location.location = t.location.location := by
  obtain ⟨⟨l, addr⟩, ip⟩ := t
  cases ip with
  | some ip =>
    obtain ⟨a, ha, rfl⟩ := h.ip ip rfl
    exact .inr ⟨a, _, ha, rfl, h, rfl⟩
  | none =>
    cases addr with
    | some a =>
      have ha := h.addr a rfl
      refine .inr ⟨a, _, ha, rfl, ⟨h.addr, ?_⟩, rfl⟩
      rintro ip hip
      cases hip
      exact ⟨a, ha, rfl⟩
    | none =>
      cases hr : resolveSingleAddress resolver l with
      | error e => exact .inl ⟨e, rfl, by simp only [destinationIp, resolveLocation, hr]⟩
      | ok a =>
        refine .inr ⟨a, ⟨⟨l, some a⟩, some (ipToU128 (ipOf a))⟩, rfl,
          by simp only [destinationIp, resolveLocation, hr], ⟨?_, ?_⟩, rfl⟩
        · rintro a' ha'
          cases ha'
          exact hr
        rintro ip hip
        cases hip
        exact ⟨a, hr, rfl⟩

theorem matchResolved_known (h : Known resolver t) (mask) :
    Steady resolver t (matchResolved resolver mask t)
      (matchResolved resolver mask (fresh t.location.location)).1 := by
  have hfresh := destinationIp_known (known_fresh resolver t.location.location)
  rcases destinationIp_known h with ⟨e, he, hd⟩ | ⟨a, t', ha, hd, hk, hl⟩
  · rcases hfresh with ⟨e', he', hd'⟩ | ⟨a, t', ha, -⟩
    · have hee : e = e' := Except.error.inj (he.symm.trans he')
      rw [matchResolved, matchResolved, hd, hd', hee]
      exact steady_here h _
    · cases he.symm.trans ha
  rcases hfresh with ⟨e', he', -⟩ | ⟨a', t'', ha', hd', -⟩
  · cases ha.symm.trans he'
  have haa : a = a' := Except.ok.inj (ha.symm.trans ha')
  rw [matchResolved, matchResolved, hd, hd', haa]
  exact ⟨rfl, hk, hl⟩

theorem matchMask_known (h : Known resolver t) (mask) :
    Steady resolver t (matchMask resolver resolveRuleHostnames mask t)
      (matchMask resolver resolveRuleHostnames mask (fresh t.location.location)).1 := by
  have hres := matchResolved_known h mask
  have hhost : (fresh t.location.location).hostname = t.hostname := rfl
  have hport : (fresh t.location.location).location.location.port = t.location.location.port := rfl
  rw [matchMask, matchMask, hhost, hport]
  iterate 3
    split
    · exact steady_here h _
  · split
    · exact hres
    · exact steady_here h _
  · exact hres

theorem matchMatcher_known (h : Known resolver t) (m) :
    Steady resolver t (matchMatcher isMatch resolver resolveRuleHostnames sniffed m t)
      (matchMatcher isMatch resolver resolveRuleHostnames sniffed m
        (fresh t.location.location)).1 := by
  cases m with
  | location mask => exact matchMask_known h mask
  | _ => exact steady_here h _

/-! ## Matching by outcomes -/

/-- What the answer of one matcher means to the loops: the rule is found, the search goes
on, or it is given up. -/
inductive Outcome
  | found
  | goesOn
  | givesUp
  deriving DecidableEq, Repr

def outcome : Except MatchMaskError Bool → Outcome
  | .ok true => .found
  | .ok false => .goesOn
  | .error (.nonFatal _) => .goesOn
  | .error (.fatal _) => .givesUp

variable (isMatch resolver resolveRuleHostnames) in
/-- What a matcher says of a destination. -/
def verdict (l : NetLocation) (m : ConnectMatcher Regex) : Outcome :=
  outcome (matchMatcher isMatch resolver resolveRuleHostnames none m (fresh l)).1

def scanMatchers (v : ConnectMatcher Regex → Outcome) : List (ConnectMatcher Regex) → Outcome
  | [] => .goesOn
  | m :: ms =>
    match v m with
    | .found => .found
    | .goesOn => scanMatchers v ms
    | .givesUp => .givesUp

/-- The rule that is found, `some none` if there is none, `none` if the search is given up. -/
def scanRules (v : ConnectMatcher Regex → Outcome) :
    Nat → List (ConnectRule Regex) → Option (Option Nat)
  | _, [] => some none
  | i, rule :: rules =>
    match scanMatchers v rule.matchers with
    | .found => some (some i)
    | .goesOn => scanRules v (i + 1) rules
    | .givesUp => none

def outcomeOf : Except IoError Bool → Outcome
  | .ok true => .found
  | .ok false => .goesOn
  | .error _ => .givesUp

theorem matchMatchers_known (h : Known resolver t) (ms) :
    outcomeOf (matchMatchers isMatch resolver resolveRuleHostnames none ms t).1
        = scanMatchers (verdict isMatch resolver resolveRuleHostnames t.location.location) ms
      ∧ Known resolver (matchMatchers isMatch resolver resolveRuleHostnames none ms t).2
      ∧ (matchMatchers isMatch resolver resolveRuleHostnames none ms t).2.location.location
        = t.location.location := by
  induction ms generalizing t with
  | nil => exact ⟨rfl, h, rfl⟩
  | cons m ms ih =>
    obtain ⟨ha, hk, hl⟩ := @matchMatcher_known _ isMatch _ resolveRuleHostnames none _ h m
    have hv : verdict isMatch resolver resolveRuleHostnames t.location.location m
        = outcome (matchMatcher isMatch resolver resolveRuleHostnames none m t).1 :=
      congrArg outcome ha.symm
    have hrest := ih hk
    rw [hl] at hrest
    rw [matchMatchers, scanMatchers, hv]
    generalize matchMatcher isMatch resolver resolveRuleHostnames none m t = r at *
    obtain ⟨answer, t'⟩ := r
    cases answer with
    | ok found =>
      cases found with
      | true => exact ⟨rfl, hk, hl⟩
      | false => exact hrest
    | error e =>
      cases e with
      | nonFatal => exact hrest
      | fatal => exact ⟨rfl, hk, hl⟩

theorem matchRuleFrom_known (h : Known resolver t) (i rules) :
    (matchRuleFrom isMatch resolver resolveRuleHostnames none i rules t).1.toOption
        = scanRules (verdict isMatch resolver resolveRuleHostnames t.location.location) i rules
      ∧ (matchRuleFrom isMatch resolver resolveRuleHostnames none i rules t).2.location.location
        = t.location.location := by
  induction rules generalizing t i with
  | nil => exact ⟨rfl, rfl⟩
  | cons rule rules ih =>
    obtain ⟨ha, hk, hl⟩ :=
      @matchMatchers_known _ isMatch _ resolveRuleHostnames _ h rule.matchers
    have hrest := ih hk (i + 1)
    rw [hl] at hrest
    rw [matchRuleFrom, scanRules, ← ha]
    generalize matchMatchers isMatch resolver resolveRuleHostnames none rule.matchers t = r at *
    obtain ⟨answer, t'⟩ := r
    cases answer with
    | ok found =>
      cases found with
      | true => exact ⟨rfl, hl⟩
      | false => exact hrest
    | error => exact ⟨rfl, hl⟩

theorem scanMatchers_congr {v v' : ConnectMatcher Regex → Outcome}
    {ms : List (ConnectMatcher Regex)} (h : ∀ m ∈ ms, v m = v' m) :
    scanMatchers v ms = scanMatchers v' ms := by
  induction ms with
  | nil => rfl
  | cons m ms ih =>
    rw [scanMatchers, scanMatchers, h m List.mem_cons_self, ih (List.forall_mem_cons.mp h).2]

theorem scanRules_congr {v v' : ConnectMatcher Regex → Outcome} {rules : List (ConnectRule Regex)}
    (h : ∀ rule ∈ rules, ∀ m ∈ rule.matchers, v m = v' m) (i) :
    scanRules v i rules = scanRules v' i rules := by
  induction rules generalizing i with
  | nil => rfl
  | cons rule rules ih =>
    rw [scanRules, scanRules, scanMatchers_congr (h rule List.mem_cons_self),
      ih (List.forall_mem_cons.mp h).2]

/-! ## The cache over a run of calls -/

/-- An address that comes with the destination is the one the resolver gives. -/
def Honest (resolver : Resolver) (l : ResolvedLocation) : Prop :=
  ∀ a ∈ l.resolvedAddr, (resolveSingleAddress resolver l.location).toOption = some a

theorem known_start (h : Honest resolver l) : Known resolver (startTarget l) := by
  have haddr : ∀ a, l.resolvedAddr = some a → resolveSingleAddress resolver l.location = .ok a := by
    intro a ha
    have hopt := h a ha
    rcases hr : resolveSingleAddress resolver l.location with _ | _
    · rw [hr] at hopt; cases hopt
    rw [hr] at hopt
    exact congrArg Except.ok (Option.some.inj hopt)
  refine ⟨haddr, ?_⟩
  intro ip hip
  obtain ⟨a, ha, rfl⟩ := Option.map_eq_some_iff.mp hip
  exact ⟨a, haddr a ha, rfl⟩

section
variable (isMatch) (resolver) (resolveRuleHostnames) (toLowercase : Str → Str)
  (rules : List (ConnectRule Regex))

/-- No matcher tells two of the destinations apart that share a cache key. -/
def KeyRespected (calls : List ResolvedLocation) : Prop :=
  ∀ l ∈ calls, ∀ l' ∈ calls,
    RoutingCacheKey.fromLocation toLowercase l.location
      = RoutingCacheKey.fromLocation toLowercase l'.location →
    ∀ rule ∈ rules, ∀ m ∈ rule.matchers,
      verdict isMatch resolver resolveRuleHostnames l.location m
        = verdict isMatch resolver resolveRuleHostnames l'.location m

/-- Everything in the cache was found for one of the destinations, with that key. -/
def Kept (L : Lru RoutingCacheKey CachedDecision) (calls : List ResolvedLocation) :
    Option L.Cache → Prop
  | none => True
  | some c => ∀ k d, L.find c k = some d → ∃ l ∈ calls,
      RoutingCacheKey.fromLocation toLowercase l.location = k
        ∧ ∃ rule, scanRules (verdict isMatch resolver resolveRuleHostnames l.location) 0 rules
            = some rule ∧ d = cachedOf rule

end

/-- The rule and the location a decision names, which is all that counts of it. -/
def ConnectDecision.route : ConnectDecision → Option (Nat × NetLocation)
  | .allow rule remoteLocation => some (rule, remoteLocation.location)
  | .block => none

theorem route_toDecision (h : l.location = l'.location) (i action) : (toDecision i action l).route =
    (toDecision i action l').route := by
  cases action with
  | block => rfl
  | allow overrideAddress =>
    cases overrideAddress with
    | none | some => simp only [toDecision, remoteLocation, ConnectDecision.route, h]

theorem route_decisionAt (h : l.location = l'.location) (rules : List (ConnectRule Regex))
    (rule : Option Nat) : (decisionAt rules rule l).route = (decisionAt rules rule l').route := by
  unfold decisionAt
  rcases rule with _ | i
  · rfl
  dsimp only
  cases rules[i]? with
  | none => rfl
  | some r => exact route_toDecision h i r.action

theorem cachedToDecision_cachedOf (rules : List (ConnectRule Regex)) (rule : Option Nat)
    (l : ResolvedLocation) :
    cachedToDecision rules (cachedOf rule) l = decisionAt rules rule l := by
  cases rule <;> rfl

section
variable {L : Lru RoutingCacheKey CachedDecision} {toLowercase : Str → Str}
  {rules : List (ConnectRule Regex)} {calls : List ResolvedLocation}

/-- One call: the answer is that of `judge_uncached`, and what it adds to the cache was found
for its destination. -/
theorem judge_step
    (hkey : KeyRespected isMatch resolver resolveRuleHostnames toLowercase rules calls)
    (hl : l ∈ calls) (hhonest : Honest resolver l)
    (hkept : Kept isMatch resolver resolveRuleHostnames toLowercase rules L calls cache) :
    (judge L toLowercase isMatch resolver rules resolveRuleHostnames cache l).1.map
        ConnectDecision.route
        = (judgeUncached isMatch resolver rules resolveRuleHostnames l).map ConnectDecision.route
      ∧ Kept isMatch resolver resolveRuleHostnames toLowercase rules L calls
        (judge L toLowercase isMatch resolver rules resolveRuleHostnames cache l).2 := by
  rcases cache with _ | c
  · exact ⟨rfl, trivial⟩
  obtain ⟨hfound, hloc⟩ :=
    @matchRuleFrom_known _ isMatch _ resolveRuleHostnames _ (known_start hhonest) 0 rules
  have hstart : (startTarget l).location.location = l.location := rfl
  rw [hstart] at hfound hloc
  unfold judge judgeUncached matchRule
  dsimp only
  generalize matchRuleFrom isMatch resolver resolveRuleHostnames none 0 rules (startTarget l) = r at *
  obtain ⟨answer, t⟩ := r
  cases hf : L.find c (RoutingCacheKey.fromLocation toLowercase l.location) with
  | some =>
    -- a hit: another destination with this key found the rule, and this one would too
    obtain ⟨l', hl', hkk, rule, hrule, rfl⟩ := hkept _ _ hf
    have hsame := scanRules_congr (hkey l hl l' hl' hkk.symm) 0
    rw [hsame, hrule] at hfound
    dsimp only
    rcases answer with _ | _
    · cases hfound
    cases hfound
    rw [cachedToDecision_cachedOf]
    exact ⟨congrArg Except.ok (route_decisionAt hloc.symm rules _), hkept⟩
  | none =>
    rcases answer with _ | rule
    · exact ⟨rfl, hkept⟩
    refine ⟨rfl, ?_⟩
    intro k d hd
    have hput : t.location.location = l.location := hloc
    rw [hput] at hd
    by_cases hk : k = RoutingCacheKey.fromLocation toLowercase l.location
    · subst hk
      rw [L.find_put_self] at hd
      cases hd
      exact ⟨l, hl, rfl, rule, hfound.symm, rfl⟩
    · exact hkept k d (L.find_of_find_put hk hd)

theorem kept_newCache (cacheCapacity) :
    Kept isMatch resolver resolveRuleHostnames toLowercase rules L calls
      (newCache L rules resolveRuleHostnames cacheCapacity) := by
  unfold newCache
  split
  · intro k d hd
    rw [L.find_new] at hd
    cases hd
  · trivial

end

/-- **The routing cache changes nothing** as long as no matcher tells two destinations apart
that share a key: in every run of calls, each is answered as without the cache, by the same
rule and with the same target. -/
theorem judge_transparent (L : Lru RoutingCacheKey CachedDecision) (toLowercase : Str → Str)
    (isMatch : Regex → Str → Bool) (resolver : Resolver) (rules : List (ConnectRule Regex))
    (resolveRuleHostnames : Bool) (cacheCapacity : Nat) (calls : List ResolvedLocation)
    (hhonest : ∀ l ∈ calls, Honest resolver l)
    (hkey : KeyRespected isMatch resolver resolveRuleHostnames toLowercase rules calls) :
    ∀ p ∈ outputs (judge L toLowercase isMatch resolver rules resolveRuleHostnames)
        (newCache L rules resolveRuleHostnames cacheCapacity) calls,
      p.2.map ConnectDecision.route
        = (judgeUncached isMatch resolver rules resolveRuleHostnames p.1).map
          ConnectDecision.route := by
  refine @outputs_of_invariant _ _ _ _
    (Kept isMatch resolver resolveRuleHostnames toLowercase rules L calls) (· ∈ calls)
    (fun (l : ResolvedLocation) (r : Except IoError ConnectDecision) =>
      r.map ConnectDecision.route
        = (judgeUncached isMatch resolver rules resolveRuleHostnames l).map ConnectDecision.route)
    ?_ _ _ (kept_newCache cacheCapacity) fun l hl => hl
  intro cache l hkept hl
  exact judge_step hkey hl (hhonest l hl) hkept

/-- `ads.tv` and `Ads.tv`, a mask for a hostname, and one for any address. -/
def adsLower : Str := ⟨[97, 100, 115, 46, 116, 118], by decide⟩
def adsUpper : Str := ⟨[65, 100, 115, 46, 116, 118], by decide⟩
def adsMask : NetLocationMask := ⟨⟨.hostname adsUpper, netmaskOf 128⟩, 0⟩
def nowhere : Resolver := fun _ => .ok []

/-- The domain is blocked in any spelling, everything else goes to port 443 of an address; the
second call finds the answer of the first one. -/
theorem judge_transparent_domain :
    ∃ p ∈ outputs (judge (listLru _ _) Str.toAsciiLowercase (fun (_ : Unit) _ => false) nowhere
        [⟨[.domainFull adsLower], .block⟩,
          ⟨[.location NetLocationMask.any], .allow (some ⟨.ipv4 ⟨10, 0, 0, 1⟩, 443⟩)⟩] true)
        (newCache (listLru _ _) ([⟨[.domainFull adsLower], .block⟩,
          ⟨[.location NetLocationMask.any], .allow (some ⟨.ipv4 ⟨10, 0, 0, 1⟩, 443⟩)⟩] :
          List (ConnectRule Unit)) true 1)
        [⟨⟨.hostname adsUpper, 80⟩, none⟩, ⟨⟨.hostname adsLower, 80⟩, none⟩,
          ⟨⟨.ipv4 ⟨10, 0, 0, 9⟩, 80⟩, some (.v4 ⟨10, 0, 0, 9⟩ 80)⟩],
      p.1 = ⟨⟨.hostname adsLower, 80⟩, none⟩ ∧ p.2.map ConnectDecision.route
        = (judgeUncached (fun (_ : Unit) _ => false) nowhere [⟨[.domainFull adsLower], .block⟩,
          ⟨[.location NetLocationMask.any], .allow (some ⟨.ipv4 ⟨10, 0, 0, 1⟩, 443⟩)⟩] true
          p.1).map ConnectDecision.route := by
  refine ⟨_, .tail _ (.head _), rfl, judge_transparent _ _ _ _ _ _ 1
    [⟨⟨.hostname adsUpper, 80⟩, none⟩, ⟨⟨.hostname adsLower, 80⟩, none⟩,
      ⟨⟨.ipv4 ⟨10, 0, 0, 9⟩, 80⟩, some (.v4 ⟨10, 0, 0, 9⟩ 80)⟩] ?_ ?_ _ (.tail _ (.head _))⟩
  · unfold Honest
    decide +kernel
  unfold KeyRespected
  decide +kernel

/-- A rule for the hostname `Ads.tv` does not match `ads.tv`, but once `Ads.tv` has been
judged, the cache gives the other spelling the same answer. -/
theorem other_spelling_hits_cache : (NetLocationMask.from adsUpper).toOption = some adsMask
      ∧ ((judge (listLru _ _) Str.toAsciiLowercase (fun (_ : Unit) _ => false) nowhere
        [⟨[.location adsMask], .block⟩, ⟨[.location NetLocationMask.any], .allow none⟩] true
        (judge (listLru _ _) Str.toAsciiLowercase (fun (_ : Unit) _ => false) nowhere
          [⟨[.location adsMask], .block⟩, ⟨[.location NetLocationMask.any], .allow none⟩] true
          (newCache (listLru _ _) ([⟨[.location adsMask], .block⟩,
            ⟨[.location NetLocationMask.any], .allow none⟩] : List (ConnectRule Unit)) true 1)
          ⟨⟨.hostname adsUpper, 80⟩, none⟩).2
        ⟨⟨.hostname adsLower, 80⟩, none⟩).1.map ConnectDecision.route).toOption = some none
      ∧ ((judgeUncached (fun (_ : Unit) _ => false) nowhere [⟨[.location adsMask], .block⟩,
          ⟨[.location NetLocationMask.any], .allow none⟩] true
          ⟨⟨.hostname adsLower, 80⟩, none⟩).map ConnectDecision.route).toOption
        = some (some (1, ⟨.hostname adsLower, 80⟩)) := by
  decide +kernel

end

end Shoes.Routing.Selector
