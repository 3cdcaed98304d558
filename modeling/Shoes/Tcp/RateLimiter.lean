import Mathlib.Algebra.Order.BigOperators.Group.Finset
import Mathlib.Data.Fintype.BigOperators
import Mathlib.Data.Rat.Floor
import Mathlib.Tactic.Linarith
import Shoes.Lib.Machine

/-! # The speed limit of a user

The bucket that all streams of a user take from, over exact numbers. There is no queue: a task that
is refused sleeps and asks once more. -/
namespace Shoes.Tcp.RateLimiter
open Lib.Machine Finset Function Option

variable {K : Type} [Field K] [LinearOrder K] [IsStrictOrderedRing K]

/-- `available_or_delay` of a stream, or `can_send_or_delay` of a message stream. -/
inductive Ask
  | available (requested : Nat)
  | send (bytes : Nat)
  deriving DecidableEq

structure RateLimiterState (K : Type) where
  rate : K
  burst : K
  tokens : K
  lastRefill : K
  deriving DecidableEq

def new (rateBytesPerSec : Nat) (now : K) : RateLimiterState K :=
  let rate : K := max rateBytesPerSec 1
  let burst := max (rate * 2) 1
  ⟨rate, burst, burst, now⟩

def refill (s : RateLimiterState K) (now : K) : RateLimiterState K :=
  let elapsed := now - s.lastRefill
  if elapsed ≤ 0 then s
  else { s with tokens := min (s.tokens + elapsed * s.rate) s.burst, lastRefill := now }

/-- With nothing to send, `can_send_or_delay` returns before it refills. -/
def polled (s : RateLimiterState K) (now : K) : Ask → RateLimiterState K
  | .send 0 => s
  | _ => refill s now

omit [IsStrictOrderedRing K] in
theorem polled_eq (s : RateLimiterState K) (now ask) :
    ask = .send 0 ∧ polled s now ask = s ∨ polled s now ask = refill s now := by
  unfold polled
  split
  exacts [.inl ⟨rfl, rfl⟩, .inr rfl]

/-- The tokens it takes: those of `min_chunk`, or of the message. -/
def need (burst : K) : Ask → K
  | .available requested => min (min 4096 burst) (max requested 1 : Nat)
  | .send bytes => bytes

structure Sound (s : RateLimiterState K) : Prop where
  rate : 0 < s.rate
  full : s.tokens ≤ s.burst

/-- Who sleeps until the deadline will find what it needs. -/
structure Wakes (ask : Ask) (deadline : K) (s : RateLimiterState K) : Prop extends Sound s where
  fits : need s.burst ask ≤ s.burst
  comes : ∀ now, deadline ≤ now → s.lastRefill ≤ now →
    need s.burst ask ≤ s.tokens + (now - s.lastRefill) * s.rate

variable {s : RateLimiterState K} {ask : Ask} {deadline now t₁ t₂ c : K}

theorem Sound.refill_eq (h : Sound s) (hnow : s.lastRefill ≤ now) : refill s now = { s with
      tokens := min (s.tokens + (now - s.lastRefill) * s.rate) s.burst
      lastRefill := now } := by
  simp only [refill]
  split_ifs with hle
  · obtain rfl : now = s.lastRefill := by linarith
    simp [h.full]
  · rfl

theorem Sound.refill (h : Sound s) (now) : Sound (refill s now) := by
  rcases le_total s.lastRefill now with hnow | hnow
  · rw [h.refill_eq hnow]
    exact ⟨h.rate, min_le_right ..⟩
  · rwa [RateLimiter.refill, if_pos (sub_nonpos.mpr hnow)]

theorem Wakes.refill (h : Wakes ask deadline s) (hnow : s.lastRefill ≤ now) :
    Wakes ask deadline (refill s now) := by
  rw [h.refill_eq hnow]
  refine ⟨⟨h.rate, min_le_right ..⟩, h.fits, fun later hdeadline (hlater : now ≤ later) => ?_⟩
  have hcomes := h.comes later hdeadline (hnow.trans hlater)
  have hmore := mul_nonneg (sub_nonneg.mpr hlater) h.rate.le
  have hfits := h.fits
  rw [← min_add_add_right]
  exact le_min (by linarith) (by linarith)

theorem Sound.refill_tokens (h : Sound s) (now) :
    s.tokens ≤ (RateLimiter.refill s now).tokens ∧ (RateLimiter.refill s now).burst = s.burst := by
  simp only [RateLimiter.refill]
  split_ifs
  · exact ⟨le_rfl, rfl⟩
  · exact ⟨le_min (by nlinarith [h.rate]) h.full, rfl⟩

/-- From `t₁` to `t₂` `c` bytes are consumed, of a full bucket and what is refilled. -/
def Within (t₁ t₂ c : K) (s : RateLimiterState K) : Prop :=
  s.lastRefill ≤ t₂ ∧ (s.lastRefill < t₁ ∧ c = 0 ∨
    t₁ ≤ s.lastRefill ∧ s.tokens + c ≤ s.burst + (s.lastRefill - t₁) * s.rate)

theorem Within.refill (hs : Sound s) (h : Within t₁ t₂ c s) (h₁ : t₁ ≤ now) (h₂ : now ≤ t₂) :
    Within t₁ t₂ c (refill s now) ∧ t₁ ≤ (refill s now).lastRefill := by
  rcases le_total now s.lastRefill with hold | hnew
  · rw [RateLimiter.refill, if_pos (sub_nonpos.mpr hold)]
    exact ⟨h, h₁.trans hold⟩
  rw [hs.refill_eq hnew]
  refine ⟨⟨h₂, .inr ⟨h₁, ?_⟩⟩, h₁⟩
  rcases h.2 with ⟨-, rfl⟩ | ⟨-, h⟩
  · nlinarith [min_le_right (s.tokens + (now - s.lastRefill) * s.rate) s.burst, hs.rate]
  · linarith [min_le_left (s.tokens + (now - s.lastRefill) * s.rate) s.burst]

variable [FloorSemiring K]

/-- Enough tokens, or how long they take to come. -/
def orDelay (s : RateLimiterState K) (tokens : K) (allowed : Nat) : Except K Nat :=
  if tokens ≤ s.tokens then .ok allowed
  else .error (max ((tokens - s.tokens) / s.rate) (1 / 1000))

def availableOrDelay (s : RateLimiterState K) (requested : Nat) : Except K Nat :=
  orDelay s (need s.burst (.available requested)) (max (min (max requested 1) ⌊s.tokens⌋₊) 1)

def canSendOrDelay (s : RateLimiterState K) (bytes : Nat) : Except K Nat :=
  if bytes = 0 then .ok 0 else orDelay s bytes bytes

def answer (s : RateLimiterState K) : Ask → Except K Nat
  | .available requested => availableOrDelay s requested
  | .send bytes => canSendOrDelay s bytes

/-- What the tasks do. Others may come between a poll that is allowed and what it consumes. -/
inductive Event (K : Type)
  | poll (ask : Ask) (now : K)
  | consume (bytes : Nat) (now : K)

def step (s : RateLimiterState K) : Event K → Except K Nat × RateLimiterState K
  | .poll ask now => (answer (polled s now ask) ask, polled s now ask)
  | .consume bytes now =>
    let s := if bytes = 0 then s else refill s now
    (.ok 0, { s with tokens := s.tokens - bytes })

/-- Time goes on, and nothing is consumed. -/
def Idle (s : RateLimiterState K) : Event K → Prop
  | .poll _ now => s.lastRefill ≤ now
  | .consume .. => False

theorem Sound.step (h : Sound s) (e) : Sound (step s e).2 := by
  cases e with
  | poll ask now =>
    rcases polled_eq s now ask with ⟨-, heq⟩ | heq <;> simp only [RateLimiter.step, heq]
    exacts [h, h.refill now]
  | consume bytes now =>
    have hs : Sound (if bytes = 0 then s else RateLimiter.refill s now) := by
      split_ifs
      exacts [h, h.refill now]
    exact ⟨hs.rate, (sub_le_self _ bytes.cast_nonneg).trans hs.full⟩

/-- The sleep is as long as the missing tokens take. -/
theorem Sound.wakes (h : Sound s) {delay} (hfits : need s.burst ask ≤ s.burst)
    (hrefused : answer s ask = .error delay) : Wakes ask (s.lastRefill + delay) s := by
  refine ⟨h, hfits, fun now hend _ => ?_⟩
  obtain ⟨n, hdelay⟩ : ∃ n, orDelay s (need s.burst ask) n = .error delay := by
    cases ask with
    | available => exact ⟨_, hrefused⟩
    | send bytes =>
      simp only [answer, canSendOrDelay] at hrefused
      split_ifs at hrefused
      exact ⟨_, hrefused⟩
  simp only [orDelay] at hdelay
  split_ifs at hdelay
  cases hdelay
  have hlong : (need s.burst ask - s.tokens) / s.rate ≤ now - s.lastRefill := by
    linarith [le_max_left ((need s.burst ask - s.tokens) / s.rate) (1 / 1000)]
  rw [div_le_iff₀ h.rate] at hlong
  linarith

/-- **A stream does not starve if nothing is consumed while it sleeps**: polled at the end, it is
allowed. -/
theorem sleeper_allowed (rate : Nat) (start : K) (es others : List (Event K)) (ask : Ask)
    (asked delay now : K) (s s' : RateLimiterState K) (hs : s = after step (new rate start) es)
    (hs' : s' = after step (step s (.poll ask asked)).2 others) (hasked : s.lastRefill ≤ asked)
    (hfits : need s.burst ask ≤ s.burst) (hrefused : (step s (.poll ask asked)).1 = .error delay)
    (hidle : Along step Idle (step s (.poll ask asked)).2 others) (hnow : s'.lastRefill ≤ now)
    (hend : asked + delay ≤ now) : ∃ allowed, (step s' (.poll ask now)).1 = .ok allowed := by
  have hnew : Sound (new rate start) := ⟨lt_max_of_lt_right one_pos, le_rfl⟩
  have hsound : Sound s := hs ▸ (along_true step _ es).invariant (fun _ e _ h => h.step e) hnew
  have hslept : Wakes ask (asked + delay) (step s (.poll ask asked)).2 := by
    have hwakes : _ → _ → Wakes ask (_ + delay) _ := (hsound.refill asked).wakes
    rcases polled_eq s asked ask with ⟨rfl, -⟩ | hpolled
    · cases hrefused
    simp only [step, hpolled, hsound.refill_eq hasked] at hrefused hwakes ⊢
    exact hwakes hfits hrefused
  have hkept : Wakes ask (asked + delay) s' := by
    refine hs' ▸ hidle.invariant (fun s e he h => ?_) hslept
    cases e with
    | poll ask now =>
      rcases polled_eq s now ask with ⟨-, hpolled⟩ | hpolled <;> simp only [step, hpolled]
      exacts [h, h.refill he]
    | consume => exact he.elim
  have hneed := le_min (hkept.comes now hend hnow) hkept.fits
  rcases polled_eq s' now ask with ⟨rfl, -⟩ | hpolled
  · exact ⟨0, rfl⟩
  simp only [step, hpolled, hkept.refill_eq hnow]
  cases ask with
  | available => exact ⟨_, if_pos hneed⟩
  | send bytes =>
    simp only [answer, canSendOrDelay]
    split_ifs
    exacts [⟨_, rfl⟩, ⟨_, if_pos hneed⟩]

/-- The time that a chunk takes. -/
def tick : ℚ := 4096 / 125000

/-- A stream empties the bucket. -/
def busy : List (Event ℚ) := [.poll (.available 250000) 0, .consume 250000 0]

/-- A stream is refused and sleeps, another is refused meanwhile. -/
theorem sleeper_allowed_polled :
    let slept := after step (new 125000 0) (busy ++ [.poll (.available 4096) 0])
    (step (after step (new 125000 0) busy) (.poll (.available 4096) 0)).1 = .error tick ∧
    (step slept (.poll (.available 4096) (tick / 2))).1 = .error (tick / 2) ∧
    ∃ allowed, (step (after step slept [.poll (.available 4096) (tick / 2)])
      (.poll (.available 4096) tick)).1 = .ok allowed :=
  ⟨by decide +kernel, by decide +kernel, sleeper_allowed 125000 0 busy
    [.poll (.available 4096) (tick / 2)] (.available 4096) 0 tick tick _ _ rfl rfl
    (by decide +kernel) (by decide +kernel) (by decide +kernel)
    ⟨show _ ≤ _ by decide +kernel, trivial⟩ (by decide +kernel) (by decide +kernel)⟩

/-- A stream asks and sleeps; when its sleep ends, another takes a chunk first. -/
def round (n : Nat) : List (Event ℚ) :=
  let now := n * tick + tick
  [.poll (.available 4096) (n * tick), .poll (.available 4096) now, .consume 4096 now]

/-- Asking whenever its sleep ends, the stream is refused each time. -/
theorem second_starves : (after step (new 125000 0) busy).rate = 125000 ∧
    ∀ n : Nat, (step (after step (new 125000 0) (busy ++ (List.range n).flatMap round))
      (.poll (.available 4096) (n * tick))).1 = .error tick := by
  refine ⟨by decide +kernel, fun n => ?_⟩
  have hdrained : after step (new 125000 0) (busy ++ (List.range n).flatMap round) =
      ⟨125000, 250000, 0, n * tick⟩ := by
    induction n with
    | zero => decide +kernel
    | succ n ih =>
      rw [List.range_succ, List.flatMap_append, ← List.append_assoc, after_append, ih]
      norm_num [after, step, polled, round, refill, tick, add_one_mul]
  rw [hdrained]
  norm_num [step, polled, refill, answer, availableOrDelay, orDelay, need, tick]

/-! ## All streams of a user

A stream asks, passes bytes and consumes them, each in a step of its own. -/

inductive Act
  | ask (requested : Nat)
  | pass (bytes : Nat)
  | consume

/-- What each stream was granted and has passed of it, until it is consumed. -/
structure Streams (n : Nat) (K : Type) where
  limiter : RateLimiterState K
  granted : Fin n → Nat
  moved : Fin n → Nat
  consumed : Nat

section
variable {n most : Nat}

/-- What was passed has been consumed or is about to be. -/
def Streams.passed (s : Streams n K) : Nat := s.consumed + ∑ i, s.moved i

def next (s : Streams n K) : Fin n × K × Act → Option (Streams n K)
  | (i, now, .ask requested) =>
    if s.granted i = 0 then
      let (result, limiter) := step s.limiter (.poll (.available requested) now)
      some { s with limiter, granted := update s.granted i (result.toOption.getD 0) }
    else none
  | (i, _, .pass bytes) =>
    if s.moved i = 0 ∧ bytes ≤ s.granted i then some { s with moved := update s.moved i bytes }
    else none
  | (i, now, .consume) =>
    some {
      limiter := (step s.limiter (.consume (s.moved i) now)).2
      granted := update s.granted i 0
      moved := update s.moved i 0
      consumed := s.consumed + s.moved i }

/-- All grants that are not consumed, but for any one, come to at most `most`. -/
def Grants (most : Nat) (s : Streams n K) : Prop := ∀ i, ∑ j ∈ univ \ {i}, s.granted j ≤ most

instance (most : Nat) (s : Streams n K) : Decidable (Grants most s) :=
  inferInstanceAs (Decidable (∀ _, _))

theorem grant_le (hb : 1 ≤ s.burst) (h : availableOrDelay s requested = .ok g) :
    (g : K) ≤ s.tokens := by
  simp only [availableOrDelay, orDelay] at h
  split_ifs at h with hneed
  cases h
  have hone : 1 ≤ s.tokens := by
    refine le_trans ?_ hneed
    simp only [need, le_min_iff]
    exact ⟨⟨by norm_num, hb⟩, by simp⟩
  refine le_trans (Nat.cast_le.mpr ?_) (Nat.floor_le (zero_le_one.trans hone))
  exact max_le (min_le_right ..) (Nat.le_floor (by simpa using hone))

/-- What the streams may still consume exceeds the tokens by no more than `most`. -/
structure Owed (most : Nat) (s : Streams n K) : Prop extends Sound s.limiter where
  burst : 1 ≤ s.limiter.burst
  moved : s.moved ≤ s.granted
  owed : ((∑ i, s.granted i : Nat) : K) ≤ s.limiter.tokens + most

variable {s s' s₁ s₂ : Streams n K} {a : Fin n × K × Act}

theorem Owed.next (hmost : Grants most s) (h : Owed most s) (hnext : next s a = some s') :
    Owed most s' := by
  obtain ⟨i, now, act⟩ := a
  obtain ⟨hmore, hburst⟩ := h.refill_tokens now
  have hsum := sum_eq_sum_sdiff_singleton_add (mem_univ i) s.granted
  have howed := h.owed
  cases act with
  | ask requested =>
    obtain ⟨hfree, ⟨⟩⟩ := ite_none_right_eq_some.mp hnext
    refine ⟨h.refill now, hburst ▸ h.burst, le_update_iff.mpr ⟨?_, fun j _ => h.moved j⟩, ?_⟩
    · exact (h.moved i).trans (hfree.le.trans (Nat.zero_le _))
    have hothers : ((∑ j ∈ univ \ {i}, s.granted j : Nat) : K) ≤ most := Nat.cast_le.mpr (hmost i)
    rw [hsum, hfree, add_zero] at howed
    rw [sum_update_of_mem (mem_univ i), Nat.cast_add]
    simp only [answer, polled]
    cases hask : availableOrDelay (RateLimiter.refill s.limiter now) requested with
    | ok g =>
      have hg := grant_le (hburst ▸ h.burst) hask
      simp only [Except.toOption, getD_some]
      linarith
    | error =>
      simp only [Except.toOption, getD_none, Nat.cast_zero]
      linarith
  | pass bytes =>
    obtain ⟨⟨-, hle⟩, ⟨⟩⟩ := ite_none_right_eq_some.mp hnext
    exact ⟨h.toSound, h.burst, update_le_iff.mpr ⟨hle, fun j _ => h.moved j⟩, howed⟩
  | consume =>
    cases hnext
    have hi : (s.moved i : K) ≤ s.granted i := Nat.cast_le.mpr (h.moved i)
    refine ⟨h.step _, ?_, update_le_update_iff.mpr ⟨le_rfl, fun j _ => h.moved j⟩, ?_⟩ <;>
      simp only [step]
    · split_ifs
      exacts [h.burst, hburst ▸ h.burst]
    rw [hsum, Nat.cast_add] at howed
    rw [sum_update_of_mem (mem_univ i), zero_add]
    split_ifs <;> linarith

theorem Within.next (hs : Sound s.limiter) (h : Within t₁ t₂ (s.consumed - c) s.limiter)
    (h₁ : t₁ ≤ a.2.1) (h₂ : a.2.1 ≤ t₂) (hnext : next s a = some s') :
    Within t₁ t₂ (s'.consumed - c) s'.limiter := by
  obtain ⟨i, now, act⟩ := a
  obtain ⟨hfilled, hlast⟩ := h.refill hs h₁ h₂
  cases act with
  | ask =>
    obtain ⟨-, ⟨⟩⟩ := ite_none_right_eq_some.mp hnext
    exact hfilled
  | pass =>
    obtain ⟨-, ⟨⟩⟩ := ite_none_right_eq_some.mp hnext
    exact h
  | consume =>
    cases hnext
    simp only [step]
    split_ifs with hzero
    · simpa [hzero] using h
    refine ⟨hfilled.1, .inr ⟨hlast, ?_⟩⟩
    have hsome := (hfilled.2.resolve_left fun hold => hold.1.not_ge hlast).2
    push_cast
    linarith

/-- **The limit on all streams together.** In `t` seconds they pass no more than a full bucket, what
is refilled and the grants of all streams but one. The tokens are never short of more than those. -/
theorem passed_bounded (rate : Nat) (start t₁ t : K) (ht : 0 ≤ t) {es₁ es₂}
    (h₁ : run next ⟨new rate start, 0, 0, 0⟩ es₁ = some s₁) (h₂ : run next s₁ es₂ = some s₂)
    (hmost₁ : Throughout next (fun s _ => Grants most s) ⟨new rate start, 0, 0, 0⟩ es₁)
    (hmost₂ : Throughout next (fun s a => Grants most s ∧ t₁ ≤ a.2.1 ∧ a.2.1 ≤ t₁ + t) s₁ es₂)
    (hlast : s₁.limiter.lastRefill ≤ t₁ + t) :
    (s₂.passed : K) ≤ s₁.passed + (s₂.limiter.burst + s₂.limiter.rate * t + most) ∧
      -(most : K) ≤ s₂.limiter.tokens := by
  have hnew : Owed most (⟨new rate start, 0, 0, 0⟩ : Streams n K) := by
    refine ⟨⟨lt_max_of_lt_right one_pos, le_rfl⟩, le_max_right _ _, le_rfl, ?_⟩
    simp [new]
    positivity
  have howed₁ := run_invariant (fun _ _ _ hm h => h.next hm) _ _ _ hmost₁ hnew h₁
  have hstart : Within t₁ (t₁ + t) (s₁.consumed - s₁.consumed) s₁.limiter := by
    refine ⟨hlast, (lt_or_ge _ t₁).imp (⟨·, sub_self _⟩) fun hlate => ⟨hlate, ?_⟩⟩
    linarith [howed₁.full, mul_nonneg (sub_nonneg.mpr hlate) howed₁.rate.le]
  obtain ⟨h, hwithin⟩ := @run_invariant _ _ next _ (fun s => Owed most s ∧
    Within t₁ (t₁ + t) (s.consumed - s₁.consumed) s.limiter)
    (fun _ _ _ hm h hn => ⟨h.1.next hm.1 hn, h.2.next h.1.toSound hm.2.1 hm.2.2 hn⟩)
    _ _ _ hmost₂ ⟨howed₁, hstart⟩ h₂
  have hconsumed : s₂.limiter.tokens + (s₂.consumed - s₁.consumed) ≤
      s₂.limiter.burst + s₂.limiter.rate * t := by
    rcases hwithin.2 with ⟨-, hnone⟩ | ⟨-, hsome⟩
    · linarith [h.full, mul_nonneg h.rate.le ht]
    · nlinarith [hwithin.1, h.rate]
  have hmoved : ((∑ i, s₂.moved i : Nat) : K) ≤ (∑ i, s₂.granted i : Nat) :=
    Nat.cast_le.mpr (sum_le_sum fun i _ => h.moved i)
  have howed := h.owed
  simp only [Streams.passed, Nat.cast_add] at *
  constructor <;> linarith [(∑ i, s₁.moved i).cast_nonneg (α := K),
    (∑ i, s₂.moved i).cast_nonneg (α := K)]

/-- Two streams are granted the same two tokens. -/
def twoGranted : Streams 2 ℚ :=
  (run next ⟨new 1 0, 0, 0, 0⟩ [(0, 0, .ask 2), (1, 0, .ask 2)]).get (by decide +kernel)

/-- They use them within a second. -/
def twoUsed : Streams 2 ℚ := (run next twoGranted
  [(0, 0, .pass 2), (1, 0, .pass 2), (0, 0, .consume), (1, 1, .consume)]).get (by decide +kernel)

/-- Four bytes pass, and the tokens are one short. -/
theorem passed_bounded_two : twoUsed.passed = 4 ∧ twoUsed.limiter.tokens = -1 ∧
    (twoUsed.passed : ℚ) ≤
      twoGranted.passed + (twoUsed.limiter.burst + twoUsed.limiter.rate * 1 + (2 : Nat)) ∧
    -((2 : Nat) : ℚ) ≤ twoUsed.limiter.tokens :=
  ⟨by decide +kernel, by decide +kernel, passed_bounded 1 0 0 1 (by decide +kernel)
    (some_get _).symm (some_get _).symm (by decide +kernel) (by decide +kernel) (by decide +kernel)⟩

end

end Shoes.Tcp.RateLimiter
