import Mathlib.Algebra.Order.Ring.Nat
import Mathlib.Data.List.Nodup
import Mathlib.Data.Nat.Init
import Mathlib.Tactic.Tauto

/-! # Receive budgets

What a peer has sent and nobody has read yet is charged to the budgets of its logical stream, its
session and the listener. Without room a reader waits or the stream that holds most is evicted, with
all it holds refunded at once. A budget is known by its number, which is larger than its parent's. -/
namespace Shoes.Transport.ReceiveBudget
open List

/-! ## The tree -/

inductive Scope
  | stream
  | session
  | listener
  deriving DecidableEq

def Scope.display : Scope → String
  | .stream => "stream"
  | .session => "session"
  | .listener => "listener"

/-- All the budgets that are ever made: the parent of each, its maximum, and the stream that is told
of its eviction. -/
structure Tree where
  size : Nat
  parent : Nat → Option Nat
  parent_lt : ∀ {i p : Nat}, parent i = some p → p < i
  max : Nat → Nat
  eviction : Nat → Option UInt32

namespace Tree

def chainWithin (T : Tree) : Nat → Nat → List Nat
  | 0, i => [i]
  | fuel + 1, i =>
    match T.parent i with
    | none => [i]
    | some p => T.chainWithin fuel p ++ [i]

/-- A budget and those above it, from the root. -/
def chain (T : Tree) (i : Nat) : List Nat := T.chainWithin i i

/-- The budgets above a budget, from its parent. -/
def ancestors (T : Tree) (i : Nat) : List Nat := (T.chain i).dropLast.reverse

def isStream (T : Tree) (i : Nat) : Bool := (T.eviction i).isSome

end Tree

/-! ## The state of a budget -/

def budgetEvicted : Nat := 2 ^ 63
def budgetUsedMask : Nat := 2 ^ 32 - 1
def budgetKeepMask : Nat := 2 ^ 64 - 2 ^ 32

/-- The budgets: the state, of 64 bits; the registered children; which have registered and which
were dropped. `notices` is what the streams have been told, and `underflow` says that more was
refunded than was charged. -/
structure Levels where
  state : Nat → Nat
  children : Nat → List Nat
  registered : Nat → Bool
  dropped : Nat → Bool
  notices : List (Nat × Scope)
  underflow : Bool

namespace Levels

def new : Levels := ⟨fun _ => 0, fun _ => [], fun _ => false, fun _ => false, [], false⟩

def setState (l : Levels) (i value : Nat) : Levels :=
  { l with state := Function.update l.state i value }

def used (l : Levels) (i : Nat) : Nat := l.state i &&& budgetUsedMask

def isEvicted (l : Levels) (i : Nat) : Bool := l.state i &&& budgetEvicted != 0

def generation (l : Levels) (i : Nat) : Nat := (l.state i >>> 32) % 2 ^ 32

def chargeOne (T : Tree) (l : Levels) (i length : Nat) : Option (Nat × Levels) :=
  if l.isEvicted i then none
  else if l.used i + length < 2 ^ 64 ∧ l.used i + length ≤ T.max i then
    some (l.generation i, l.setState i ((l.state i &&& budgetKeepMask) ||| (l.used i + length)))
  else none

def refundOne (count : Nat) (l : Levels) (i : Nat) : Levels :=
  { l.setState i ((l.state i &&& budgetKeepMask) ||| (l.used i - count)) with
    underflow := l.underflow || decide (l.used i < count) }

def refundAll (count : Nat) (l : Levels) (budgets : List Nat) : Levels :=
  budgets.foldl (refundOne count) l

end Levels

/-- What a charge comes to: the generation of the permit, or the budget that has run out. -/
inductive Charge
  | ok (generation : Nat)
  | blocked (budget : Nat)
  deriving DecidableEq

section
variable (T : Tree)

/-- The loop of `try_charge`, with the budgets that have been charged, the last one first. -/
def chargeChain (length : Nat) : List Nat → List Nat → Nat → Levels → Charge × Levels
  | [], _, generation, l => (.ok generation, l)
  | b :: rest, charged, _, l =>
    match l.chargeOne T b length with
    | some (generation, l) => chargeChain length rest (b :: charged) generation l
    | none => (.blocked b, l.refundAll length charged)

section
variable (l : Levels)

def tryCharge (i length : Nat) : Charge × Levels :=
  chargeChain T length (T.chain i) [] 0 l

def refundPermit (i count generation : Nat) : Levels :=
  if l.generation i ≠ generation ∨ l.isEvicted i then l
  else (l.refundOne count i).refundAll count (T.ancestors i)

/-- `max_by_key`: the last of the largest. -/
def largest : List (Nat × Nat) → Option (Nat × Nat)
  | [] => none
  | a :: rest =>
    match largest rest with
    | none => some a
    | some b => if b.2 < a.2 then some a else some b

/-- The children of a budget have larger numbers than it has, so `size` levels are enough. -/
def largestLeafWithin (l : Levels) : Nat → Nat → Option (Nat × Nat)
  | 0, _ => none
  | fuel + 1, i =>
    let children := (l.children i).filter fun c => !l.dropped c
    if children.isEmpty then if l.isEvicted i then none else some (i, l.used i)
    else largest (children.filterMap (largestLeafWithin l fuel))

def largestLeaf (i : Nat) : Option (Nat × Nat) := largestLeafWithin l T.size i

def evict (i : Nat) (scope : Scope) : Levels :=
  if l.isEvicted i then l
  else
    let reclaimed := l.used i
    let l' := l.setState i (budgetEvicted ||| ((l.state i >>> 32 + 1) <<< 32) % 2 ^ 64)
    let l' := if 0 < reclaimed then l'.refundAll reclaimed (T.ancestors i) else l'
    match T.eviction i with
    | none => l'
    | some _ => { l' with notices := l'.notices ++ [(i, scope)] }

def scopeOf (i failed : Nat) : Scope :=
  if i = failed then .stream
  else if T.parent failed = none ∧ (T.parent i).any (· ≠ failed) then .listener
  else .session

/-- One turn of `ensure_registered`. -/
def register (i : Nat) : Levels :=
  match T.parent i with
  | none => l
  | some p =>
    if l.registered i then l
    else { l with
      registered := Function.update l.registered i true
      children := Function.update l.children p (l.children p ++ [i]) }

def ensureRegistered (i : Nat) : Levels := (T.chain i).foldl (register T) l

structure Permit where
  budget : Nat
  remaining : Nat
  generation : Nat
  deriving DecidableEq

structure BudgetBlocked where
  blocked : Nat
  scope : Scope
  streamEvicted : Bool
  deriving DecidableEq

def tryTrack (i length : Nat) : Except BudgetBlocked Permit × Levels :=
  match tryCharge T (ensureRegistered T l i) i length with
  | (.ok generation, l) => (.ok ⟨i, length, generation⟩, l)
  | (.blocked b, l) => (.error ⟨b, scopeOf T i b, l.isEvicted i⟩, l)

def usizeMax : Nat := 2 ^ 64 - 1

/-- Whether it was the own stream that was evicted. -/
def evictStalled (i blocked : Nat) (scope : Scope) (length : Nat) : Bool × Levels :=
  let currentAfterCharge := min (l.used i + length) usizeMax
  match largestLeaf T l blocked with
  | none => (true, evict T l i scope)
  | some (victim, used) =>
    if victim = i ∨ used ≤ currentAfterCharge then (true, evict T l i scope)
    else (false, evict T l victim scope)

end

/-- The loop of `track`, for at most so many turns. It chooses a victim as `evict_stalled` does. -/
def trackLoop (i length : Nat) : Nat → Levels → Option (Except Scope Permit × Levels)
  | 0, _ => none
  | fuel + 1, l =>
    match tryCharge T l i length with
    | (.ok generation, l) => some (.ok ⟨i, length, generation⟩, l)
    | (.blocked failed, l) =>
      match tryCharge T l i length with
      | (.ok generation, l) => some (.ok ⟨i, length, generation⟩, l)
      | (.blocked _, l) =>
        match evictStalled T l i failed (scopeOf T i failed) length with
        | (true, l) => some (.error (scopeOf T i failed), l)
        | (false, l) => trackLoop i length fuel l

def track (fuel : Nat) (l : Levels) (i length : Nat) : Option (Except Scope Permit × Levels) :=
  trackLoop T i length fuel (ensureRegistered T l i)

/-- `Drop` for a budget. -/
def dropBudget (l : Levels) (i : Nat) : Levels :=
  { l with
    dropped := Function.update l.dropped i true
    children := match T.parent i with
      | none => l.children
      | some p =>
        if l.registered i then
          Function.update l.children p ((l.children p).filter fun c => c ≠ i)
        else l.children }

end

/-! ## Bits -/

/-- The state of a budget that has been evicted. -/
def gone : Nat := 2 ^ 63 + 2 ^ 32

theorem and_high (h : s < 2 ^ 32) (m) : s &&& 2 ^ 32 * m = 0 := by
  apply Nat.eq_of_testBit_eq
  intro j
  rw [Nat.testBit_and, Nat.zero_testBit]
  by_cases hj : j < 32
  · have hlow : ¬32 ≤ j := by omega
    rw [Nat.testBit_two_pow_mul]
    simp [hlow]
  have hs : s.testBit j = false :=
    Nat.testBit_lt_two_pow (h.trans_le (Nat.pow_le_pow_right (by decide) (by omega)))
  rw [hs, Bool.false_and]

section
variable {l : Levels} {i : Nat}

section
variable (h : l.state i < 2 ^ 32)
include h

theorem used_of_lt : l.used i = l.state i := by
  rw [Levels.used, budgetUsedMask, Nat.and_two_pow_sub_one_eq_mod, Nat.mod_eq_of_lt h]

theorem isEvicted_of_lt : l.isEvicted i = false := by
  have hand : l.state i &&& budgetEvicted = 0 := and_high h (2 ^ 31)
  simp [Levels.isEvicted, hand]

theorem generation_of_lt : l.generation i = 0 := by
  rw [Levels.generation, Nat.shiftRight_eq_div_pow, Nat.div_eq_of_lt h, Nat.zero_mod]

theorem keep_of_lt : l.state i &&& budgetKeepMask = 0 :=
  and_high h (2 ^ 32 - 1)

end

theorem used_of_gone (h : l.state i = gone) : l.used i = 0 := by
  rw [Levels.used, h]
  decide

theorem isEvicted_of_gone (h : l.state i = gone) : l.isEvicted i = true := by
  rw [Levels.isEvicted, h]
  decide

theorem chargeOne_of_lt (h : l.state i < 2 ^ 32) (hmax : T.max i < 2 ^ 32) (length) :
    l.chargeOne T i length =
      if l.state i + length ≤ T.max i then some (0, l.setState i (l.state i + length))
      else none := by
  rw [Levels.chargeOne, isEvicted_of_lt h, used_of_lt h, generation_of_lt h, keep_of_lt h,
    Nat.zero_or]
  by_cases hfits : l.state i + length ≤ T.max i
  · rw [if_neg (by decide), if_pos ⟨by omega, hfits⟩, if_pos hfits]
  · rw [if_neg (by decide), if_neg fun hboth => hfits hboth.2, if_neg hfits]

theorem chargeOne_of_gone (h : l.state i = gone) (length) : l.chargeOne T i length = none := by
  rw [Levels.chargeOne, isEvicted_of_gone h, if_pos rfl]

theorem refundOne_of_lt {count} (h : l.state i < 2 ^ 32) (hcount : count ≤ l.state i) :
    l.refundOne count i = l.setState i (l.state i - count) := by
  have hflow : decide (l.state i < count) = false := decide_eq_false (by omega)
  rw [Levels.refundOne, used_of_lt h, keep_of_lt h, Nat.zero_or, hflow, Bool.or_false]
  rfl

end

/-! ## Chains -/

section
variable {T : Tree}

theorem Tree.chainWithin_of_le (h : i ≤ fuel) : T.chainWithin fuel i = T.chain i := by
  induction i using Nat.strong_induction_on generalizing fuel with
  | _ i ih =>
    unfold Tree.chain
    cases fuel with
    | zero =>
      obtain rfl : i = 0 := by omega
      rfl
    | succ =>
      rcases hp : T.parent i with _ | p
      · cases i with
        | zero | succ => simp [Tree.chainWithin, hp]
      have hlt := T.parent_lt hp
      cases i with
      | zero => omega
      | succ =>
        rw [Tree.chainWithin, Tree.chainWithin, hp]
        dsimp only
        rw [ih p hlt (by omega), ih p hlt (by omega)]

theorem Tree.chain_root (h : T.parent i = none) : T.chain i = [i] := by
  unfold Tree.chain
  cases i with
  | zero => rfl
  | succ => rw [Tree.chainWithin, h]

theorem Tree.chain_child (h : T.parent i = some p) : T.chain i = T.chain p ++ [i] := by
  have hlt := T.parent_lt h
  unfold Tree.chain
  cases i with
  | zero => omega
  | succ =>
    rw [Tree.chainWithin, h]
    dsimp only
    rw [T.chainWithin_of_le (by omega), Tree.chain]

theorem Tree.mem_chain_self (T : Tree) (i) : i ∈ T.chain i := by
  cases h : T.parent i with
  | none => simp [T.chain_root h]
  | some => simp [T.chain_child h]

theorem Tree.le_of_mem_chain (h : j ∈ T.chain i) : j ≤ i := by
  induction i using Nat.strong_induction_on with
  | _ i ih =>
    rcases hp : T.parent i with _ | p
    · rw [T.chain_root hp, mem_singleton] at h
      omega
    rw [T.chain_child hp, mem_append, mem_singleton] at h
    have hlt := T.parent_lt hp
    rcases h with h | h
    · have := ih p hlt h
      omega
    · omega

theorem Tree.nodup_chain (T : Tree) (i) : (T.chain i).Nodup := by
  induction i using Nat.strong_induction_on with
  | _ i ih =>
    rcases hp : T.parent i with _ | p
    · simp [T.chain_root hp]
    have hlt := T.parent_lt hp
    rw [T.chain_child hp, nodup_append]
    refine ⟨ih p hlt, by simp, ?_⟩
    intro a ha b hb
    have := T.le_of_mem_chain ha
    rw [mem_singleton] at hb
    omega

theorem Tree.child_of_mem_chain (h : j ∈ T.chain i) (hne : j ≠ i) :
    ∃ c ∈ T.chain i, T.parent c = some j := by
  induction i using Nat.strong_induction_on with
  | _ i ih =>
    rcases hp : T.parent i with _ | p
    · rw [T.chain_root hp, mem_singleton] at h
      exact absurd h hne
    have hsub : ∀ c ∈ T.chain p, c ∈ T.chain i := by
      intro c hc
      rw [T.chain_child hp]
      exact mem_append_left _ hc
    rw [T.chain_child hp, mem_append, mem_singleton] at h
    rcases h with h | h
    · by_cases heq : j = p
      · exact ⟨i, T.mem_chain_self i, heq ▸ hp⟩
      · obtain ⟨c, hc, hcj⟩ := ih p (T.parent_lt hp) h heq
        exact ⟨c, hsub c hc, hcj⟩
    · exact absurd h hne

theorem Tree.ancestors_cons (T : Tree) (i) : i :: T.ancestors i = (T.chain i).reverse := by
  unfold Tree.ancestors
  cases hp : T.parent i with
  | none => simp [T.chain_root hp]
  | some => simp [T.chain_child hp]

theorem Tree.nodup_cons_ancestors (T : Tree) (i) : (i :: T.ancestors i).Nodup := by
  rw [T.ancestors_cons]
  exact (reverse_perm _).nodup_iff.mpr (T.nodup_chain i)

end

/-- How the program lays its budgets out: no maximum takes more than 32 bits, and nothing is put
under the budget of a stream. -/
structure Tree.Layout (T : Tree) : Prop where
  fits : ∀ i, T.max i < 2 ^ 32
  leaves : ∀ i p, T.parent i = some p → T.isStream p = false

theorem Tree.Layout.eq_of_mem_chain {T : Tree} (h : T.Layout) (hj : T.isStream j = true)
    (hmem : j ∈ T.chain i) : j = i := by
  by_contra hne
  obtain ⟨c, -, hc⟩ := T.child_of_mem_chain hmem hne
  rw [h.leaves c j hc] at hj
  cases hj

/-! ## Charging and refunding a chain -/

namespace Levels

def charged (l : Levels) (length : Nat) (budgets : List Nat) : Levels :=
  { l with state := fun b => if b ∈ budgets then l.state b + length else l.state b }

def refunded (l : Levels) (count : Nat) (budgets : List Nat) : Levels :=
  { l with state := fun b => if b ∈ budgets then l.state b - count else l.state b }

/-- Every state is that of a budget in use or of one that was evicted. -/
def Packed (l : Levels) : Prop := ∀ i, l.state i < 2 ^ 32 ∨ l.state i = gone

@[simp] theorem charged_nil (l : Levels) (length) : l.charged length [] = l := by
  simp [charged]

end Levels

section
variable {T : Tree} {l : Levels} {length count : Nat}

theorem refundAll_eq (hnodup : budgets.Nodup)
    (h : ∀ b ∈ budgets, l.state b < 2 ^ 32 ∧ count ≤ l.state b) :
    l.refundAll count budgets = l.refunded count budgets := by
  induction budgets generalizing l with
  | nil => simp [Levels.refundAll, Levels.refunded]
  | cons b bs ih =>
    obtain ⟨hb, hbs⟩ := nodup_cons.mp hnodup
    obtain ⟨hlt, hcount⟩ := h b (mem_cons_self ..)
    have hother : ∀ c ∈ bs, (l.setState b (l.state b - count)).state c = l.state c := by
      intro c hc
      exact Function.update_of_ne (fun heq : c = b => hb (heq ▸ hc)) _ _
    have hrest := ih (l := l.setState b (l.state b - count)) hbs fun c hc => by
      rw [hother c hc]
      exact h c (mem_cons_of_mem _ hc)
    rw [Levels.refundAll, foldl_cons, refundOne_of_lt hlt hcount]
    rw [Levels.refundAll] at hrest
    rw [hrest]
    unfold Levels.refunded Levels.setState
    congr 1
    funext c
    by_cases heq : c = b
    · subst heq
      simp [hb]
    · simp [heq]

theorem refundAll_charged (hnodup : budgets.Nodup) (h : ∀ b ∈ budgets, l.state b + length < 2 ^ 32)
    : (l.charged length budgets).refundAll length budgets = l := by
  rw [refundAll_eq hnodup]
  · unfold Levels.refunded Levels.charged
    cases l
    congr 1
    funext c
    by_cases hc : c ∈ budgets <;> simp [hc]
  intro b hb
  have hlt := h b hb
  simp only [Levels.charged, hb, if_true]
  omega

/-- A level that takes the charge. -/
def Takes (T : Tree) (l : Levels) (length b : Nat) : Prop :=
  l.state b < 2 ^ 32 ∧ l.state b + length ≤ T.max b

/-- **A charge is all or nothing.** -/
theorem chargeChain_spec (hfits : ∀ b, T.max b < 2 ^ 32) (hpacked : l.Packed) :
    ∀ (budgets done : List Nat) (generation : Nat), (budgets ++ done).Nodup →
      (∀ b ∈ done, Takes T l length b) →
      (chargeChain T length budgets done generation (l.charged length done) =
          (.ok (if budgets = [] then generation else 0), l.charged length (budgets ++ done)) ∧
        ∀ b ∈ budgets, Takes T l length b) ∨
      ∃ b ∈ budgets,
        chargeChain T length budgets done generation (l.charged length done) = (.blocked b, l)
  | [], done, generation, _, _ => .inl ⟨rfl, by simp⟩
  | b :: bs, done, generation, hnodup, hdone => by
    have hb : b ∉ bs ∧ b ∉ done := by
      rw [cons_append, nodup_cons, mem_append] at hnodup
      exact not_or.mp hnodup.1
    have hstate : (l.charged length done).state b = l.state b := if_neg hb.2
    have hrollback : (l.charged length done).refundAll length done = l := by
      have hdones : done.Nodup := (nodup_append.mp hnodup).2.1
      refine refundAll_charged hdones fun c hc => ?_
      have := hfits c
      have := (hdone c hc).2
      omega
    by_cases htakes : Takes T l length b
    · have hone : (l.charged length done).chargeOne T b length =
          some (0, l.charged length (b :: done)) := by
        rw [chargeOne_of_lt (by rw [hstate]; exact htakes.1) (hfits b), hstate, if_pos htakes.2]
        congr 2
        unfold Levels.charged Levels.setState
        congr 1
        funext c
        by_cases heq : c = b
        · subst heq
          simp
        · simp [heq]
      rw [chargeChain, hone]
      have hnodup' : (bs ++ b :: done).Nodup :=
        (@List.perm_middle _ b bs done).nodup_iff.mpr hnodup
      have hsame : l.charged length (bs ++ b :: done) = l.charged length (b :: bs ++ done) := by
        unfold Levels.charged
        congr 1
        funext c
        exact if_congr List.perm_middle.mem_iff rfl rfl
      rcases chargeChain_spec hfits hpacked bs (b :: done) 0 hnodup'
        (forall_mem_cons.mpr ⟨htakes, hdone⟩) with ⟨hok, hall⟩ | ⟨c, hc, hblocked⟩
      · refine .inl ⟨?_, ?_⟩
        · dsimp only
          rw [hok, hsame, ite_self, if_neg (cons_ne_nil _ _)]
        · exact forall_mem_cons.mpr ⟨htakes, hall⟩
      · exact .inr ⟨c, mem_cons_of_mem _ hc, hblocked⟩
    · have hone : (l.charged length done).chargeOne T b length = none := by
        rcases hpacked b with hlt | hgone
        · rw [chargeOne_of_lt (by rw [hstate]; exact hlt) (hfits b), hstate,
            if_neg fun hle => htakes ⟨hlt, hle⟩]
        · exact chargeOne_of_gone (hstate.trans hgone) length
      refine .inr ⟨b, mem_cons_self .., ?_⟩
      rw [chargeChain, hone]
      dsimp only
      rw [hrollback]

theorem tryCharge_spec (hfits : ∀ b, T.max b < 2 ^ 32) (hpacked : l.Packed) (i length) :
    (tryCharge T l i length = (.ok 0, l.charged length (T.chain i)) ∧
      ∀ b ∈ T.chain i, Takes T l length b) ∨
    ∃ b ∈ T.chain i, tryCharge T l i length = (.blocked b, l) := by
  have hne : T.chain i ≠ [] := ne_nil_of_mem (T.mem_chain_self i)
  have hspec := @chargeChain_spec T l length hfits hpacked (T.chain i) [] 0
    (by rw [append_nil]; exact T.nodup_chain i) (by simp)
  rw [Levels.charged_nil, append_nil, if_neg hne] at hspec
  exact hspec

end

end Shoes.Transport.ReceiveBudget
