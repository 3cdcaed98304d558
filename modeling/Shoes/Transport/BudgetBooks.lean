import Shoes.Transport.ReceiveBudget
import Shoes.Lib.Machine
import Shoes.Lib.Tally

/-! # The books of the receive budgets

What every budget has in use is what the permits under it have not refunded, whatever is charged,
released, evicted and dropped, as long as only the budgets of streams are charged. -/
namespace Shoes.Transport.BudgetBooks
open Lib.Tally ReceiveBudget List Function Option Lib.Machine Bool

/-! ## Runs -/

structure State where
  levels : Levels
  permits : List Permit

def State.new : State := ⟨.new, []⟩

inductive Action
  | tryTrack (i length : Nat)
  | track (i length : Nat)
  | evictStalled (i blocked : Nat) (scope : Scope) (length : Nat)
  | release (permit count : Nat)
  | dropPermit (permit : Nat)
  | dropBudget (i : Nat)

/-- Whether a budget may be used: it has been made, and not dropped. -/
def usable (T : Tree) (s : State) (i : Nat) : Bool :=
  decide (i < T.size) && !s.levels.dropped i

/-- A permit and a child keep a budget from being dropped. -/
def unowned (T : Tree) (s : State) (i : Nat) : Bool :=
  s.permits.all (fun p => p.budget != i) &&
    (List.range T.size).all fun j => T.parent j != some i || s.levels.dropped j

/-- A loop that does not end in as many turns as there are permits, and one more, is no step. -/
def next (T : Tree) (s : State) : Action → Option State
  | .tryTrack i length =>
    if usable T s i then
      match tryTrack T s.levels i length with
      | (.ok permit, l) => some ⟨l, s.permits ++ [permit]⟩
      | (.error _, l) => some ⟨l, s.permits⟩
    else none
  | .track i length =>
    if usable T s i then
      match track T (s.permits.length + 1) s.levels i length with
      | none => none
      | some (.ok permit, l) => some ⟨l, s.permits ++ [permit]⟩
      | some (.error _, l) => some ⟨l, s.permits⟩
    else none
  | .evictStalled i blocked scope length =>
    if usable T s i && usable T s blocked then
      some ⟨(evictStalled T s.levels i blocked scope length).2, s.permits⟩
    else none
  | .release k count =>
    match s.permits[k]? with
    | none => none
    | some p =>
      if count ≤ p.remaining then
        some ⟨refundPermit T s.levels p.budget count p.generation,
          s.permits.set k { p with remaining := p.remaining - count }⟩
      else none
  | .dropPermit k =>
    match s.permits[k]? with
    | none => none
    | some p =>
      some ⟨refundPermit T s.levels p.budget p.remaining p.generation, s.permits.eraseIdx k⟩
  | .dropBudget i =>
    if usable T s i && unowned T s i then some { s with levels := dropBudget T s.levels i }
    else none

/-! ## The books -/

/-- What a permit stands for at a level: nothing once its stream was evicted. -/
def held (T : Tree) (l : Levels) (b : Nat) (p : Permit) : Nat :=
  if l.isEvicted p.budget then 0 else if b ∈ T.chain p.budget then p.remaining else 0

/-- What the permits under a level have not refunded. -/
def outstanding (T : Tree) (l : Levels) (permits : List Permit) (b : Nat) : Nat :=
  tally (held T l b) permits

/-- A budget that its parent can find. -/
def Attached (T : Tree) (l : Levels) (b : Nat) : Prop :=
  l.dropped b = false ∧ ∀ p, T.parent b = some p → b ∈ l.children p

/-- Registered budgets are found by their parents, and a budget keeps its parent. -/
structure Registry (T : Tree) (l : Levels) : Prop where
  found : ∀ b p, T.parent b = some p → l.registered b = true → l.dropped b = false →
    b ∈ l.children p
  kept : ∀ b p, b < T.size → T.parent b = some p → l.dropped b = false → l.dropped p = false

/-- **The books balance.** -/
structure Sound (T : Tree) (l : Levels) (permits : List Permit) : Prop where
  packed : ∀ b, l.state b < 2 ^ 32 ∨ (l.state b = gone ∧ T.isStream b = true)
  books : ∀ b, l.used b = outstanding T l permits b
  bounded : ∀ b, l.used b ≤ T.max b
  charged : ∀ p ∈ permits, p.generation = 0 ∧ T.isStream p.budget = true ∧ p.budget < T.size
  attached : ∀ p ∈ permits, ∀ b ∈ T.chain p.budget, Attached T l b
  registry : Registry T l
  underflow : l.underflow = false

section
variable {T : Tree} {l l' : Levels} {permits permits' : List Permit}

theorem Sound.isPacked (h : Sound T l permits) : l.Packed :=
  fun b => (h.packed b).imp_right And.left

theorem Sound.lt_of_live (h : Sound T l permits) (hb : l.isEvicted b = false) :
    l.state b < 2 ^ 32 := by
  rcases h.packed b with hlt | ⟨hgone, -⟩
  · exact hlt
  rw [isEvicted_of_gone hgone] at hb
  cases hb

/-- Only the budget of a stream is ever evicted, and nothing is under it. -/
theorem Sound.chain_live (h : Sound T l permits) (hT : T.Layout) (hi : l.isEvicted i = false)
    (hb : b ∈ T.chain i) : l.state b < 2 ^ 32 := by
  rcases h.packed b with hlt | ⟨hgone, hstream⟩
  · exact hlt
  rw [hT.eq_of_mem_chain hstream hb] at hgone
  rw [isEvicted_of_gone hgone] at hi
  cases hi

theorem outstanding_of_evicted (h : ∀ b, l'.isEvicted b = l.isEvicted b) (b) :
    outstanding T l' permits b = outstanding T l permits b := by
  refine tally_congr fun p _ => ?_
  unfold held
  rw [h]

theorem Sound.perm (h : Sound T l permits) (hperm : permits.Perm permits') :
    Sound T l permits' where
  packed := h.packed
  books := fun b => (h.books b).trans (hperm.map _).sum_eq
  bounded := h.bounded
  charged := fun p hp => h.charged p (hperm.mem_iff.mpr hp)
  attached := fun p hp => h.attached p (hperm.mem_iff.mpr hp)
  registry := h.registry
  underflow := h.underflow

/-! ## Registering -/

/-- The registration of budgets changes no state. -/
structure SameState (l l' : Levels) : Prop where
  state : l'.state = l.state
  dropped : l'.dropped = l.dropped
  notices : l'.notices = l.notices
  underflow : l'.underflow = l.underflow
  children : ∀ p, ∀ c ∈ l.children p, c ∈ l'.children p

theorem SameState.refl (l) : SameState l l := ⟨rfl, rfl, rfl, rfl, fun _ _ h => h⟩

theorem SameState.trans (h : SameState l l') (h' : SameState l' l'') : SameState l l'' :=
  ⟨h'.state.trans h.state, h'.dropped.trans h.dropped, h'.notices.trans h.notices,
    h'.underflow.trans h.underflow, fun p c hc => h'.children p c (h.children p c hc)⟩

theorem register_same (l i) : SameState l (register T l i) := by
  unfold register
  split
  · exact .refl l
  rename_i p hp
  split
  · exact .refl l
  refine ⟨rfl, rfl, rfl, rfl, fun q c hc => ?_⟩
  dsimp only
  by_cases hq : q = p
  · subst hq
    rw [update_self]
    exact mem_append_left _ hc
  rw [update_of_ne hq]
  exact hc

theorem register_registry (h : Registry T l) (i) : Registry T (register T l i) := by
  unfold register
  split
  · exact h
  rename_i p hp
  split
  · exact h
  refine ⟨fun b q hq hreg hdrop => ?_, h.kept⟩
  dsimp only at hreg ⊢
  by_cases hb : b = i
  · subst hb
    obtain rfl : p = q := Option.some.inj (hp.symm.trans hq)
    rw [update_self]
    exact mem_append_right _ (mem_singleton_self _)
  rw [update_of_ne hb] at hreg
  have hfound := h.found b q hq hreg hdrop
  by_cases hqp : q = p
  · subst hqp
    rw [update_self]
    exact mem_append_left _ hfound
  rw [update_of_ne hqp]
  exact hfound

theorem register_registered (l) (hp : T.parent i = some p) :
    (register T l i).registered i = true := by
  unfold register
  rw [hp]
  dsimp only
  split
  · assumption
  · exact update_self ..

theorem register_keeps (l i) (hb : l.registered b = true) :
    (register T l i).registered b = true := by
  unfold register
  split
  · exact hb
  split
  · exact hb
  dsimp only
  by_cases heq : b = i
  · subst heq
    exact update_self ..
  rw [update_of_ne heq]
  exact hb

theorem registerAll (bs : List Nat) (l : Levels) (h : Registry T l) :
    SameState l (bs.foldl (register T) l) ∧ Registry T (bs.foldl (register T) l) ∧
      (∀ b, l.registered b = true → (bs.foldl (register T) l).registered b = true) ∧
      ∀ b ∈ bs, ∀ p, T.parent b = some p → (bs.foldl (register T) l).registered b = true := by
  induction bs generalizing l with
  | nil => exact ⟨.refl l, h, fun _ hb => hb, by simp⟩
  | cons b bs ih =>
    obtain ⟨hsame, hreg, hkeeps, hall⟩ := ih (register T l b) (register_registry h b)
    refine ⟨(register_same l b).trans hsame, hreg, fun c hc => hkeeps c (register_keeps l b hc), ?_⟩
    intro c hc p hp
    rcases mem_cons.mp hc with rfl | hc
    · exact hkeeps c (register_registered l hp)
    · exact hall c hc p hp

theorem Registry.chain_kept (h : Registry T l) (hi : i < T.size)
    (hlive : l.dropped i = false) : ∀ b ∈ T.chain i, l.dropped b = false := by
  induction i using Nat.strong_induction_on with
  | _ i ih =>
    intro b hb
    rcases hp : T.parent i with _ | p
    · rw [T.chain_root hp, mem_singleton] at hb
      exact hb ▸ hlive
    have hlt := T.parent_lt hp
    rw [T.chain_child hp, mem_append, mem_singleton] at hb
    rcases hb with hb | rfl
    · exact ih p hlt (by omega) (h.kept i p hi hp hlive) b hb
    · exact hlive

theorem Sound.same (h : Sound T l permits) (hsame : SameState l l') (hreg : Registry T l') :
    Sound T l' permits where
  packed := fun b => by rw [hsame.state]; exact h.packed b
  books := fun b => by
    have hevicted : ∀ c, l'.isEvicted c = l.isEvicted c := fun c => by
      rw [Levels.isEvicted, hsame.state]
      rfl
    rw [outstanding_of_evicted hevicted, ← h.books b, Levels.used, Levels.used, hsame.state]
  bounded := fun b => by
    rw [Levels.used, hsame.state]
    exact h.bounded b
  charged := h.charged
  attached := fun p hp b hb => by
    obtain ⟨hdrop, hfound⟩ := h.attached p hp b hb
    exact ⟨by rw [hsame.dropped]; exact hdrop, fun q hq => hsame.children q b (hfound q hq)⟩
  registry := hreg
  underflow := by rw [hsame.underflow]; exact h.underflow

theorem Sound.ensureRegistered (h : Sound T l permits) (hi : i < T.size)
    (hlive : l.dropped i = false) :
    Sound T (ensureRegistered T l i) permits ∧ SameState l (ensureRegistered T l i) ∧
      ∀ b ∈ T.chain i, Attached T (ensureRegistered T l i) b := by
  obtain ⟨hsame, hreg, -, hall⟩ := registerAll (T.chain i) l h.registry
  refine ⟨h.same hsame hreg, hsame, fun b hb => ?_⟩
  have hdrop : (ReceiveBudget.ensureRegistered T l i).dropped b = false := by
    rw [ReceiveBudget.ensureRegistered, hsame.dropped]
    exact h.registry.chain_kept hi hlive b hb
  exact ⟨hdrop, fun p hp => hreg.found b p hp (hall b hb p hp) hdrop⟩

/-! ## Charging -/

/-- Nothing is evicted or dropped. -/
structure Quiet (l l' : Levels) : Prop where
  evicted : ∀ b, l'.isEvicted b = l.isEvicted b
  dropped : l'.dropped = l.dropped
  notices : l'.notices = l.notices

theorem Quiet.refl (l) : Quiet l l := ⟨fun _ => rfl, rfl, rfl⟩

theorem Quiet.trans (h : Quiet l l') (h' : Quiet l' l'') : Quiet l l'' :=
  ⟨fun b => (h'.evicted b).trans (h.evicted b), h'.dropped.trans h.dropped,
    h'.notices.trans h.notices⟩

theorem SameState.quiet (h : SameState l l') : Quiet l l' :=
  ⟨fun b => by rw [Levels.isEvicted, h.state]; rfl, h.dropped, h.notices⟩

/-- The budgets of `bs` are live before and after, and the others are as they were. -/
structure Moves (l l' : Levels) (bs : List Nat) (f : Nat → Nat) : Prop where
  state : ∀ b, l'.state b = if b ∈ bs then f b else l.state b
  live : ∀ b ∈ bs, l.state b < 2 ^ 32 ∧ f b < 2 ^ 32

theorem Moves.evicted (h : Moves l l' bs f) (b) : l'.isEvicted b = l.isEvicted b := by
  have hstate := h.state b
  split at hstate
  next hb => rw [isEvicted_of_lt (h.live b hb).1, isEvicted_of_lt (hstate ▸ (h.live b hb).2)]
  unfold Levels.isEvicted
  rw [hstate]

theorem Moves.used (h : Moves l l' bs f) (b) : l'.used b = if b ∈ bs then f b else l.used b := by
  have hstate := h.state b
  split_ifs at hstate ⊢ with hb
  · rw [used_of_lt (hstate ▸ (h.live b hb).2), hstate]
  unfold Levels.used
  rw [hstate]

theorem Sound.moved (h : Sound T l permits) (hmoves : Moves l l' bs f) (b) :
    l'.state b < 2 ^ 32 ∨ (l'.state b = gone ∧ T.isStream b = true) := by
  rw [hmoves.state]
  split
  next hb => exact .inl (hmoves.live b hb).2
  · exact h.packed b

theorem charged_moves (hT : T.Layout) {bs length} (htakes : ∀ b ∈ bs, Takes T l length b) :
    Moves l (l.charged length bs) bs fun b => l.state b + length := by
  refine ⟨fun _ => rfl, fun b hb => ?_⟩
  obtain ⟨hlt, _⟩ := htakes b hb
  have := hT.fits b
  omega

theorem refunded_moves {bs count} (hlive : ∀ b ∈ bs, l.state b < 2 ^ 32) :
    Moves l (l.refunded count bs) bs fun b => l.state b - count :=
  ⟨fun _ => rfl, fun b hb => ⟨hlive b hb, (Nat.sub_le ..).trans_lt (hlive b hb)⟩⟩

theorem charged_quiet (hT : T.Layout) {bs length} (htakes : ∀ b ∈ bs, Takes T l length b) :
    Quiet l (l.charged length bs) := ⟨(charged_moves hT htakes).evicted, rfl, rfl⟩

theorem Sound.charge (h : Sound T l permits) (hT : T.Layout) {i length}
    (hstream : T.isStream i = true) (hi : i < T.size) (hattached : ∀ b ∈ T.chain i, Attached T l b)
    (htakes : ∀ b ∈ T.chain i, Takes T l length b) :
    Sound T (l.charged length (T.chain i)) (permits ++ [⟨i, length, 0⟩]) := by
  have hmoves := charged_moves hT htakes
  have hused (b : Nat) : (l.charged length (T.chain i)).used b =
      l.used b + if b ∈ T.chain i then length else 0 := by
    rw [hmoves.used]
    split
    next hb => rw [used_of_lt (htakes b hb).1]
    · rfl
  have hlive : l.isEvicted i = false := isEvicted_of_lt (htakes i (T.mem_chain_self i)).1
  refine ⟨h.moved hmoves, fun b => ?_, fun b => ?_, ?_, ?_, ⟨h.registry.found, h.registry.kept⟩,
    h.underflow⟩
  · rw [hused, h.books b, ← outstanding_of_evicted hmoves.evicted b]
    simp [outstanding, held, hmoves.evicted, hlive]
  · rw [hused]
    split
    next hb =>
      rw [used_of_lt (htakes b hb).1]
      exact (htakes b hb).2
    · exact h.bounded b
  · intro p hp
    rcases mem_append.mp hp with hp | hp
    · exact h.charged p hp
    rw [mem_singleton.mp hp]
    exact ⟨rfl, hstream, hi⟩
  intro p hp b hb
  rcases mem_append.mp hp with hp | hp
  · exact h.attached p hp b hb
  rw [mem_singleton.mp hp] at hb
  exact hattached b hb

/-! ## Refunding -/

variable {p : Permit}

theorem Sound.remaining_le (h : Sound T l permits) (hp : p ∈ permits)
    (hlive : l.isEvicted p.budget = false) (hb : b ∈ T.chain p.budget)
    (hlt : l.state b < 2 ^ 32) : p.remaining ≤ l.state b := by
  have hheld : held T l b p = p.remaining := by rw [held, hlive, if_neg (by decide), if_pos hb]
  rw [← used_of_lt hlt, h.books b, ← hheld]
  exact le_tally hp

theorem refunded_reverse (l : Levels) (count) (bs : List Nat) :
    l.refunded count bs.reverse = l.refunded count bs := by
  unfold Levels.refunded
  congr 1
  funext b
  exact if_congr mem_reverse rfl rfl

/-- **A permit refunds its chain, and nothing once its stream was evicted.** -/
theorem Sound.refundPermit_eq (h : Sound T l permits) (hT : T.Layout) (hp : p ∈ permits) {count}
    (hcount : count ≤ p.remaining) : refundPermit T l p.budget count p.generation =
      if l.isEvicted p.budget then l else l.refunded count (T.chain p.budget) := by
  obtain ⟨hgeneration, -, -⟩ := h.charged p hp
  unfold refundPermit
  by_cases hevicted : l.isEvicted p.budget = true
  · rw [if_pos (.inr hevicted), if_pos hevicted]
  rw [not_eq_true] at hevicted
  have hlive := h.lt_of_live hevicted
  have hcover : ∀ b ∈ (T.chain p.budget).reverse, l.state b < 2 ^ 32 ∧ count ≤ l.state b := by
    intro b hb
    rw [mem_reverse] at hb
    have hlt := h.chain_live hT hevicted hb
    exact ⟨hlt, hcount.trans (h.remaining_le hp hevicted hb hlt)⟩
  rw [← T.ancestors_cons] at hcover
  have hall := refundAll_eq (T.nodup_cons_ancestors p.budget) hcover
  rw [T.ancestors_cons, refunded_reverse, ← T.ancestors_cons] at hall
  rw [if_neg (by rw [generation_of_lt hlive, hgeneration, hevicted]; simp), hevicted,
    if_neg (by decide), ← hall]
  rfl

theorem Sound.refundPermit_quiet (h : Sound T l permits) (hT : T.Layout) (hp : p ∈ permits) {count}
    (hcount : count ≤ p.remaining) : Quiet l (refundPermit T l p.budget count p.generation) := by
  rw [h.refundPermit_eq hT hp hcount]
  split
  · exact .refl l
  rename_i hevicted
  rw [not_eq_true] at hevicted
  exact ⟨(refunded_moves fun b hb => h.chain_live hT hevicted hb).evicted, rfl, rfl⟩

theorem Sound.refund (h : Sound T l permits) (hT : T.Layout) (hp : p ∈ permits)
    {count} (hcount : count ≤ p.remaining)
    (hpermits : ∀ q ∈ permits', ∃ q' ∈ permits, q.budget = q'.budget ∧ q.generation = q'.generation)
    (htally : ∀ b, tally (held T l b) permits' + held T l b { p with remaining := count } =
      tally (held T l b) permits) :
    Sound T (refundPermit T l p.budget count p.generation) permits' := by
  have hcharged : ∀ q ∈ permits', q.generation = 0 ∧ T.isStream q.budget = true ∧
      q.budget < T.size := by
    intro q hq
    obtain ⟨q', hq', hbudget, hgeneration⟩ := hpermits q hq
    rw [hbudget, hgeneration]
    exact h.charged q' hq'
  have hattached : ∀ q ∈ permits', ∀ b ∈ T.chain q.budget, Attached T l b := by
    intro q hq b hb
    obtain ⟨q', hq', hbudget, -⟩ := hpermits q hq
    rw [hbudget] at hb
    exact h.attached q' hq' b hb
  rw [h.refundPermit_eq hT hp hcount]
  by_cases hevicted : l.isEvicted p.budget = true
  · rw [if_pos hevicted]
    refine ⟨h.packed, fun b => ?_, h.bounded, hcharged, hattached, h.registry, h.underflow⟩
    have hb := htally b
    have hzero : held T l b { p with remaining := count } = 0 := by rw [held, if_pos hevicted]
    rw [h.books b, outstanding, outstanding, ← hb, hzero, add_zero]
  rw [if_neg hevicted]
  rw [not_eq_true] at hevicted
  have hmoves := @refunded_moves l _ count fun b hb => h.chain_live hT hevicted hb
  have hused (b : Nat) : (l.refunded count (T.chain p.budget)).used b =
      l.used b - if b ∈ T.chain p.budget then count else 0 := by
    rw [hmoves.used]
    split
    next hb => rw [used_of_lt (hmoves.live b hb).1]
    · rfl
  refine ⟨h.moved hmoves, fun b => ?_, fun b => ?_, hcharged, hattached,
    ⟨h.registry.found, h.registry.kept⟩, h.underflow⟩
  · have hb := htally b
    have hshare : held T l b { p with remaining := count } =
        if b ∈ T.chain p.budget then count else 0 := by
      rw [held, hevicted, if_neg (by decide)]
    rw [hshare] at hb
    rw [hused, h.books b, outstanding_of_evicted hmoves.evicted, outstanding, outstanding, ← hb]
    omega
  rw [hused]
  have := h.bounded b
  omega

theorem Sound.release {pre post} (h : Sound T l (pre ++ p :: post)) (hT : T.Layout) {count}
    (hcount : count ≤ p.remaining) : Sound T (refundPermit T l p.budget count p.generation)
      (pre ++ { p with remaining := p.remaining - count } :: post) := by
  have hp : p ∈ pre ++ p :: post := mem_append_right _ (mem_cons_self ..)
  refine h.refund hT hp hcount (fun q hq => ?_) fun b => ?_
  · rcases mem_append.mp hq with hq | hq
    · exact ⟨q, mem_append_left _ hq, rfl, rfl⟩
    · rcases mem_cons.mp hq with rfl | hq
      · exact ⟨p, hp, rfl, rfl⟩
      · exact ⟨q, mem_append_right _ (mem_cons_of_mem _ hq), rfl, rfl⟩
  have hshare : held T l b { p with remaining := p.remaining - count } +
      held T l b { p with remaining := count } = held T l b p := by
    unfold held
    dsimp only
    split
    · rfl
    split
    · omega
    · rfl
  simp only [tally_append, tally_cons]
  omega

theorem Sound.dropPermit (h : Sound T l (pre ++ p :: post)) (hT : T.Layout) :
    Sound T (refundPermit T l p.budget p.remaining p.generation) (pre ++ post) := by
  have hp : p ∈ pre ++ p :: post := mem_append_right _ (mem_cons_self ..)
  refine h.refund hT hp le_rfl (fun q hq => ?_) fun b => ?_
  · refine ⟨q, ?_, rfl, rfl⟩
    rcases mem_append.mp hq with hq | hq
    · exact mem_append_left _ hq
    · exact mem_append_right _ (mem_cons_of_mem _ hq)
  show tally (held T l b) (pre ++ post) + held T l b p = tally (held T l b) (pre ++ p :: post)
  simp only [tally_append, tally_cons]
  omega

/-! ## Evicting -/

/-- What an eviction leaves: the budget is gone, and the budgets above it have back what was charged
to it. -/
def evictedState (T : Tree) (l : Levels) (i : Nat) : Nat → Nat := fun b =>
  if b = i then gone else if b ∈ T.chain i then l.state b - l.state i else l.state b

def evicted (T : Tree) (l : Levels) (i : Nat) (scope : Scope) : Levels :=
  { l with state := evictedState T l i, notices := l.notices ++ [(i, scope)] }

theorem Sound.own_le (h : Sound T l permits) (hT : T.Layout) (hstream : T.isStream i = true)
    (hlive : l.isEvicted i = false) (hb : b ∈ T.chain i) : l.state i ≤ l.state b := by
  rw [← used_of_lt (h.lt_of_live hlive), ← used_of_lt (h.chain_live hT hlive hb), h.books i,
    h.books b]
  refine tally_mono fun p _ => ?_
  unfold held
  split
  · exact le_rfl
  split
  next hi =>
    rw [hT.eq_of_mem_chain hstream hi] at hb
    rw [if_pos hb]
  · exact Nat.zero_le _

theorem mem_ancestors : b ∈ T.ancestors i ↔ b ≠ i ∧ b ∈ T.chain i := by
  obtain ⟨hself, -⟩ := nodup_cons.mp (T.nodup_cons_ancestors i)
  rw [← @mem_reverse _ b (T.chain i), ← T.ancestors_cons, mem_cons]
  exact ⟨fun hb => ⟨fun heq => hself (heq ▸ hb), .inr hb⟩, fun hb => hb.2.resolve_left hb.1⟩

theorem Sound.evict_eq (h : Sound T l permits) (hT : T.Layout) (hstream : T.isStream i = true)
    (hlive : l.isEvicted i = false) (scope) : evict T l i scope = evicted T l i scope := by
  have hlt := h.lt_of_live hlive
  have hshift : l.state i >>> 32 = 0 := by rw [Nat.shiftRight_eq_div_pow, Nat.div_eq_of_lt hlt]
  have hgone : budgetEvicted ||| ((l.state i >>> 32 + 1) <<< 32) % 2 ^ 64 = gone := by
    rw [hshift]
    decide
  have hrefund : (l.setState i gone).refundAll (l.state i) (T.ancestors i) =
      { l with state := evictedState T l i } := by
    rw [refundAll_eq (nodup_cons.mp (T.nodup_cons_ancestors i)).2]
    · unfold Levels.refunded Levels.setState evictedState
      congr 1
      funext b
      by_cases hb : b = i
      · subst hb
        simp [mem_ancestors]
      · simp [mem_ancestors, hb]
    intro b hb
    obtain ⟨hne, hmem⟩ := mem_ancestors.mp hb
    simp only [Levels.setState, update_of_ne hne]
    exact ⟨h.chain_live hT hlive hmem, h.own_le hT hstream hlive hmem⟩
  have hzero (hr : l.state i = 0) : l.setState i gone = { l with state := evictedState T l i } := by
    unfold Levels.setState evictedState
    congr 1
    funext b
    by_cases hb : b = i
    · subst hb
      simp
    · simp [hb, hr]
  unfold evict evicted
  rw [hlive, if_neg (by decide), used_of_lt hlt, hgone]
  rcases htarget : T.eviction i with _ | _
  · simp [Tree.isStream, htarget] at hstream
  dsimp only
  by_cases hr : 0 < l.state i
  · rw [if_pos hr, hrefund]
  · rw [if_neg hr, hzero (by omega)]

/-- What the permits of one stream stand for. -/
def ownHeld (T : Tree) (l : Levels) (i b : Nat) (p : Permit) : Nat :=
  if p.budget = i then held T l b p else 0

section
variable (h : Sound T l permits)
include h

section
variable (hT : T.Layout)
include hT

theorem Sound.evicted_spec (hlive : l.isEvicted i = false) (scope b) :
    (evicted T l i scope).isEvicted b = (decide (b = i) || l.isEvicted b) ∧
      (evicted T l i scope).used b =
        if b = i then 0 else l.used b - if b ∈ T.chain i then l.state i else 0 := by
  have hstate : (evicted T l i scope).state b = if b = i then gone
      else if b ∈ T.chain i then l.state b - l.state i else l.state b := rfl
  by_cases hb : b = i
  · rw [if_pos hb] at hstate
    rw [isEvicted_of_gone hstate, used_of_gone hstate]
    simp [hb]
  rw [if_neg hb] at hstate
  by_cases hmem : b ∈ T.chain i
  · have hlt := h.chain_live hT hlive hmem
    rw [if_pos hmem] at hstate
    have hlt' : (evicted T l i scope).state b < 2 ^ 32 := by omega
    rw [isEvicted_of_lt hlt, isEvicted_of_lt hlt', used_of_lt hlt, used_of_lt hlt', hstate]
    simp [hb, hmem]
  rw [if_neg hmem] at hstate
  unfold Levels.isEvicted Levels.used
  rw [hstate]
  simp [hb, hmem]

/-- What is evicted is what the stream's permits stood for, at every level above it. -/
theorem Sound.outstanding_evicted (hstream : T.isStream i = true)
    (hlive : l.isEvicted i = false) (scope b) :
    outstanding T l permits b = outstanding T (evicted T l i scope) permits b +
      if b ∈ T.chain i then l.state i else 0 := by
  have hsplit : outstanding T l permits b =
      outstanding T (evicted T l i scope) permits b + tally (ownHeld T l i b) permits := by
    rw [outstanding, outstanding, ← tally_add]
    refine tally_congr fun p _ => ?_
    unfold held ownHeld
    rw [(h.evicted_spec hT hlive scope p.budget).1]
    by_cases hp : p.budget = i
    · simp [hp, held]
    · simp [hp]
  rw [hsplit]
  congr 1
  by_cases hb : b ∈ T.chain i
  · rw [if_pos hb, ← used_of_lt (h.lt_of_live hlive), h.books i]
    refine tally_congr fun p _ => ?_
    unfold ownHeld held
    by_cases hp : p.budget = i
    · simp [hp, hb, T.mem_chain_self i]
    have hi : i ∉ T.chain p.budget := fun hmem => hp (hT.eq_of_mem_chain hstream hmem).symm
    simp [hp, hi]
  rw [if_neg hb]
  have hzero : tally (ownHeld T l i b) permits = tally (fun _ => 0) permits := by
    refine tally_congr fun p _ => ?_
    unfold ownHeld held
    by_cases hp : p.budget = i
    · simp [hp, hb]
    · simp [hp]
  rw [hzero]
  simp [tally]

theorem Sound.evictLive (hstream : T.isStream i = true)
    (hlive : l.isEvicted i = false) (scope) : Sound T (evict T l i scope) permits := by
  rw [h.evict_eq hT hstream hlive scope]
  refine ⟨fun b => ?_, fun b => ?_, fun b => ?_, h.charged, h.attached,
    ⟨h.registry.found, h.registry.kept⟩, h.underflow⟩
  · show evictedState T l i b < _ ∨ evictedState T l i b = _ ∧ _
    unfold evictedState
    split
    next hb => exact .inr ⟨rfl, hb ▸ hstream⟩
    split
    next hb =>
      have := h.chain_live hT hlive hb
      exact .inl (by omega)
    · exact h.packed b
  · have hbooks := h.outstanding_evicted hT hstream hlive scope b
    rw [← h.books b] at hbooks
    rw [(h.evicted_spec hT hlive scope b).2]
    split
    next hb =>
      rw [hb, if_pos (T.mem_chain_self i), used_of_lt (h.lt_of_live hlive)] at hbooks
      rw [hb]
      omega
    · omega
  have := h.bounded b
  rw [(h.evicted_spec hT hlive scope b).2]
  split <;> omega

theorem Sound.evict (hstream : T.isStream i = true) (scope) : Sound T
    (evict T l i scope) permits := by
  by_cases hlive : l.isEvicted i = true
  · rw [ReceiveBudget.evict, if_pos hlive]
    exact h
  rw [not_eq_true] at hlive
  exact h.evictLive hT hstream hlive scope

end

end

/-! ## The victim -/

theorem largest_mem (h : largest xs = some a) : a ∈ xs := by
  induction xs generalizing a with
  | nil => cases h
  | cons x xs ih =>
    rw [largest] at h
    split at h
    · cases h
      exact mem_cons_self ..
    rename_i b hb
    split at h <;> cases h
    · exact mem_cons_self ..
    exact mem_cons_of_mem _ (ih hb)

theorem largestLeafWithin_leaf (h : largestLeafWithin l fuel i = some (v, u)) :
    l.isEvicted v = false ∧ u = l.used v ∧ ∀ c ∈ l.children v, l.dropped c = true := by
  induction fuel generalizing i v u with
  | zero => cases h
  | succ fuel ih =>
    rw [largestLeafWithin] at h
    split at h
    next hempty =>
      obtain ⟨hlive, ⟨⟩⟩ := ite_none_left_eq_some.mp h
      refine ⟨by simpa using hlive, rfl, fun c hc => ?_⟩
      have hnone := filter_eq_nil_iff.mp (isEmpty_iff.mp hempty) c hc
      simpa using hnone
    obtain ⟨c, -, hc⟩ := mem_filterMap.mp (largest_mem h)
    exact ih hc

/-- **A victim is a stream.** Something is charged to it that is charged to none of its children. -/
theorem Sound.victim (h : Sound T l permits) (hv : largestLeaf T l i = some (v, u)) (hu : 0 < u) :
    l.isEvicted v = false ∧ ∃ p ∈ permits, p.budget = v := by
  obtain ⟨hlive, hused, hchildren⟩ := largestLeafWithin_leaf hv
  refine ⟨hlive, ?_⟩
  rw [hused, h.books v] at hu
  obtain ⟨p, hp, hpos⟩ := exists_of_tally_pos hu
  refine ⟨p, hp, ?_⟩
  have hmem : v ∈ T.chain p.budget := by
    unfold held at hpos
    split at hpos
    · omega
    split at hpos
    · assumption
    · omega
  by_contra hne
  obtain ⟨c, hc, hparent⟩ := T.child_of_mem_chain hmem (Ne.symm hne)
  obtain ⟨hdrop, hfound⟩ := h.attached p hp c hc
  rw [hchildren c (hfound v hparent)] at hdrop
  cases hdrop

/-- The permits that still stand for something. -/
def standing (l : Levels) (permits : List Permit) : Nat :=
  tally (fun p => if l.isEvicted p.budget then 0 else 1) permits

theorem standing_le (l permits) : standing l permits ≤ permits.length := by
  induction permits with
  | nil => exact le_rfl
  | cons p ps ih =>
    have hp : (if l.isEvicted p.budget = true then 0 else 1) ≤ 1 := by split <;> omega
    unfold standing at ih ⊢
    rw [tally_cons, length_cons]
    omega

theorem Sound.standing_evict (h : Sound T l permits) (hT : T.Layout) (hlive : l.isEvicted i = false)
    (hholds : ∃ p ∈ permits, p.budget = i) (scope) :
    standing (ReceiveBudget.evict T l i scope) permits < standing l permits := by
  obtain ⟨p, hp, hbudget⟩ := hholds
  have hstream : T.isStream i = true := hbudget ▸ (h.charged p hp).2.1
  rw [h.evict_eq hT hstream hlive scope]
  have hsplit : standing l permits = standing (evicted T l i scope) permits +
      tally (fun q => if q.budget = i then 1 else 0) permits := by
    rw [standing, standing, ← tally_add]
    refine tally_congr fun q _ => ?_
    rw [(h.evicted_spec hT hlive scope q.budget).1]
    by_cases hq : q.budget = i
    · simp [hq, hlive]
    · simp [hq]
  have hone := le_tally (f := fun q : Permit => if q.budget = i then 1 else 0) hp
  rw [if_pos hbudget] at hone
  omega

/-- Who gives way: the stream that is charged, or the one that holds more than it would. -/
def pick (T : Tree) (l : Levels) (i blocked length : Nat) : Nat :=
  match largestLeaf T l blocked with
  | none => i
  | some (v, used) => if v = i ∨ used ≤ min (l.used i + length) usizeMax then i else v

theorem evictStalled_eq (l i blocked length scope) : (evictStalled T l i blocked scope length).2 =
      evict T l (pick T l i blocked length) scope := by
  unfold evictStalled pick
  rcases largestLeaf T l blocked with _ | _
  · rfl
  dsimp only
  split <;> rfl

theorem Sound.pick_holds (h : Sound T l permits) (i blocked length) :
    pick T l i blocked length = i ∨ ∃ p ∈ permits, p.budget = pick T l i blocked length := by
  unfold pick
  split
  · exact .inl rfl
  rename_i v used hv
  split
  · exact .inl rfl
  rename_i hother
  obtain ⟨-, _⟩ := not_or.mp hother
  exact .inr (h.victim hv (by omega)).2

theorem Sound.evictStalled (h : Sound T l permits) (hT : T.Layout) {i blocked length}
    (hstream : T.isStream i = true) (scope) :
    Sound T (evictStalled T l i blocked scope length).2 permits ∧
      ((evictStalled T l i blocked scope length).1 = false →
        standing (evictStalled T l i blocked scope length).2 permits < standing l permits) := by
  unfold ReceiveBudget.evictStalled
  dsimp only
  split
  · exact ⟨h.evict hT hstream scope, nofun⟩
  rename_i victim used hvictim
  split
  · exact ⟨h.evict hT hstream scope, nofun⟩
  rename_i hother
  obtain ⟨-, _⟩ := not_or.mp hother
  obtain ⟨hlive, hholds⟩ := h.victim hvictim (by omega)
  obtain ⟨p, hp, hbudget⟩ := id hholds
  have hvstream : T.isStream victim = true := hbudget ▸ (h.charged p hp).2.1
  exact ⟨h.evict hT hvstream scope, fun _ => h.standing_evict hT hlive hholds scope⟩

/-! ## The loop of `track` -/

theorem evict_registry (l i scope) : (evict T l i scope).dropped = l.dropped ∧
      (evict T l i scope).children = l.children := by
  have hrefund (count : Nat) (bs : List Nat) (l : Levels) :
      (l.refundAll count bs).dropped = l.dropped ∧
        (l.refundAll count bs).children = l.children := by
    induction bs generalizing l with
    | nil => exact ⟨rfl, rfl⟩
    | cons b bs ih => exact ih (l.refundOne count b)
  unfold evict
  split
  · exact ⟨rfl, rfl⟩
  dsimp only
  split <;> split
  · exact hrefund ..
  · exact ⟨rfl, rfl⟩
  · exact hrefund ..
  · exact ⟨rfl, rfl⟩

theorem evictStalled_registry (l i blocked length scope) :
    (evictStalled T l i blocked scope length).2.dropped = l.dropped ∧
      (evictStalled T l i blocked scope length).2.children = l.children := by
  rw [evictStalled_eq]
  exact evict_registry ..

/-- What `track` leaves. -/
def Tracked (T : Tree) (permits : List Permit) : Except Scope Permit × Levels → Prop
  | (.ok permit, l) => Sound T l (permits ++ [permit])
  | (.error _, l) => Sound T l permits

/-- **The loop ends.** Each turn but the last evicts a stream that holds something. -/
theorem trackLoop_ends (hT : T.Layout) {i length} (hstream : T.isStream i = true) (hi : i < T.size)
    : ∀ (fuel : Nat) (l : Levels), Sound T l permits → (∀ b ∈ T.chain i, Attached T l b) →
      standing l permits < fuel →
      ∃ r, trackLoop T i length fuel l = some r ∧ Tracked T permits r
  | 0, _, _, _, hfuel => absurd hfuel (Nat.not_lt_zero _)
  | fuel + 1, l, h, hattached, hfuel => by
    rw [trackLoop]
    rcases tryCharge_spec hT.fits h.isPacked i length with ⟨hok, htakes⟩ | ⟨b, -, hblocked⟩
    · rw [hok]
      exact ⟨_, rfl, h.charge hT hstream hi hattached htakes⟩
    rw [hblocked]
    dsimp only
    rw [hblocked]
    dsimp only
    have hsound := @Sound.evictStalled _ _ _ h hT i b length hstream (scopeOf T i b)
    have hregistry := evictStalled_registry (T := T) l i b length (scopeOf T i b)
    revert hsound hregistry
    generalize evictStalled T l i b (scopeOf T i b) length = r
    rintro ⟨hsound, hless⟩ ⟨hdropped, hchildren⟩
    obtain ⟨own, l'⟩ := r
    cases own with
    | true => exact ⟨_, rfl, hsound⟩
    | false =>
      have hlt : standing l' permits < standing l permits := hless rfl
      refine trackLoop_ends hT hstream hi fuel l' hsound (fun c hc => ?_) ?_
      · obtain ⟨hdrop, hfound⟩ := hattached c hc
        exact ⟨by rw [hdropped]; exact hdrop, fun p hp => by rw [hchildren]; exact hfound p hp⟩
      · omega

theorem Sound.track (h : Sound T l permits) (hT : T.Layout) {i length}
    (hstream : T.isStream i = true) (hi : i < T.size) (hlive : l.dropped i = false) :
    ∃ r, track T (permits.length + 1) l i length = some r ∧ Tracked T permits r := by
  obtain ⟨hsound, -, hattached⟩ := h.ensureRegistered hi hlive
  refine trackLoop_ends hT hstream hi _ _ hsound hattached ?_
  have := standing_le (ReceiveBudget.ensureRegistered T l i) permits
  omega

theorem trackLoop_permit {i length} : ∀ {fuel l l' permit},
      trackLoop T i length fuel l = some (.ok permit, l') →
      permit.budget = i ∧ permit.remaining = length
  | 0, _, _, _, h => by cases h
  | fuel + 1, l, l', permit, h => by
    rw [trackLoop] at h
    split at h
    · cases h
      exact ⟨rfl, rfl⟩
    split at h
    · cases h
      exact ⟨rfl, rfl⟩
    split at h
    · cases h
    · exact trackLoop_permit h

theorem Sound.tryTrack (h : Sound T l permits) (hT : T.Layout) {i length}
    (hstream : T.isStream i = true) (hi : i < T.size) (hlive : l.dropped i = false) :
    (tryTrack T l i length = (.ok ⟨i, length, 0⟩,
        (ReceiveBudget.ensureRegistered T l i).charged length (T.chain i)) ∧
      l.isEvicted i = false ∧
      Sound T ((ReceiveBudget.ensureRegistered T l i).charged length (T.chain i))
        (permits ++ [⟨i, length, 0⟩])) ∨
    ∃ refused, tryTrack T l i length = (.error refused, ReceiveBudget.ensureRegistered T l i) := by
  obtain ⟨hsound, hsame, hattached⟩ := h.ensureRegistered hi hlive
  unfold ReceiveBudget.tryTrack
  rcases tryCharge_spec hT.fits hsound.isPacked i length with ⟨hok, htakes⟩ | ⟨b, -, hblocked⟩
  · rw [hok]
    have hevicted := isEvicted_of_lt (htakes i (T.mem_chain_self i)).1
    rw [hsame.quiet.evicted] at hevicted
    exact .inl ⟨rfl, hevicted, hsound.charge hT hstream hi hattached htakes⟩
  rw [hblocked]
  exact .inr ⟨_, rfl⟩

theorem Sound.tryTrack_quiet (h : Sound T l permits) (hT : T.Layout) (hi : i < T.size)
    (hlive : l.dropped i = false) (length) : Quiet l (ReceiveBudget.tryTrack T l i length).2 := by
  obtain ⟨hsound, hsame, -⟩ := h.ensureRegistered hi hlive
  unfold ReceiveBudget.tryTrack
  rcases tryCharge_spec hT.fits hsound.isPacked i length with ⟨hok, htakes⟩ | ⟨b, -, hblocked⟩
  · rw [hok]
    exact hsame.quiet.trans (charged_quiet hT htakes)
  rw [hblocked]
  exact hsame.quiet

/-! ## Dropping -/

theorem dropBudget_dropped (l) (h : c ≠ i) :
    (dropBudget T l i).dropped c = l.dropped c := update_of_ne h ..

theorem Sound.dropBudget (h : Sound T l permits) (hunowned : unowned T ⟨l, permits⟩ i = true) :
    Sound T (dropBudget T l i) permits := by
  have ⟨hall, hrange⟩ := and_eq_true_iff.mp hunowned
  have hpermits (p) (hp : p ∈ permits) : p.budget ≠ i := by simpa using all_eq_true.mp hall p hp
  have hchildren (j) (hj : j < T.size) (hparent : T.parent j = some i) : l.dropped j = true := by
    simpa [hparent] using all_eq_true.mp hrange j (mem_range.mpr hj)
  have hlive (b : Nat) (h : (ReceiveBudget.dropBudget T l i).dropped b = false) :
      b ≠ i ∧ l.dropped b = false := by
    change Function.update l.dropped i true b = false at h
    rw [update_apply] at h
    split at h
    · cases h
    · exact ⟨‹_›, h⟩
  have hkeeps (p c : Nat) (hc : c ∈ l.children p) (hne : c ≠ i) :
      c ∈ (ReceiveBudget.dropBudget T l i).children p := by
    unfold ReceiveBudget.dropBudget
    rcases T.parent i with _ | q
    · exact hc
    dsimp only
    split
    swap
    · exact hc
    by_cases hp : p = q
    · subst hp
      rw [update_self, mem_filter]
      exact ⟨hc, by simpa using hne⟩
    rw [update_of_ne hp]
    exact hc
  have hchain : ∀ p ∈ permits, i ∉ T.chain p.budget := by
    intro p hp hmem
    obtain ⟨c, hc, hparent⟩ := T.child_of_mem_chain hmem (Ne.symm (hpermits p hp))
    have hsize : c < T.size := (T.le_of_mem_chain hc).trans_lt (h.charged p hp).2.2
    cases (hchildren c hsize hparent).symm.trans (h.attached p hp c hc).1
  refine ⟨h.packed, h.books, h.bounded, h.charged, ?_, ⟨?_, ?_⟩, h.underflow⟩
  · intro p hp b hb
    obtain ⟨hdrop, hfound⟩ := h.attached p hp b hb
    have hne : b ≠ i := fun heq => hchain p hp (heq ▸ hb)
    exact ⟨(dropBudget_dropped l hne).trans hdrop, fun q hq => hkeeps q b (hfound q hq) hne⟩
  · intro b p hp hreg hdrop
    obtain ⟨hne, hdrop⟩ := hlive b hdrop
    exact hkeeps p b (h.registry.found b p hp hreg hdrop) hne
  intro b p hsize hp hdrop
  obtain ⟨_, hdrop⟩ := hlive b hdrop
  have hpi : p ≠ i := fun heq => nomatch (hchildren b hsize (heq ▸ hp)).symm.trans hdrop
  exact (dropBudget_dropped l hpi).trans (h.registry.kept b p hsize hp hdrop)

end

/-- Only budgets of streams are charged. -/
def ChargesStream (T : Tree) : Action → Bool
  | .tryTrack i _ => T.isStream i
  | .track i _ => T.isStream i
  | .evictStalled i _ _ _ => T.isStream i
  | _ => true

section
variable {T : Tree} {s s' : State}

theorem usable_iff : usable T s i = true ↔ i < T.size ∧ s.levels.dropped i = false := by
  simp [usable]

theorem Sound.next (h : Sound T s.levels s.permits) (hT : T.Layout) (ha : ChargesStream T a = true)
    (hnext : next T s a = some s') : Sound T s'.levels s'.permits := by
  cases a with
  | tryTrack i length =>
    obtain ⟨husable, hnext⟩ := ite_none_right_eq_some.mp hnext
    obtain ⟨hi, hlive⟩ := usable_iff.mp husable
    rcases @Sound.tryTrack _ _ _ h hT _ length ha hi hlive with
      ⟨hok, -, hsound⟩ | ⟨refused, hrefused⟩
    · rw [hok] at hnext
      cases hnext
      exact hsound
    rw [hrefused] at hnext
    cases hnext
    exact (h.ensureRegistered hi hlive).1
  | track i length =>
    obtain ⟨husable, hnext⟩ := ite_none_right_eq_some.mp hnext
    obtain ⟨hi, hlive⟩ := usable_iff.mp husable
    obtain ⟨⟨result, l⟩, hr, htracked⟩ := @Sound.track _ _ _ h hT _ length ha hi hlive
    rw [hr] at hnext
    cases result with
    | ok | error =>
      cases hnext
      exact htracked
  | evictStalled i blocked scope =>
    obtain ⟨-, ⟨⟩⟩ := ite_none_right_eq_some.mp hnext
    exact (h.evictStalled hT ha scope).1
  | release =>
    rw [BudgetBooks.next] at hnext
    split at hnext
    · cases hnext
    rename_i p hp
    obtain ⟨hcount, ⟨⟩⟩ := ite_none_right_eq_some.mp hnext
    obtain ⟨hk, rfl⟩ := List.getElem?_eq_some_iff.mp hp
    rw [set_eq_take_append_cons_drop, if_pos hk]
    refine Sound.release ?_ hT hcount
    rw [getElem_cons_drop, take_append_drop]
    exact h
  | dropPermit =>
    rw [BudgetBooks.next] at hnext
    split at hnext <;> cases hnext
    rename_i p hp
    obtain ⟨_, rfl⟩ := List.getElem?_eq_some_iff.mp hp
    rw [eraseIdx_eq_take_drop_succ]
    refine Sound.dropPermit ?_ hT
    rw [getElem_cons_drop, take_append_drop]
    exact h
  | dropBudget =>
    obtain ⟨hguard, ⟨⟩⟩ := ite_none_right_eq_some.mp hnext
    obtain ⟨-, hunowned⟩ := and_eq_true_iff.mp hguard
    exact h.dropBudget hunowned

/-- What releases a part of a permit, drops one or tries to charge evicts and drops no budget. -/
def Action.isQuiet : Action → Bool
  | .tryTrack _ _ => true
  | .release _ _ => true
  | .dropPermit _ => true
  | _ => false

theorem Sound.next_quiet (h : Sound T s.levels s.permits) (hT : T.Layout) (ha : a.isQuiet = true)
    (hnext : BudgetBooks.next T s a = some s') : Quiet s.levels s'.levels := by
  cases a with
  | tryTrack i length =>
    obtain ⟨husable, hnext⟩ := ite_none_right_eq_some.mp hnext
    obtain ⟨hi, hlive⟩ := usable_iff.mp husable
    have hquiet := h.tryTrack_quiet hT hi hlive length
    split at hnext
    next permit l hok =>
      rw [hok] at hquiet
      cases hnext
      exact hquiet
    rename_i refused l hrefused
    rw [hrefused] at hquiet
    cases hnext
    exact hquiet
  | release =>
    rw [BudgetBooks.next] at hnext
    split at hnext
    · cases hnext
    rename_i p hp
    obtain ⟨hcount, ⟨⟩⟩ := ite_none_right_eq_some.mp hnext
    exact h.refundPermit_quiet hT (mem_of_getElem? hp) hcount
  | dropPermit =>
    rw [BudgetBooks.next] at hnext
    split at hnext <;> cases hnext
    rename_i p hp
    exact h.refundPermit_quiet hT (mem_of_getElem? hp) le_rfl
  | track | evictStalled | dropBudget => cases ha

/-- The budget that an action charges. -/
def Action.charged : Action → Option Nat
  | .tryTrack i _ => some i
  | .track i _ => some i
  | _ => none

theorem next_permits (h : next T s a = some s') :
    ∀ p ∈ s'.permits, (∃ p₀ ∈ s.permits, p.budget = p₀.budget) ∨ a.charged = some p.budget := by
  have hsame : ∀ p ∈ s.permits, (∃ p₀ ∈ s.permits, p.budget = p₀.budget) ∨
      a.charged = some p.budget := fun p hp => .inl ⟨p, hp, rfl⟩
  cases a with
  | tryTrack =>
    obtain ⟨-, h⟩ := ite_none_right_eq_some.mp h
    split at h <;> cases h
    swap
    · exact hsame
    rename_i permit l hok
    intro p hp
    rcases mem_append.mp hp with hp | hp
    · exact hsame p hp
    rw [mem_singleton.mp hp]
    unfold tryTrack at hok
    split at hok <;> cases hok
    exact .inr rfl
  | track =>
    obtain ⟨-, h⟩ := ite_none_right_eq_some.mp h
    split at h <;> cases h
    next permit l hok =>
      intro p hp
      rcases mem_append.mp hp with hp | hp
      · exact hsame p hp
      rw [mem_singleton.mp hp, (trackLoop_permit hok).1]
      exact .inr rfl
    · exact hsame
  | evictStalled | dropBudget =>
    obtain ⟨-, ⟨⟩⟩ := ite_none_right_eq_some.mp h
    exact hsame
  | release =>
    rw [next] at h
    split at h
    · cases h
    rename_i p hp
    split at h <;> cases h
    intro q hq
    rcases mem_or_eq_of_mem_set hq with hq | rfl
    · exact hsame q hq
    · exact .inl ⟨p, mem_of_getElem? hp, rfl⟩
  | dropPermit =>
    rw [next] at h
    split at h <;> cases h
    exact fun q hq => hsame q (mem_of_mem_eraseIdx hq)

theorem Sound.new (T) : Sound T .new [] where
  packed := fun _ => .inl (Nat.two_pow_pos 32)
  books := fun b => by simp [outstanding, Levels.used, Levels.new]
  bounded := fun b => by simp [Levels.used, Levels.new]
  charged := nofun
  attached := nofun
  registry := ⟨nofun, fun _ _ _ _ _ => rfl⟩
  underflow := rfl

end

/-- **Hierarchical accounting.** Where only streams are charged and no maximum takes more than 32
bits, after any sequence of charges, releases, evictions and drops: what each budget has in use is
what the permits under it, of streams that were not evicted, have not refunded; it is never more
than its maximum; no refund is larger than what was charged. And then a permit of an evicted stream
refunds nothing; a charge that is refused leaves every level as it was; and the loop of `track`
ends. -/
theorem budgets_balance (T : Tree) (hT : T.Layout) (actions : List Action)
    (hstreams : ∀ a ∈ actions, ChargesStream T a = true) (s : State)
    (hrun : run (next T) .new actions = some s) :
    (∀ b, s.levels.used b = outstanding T s.levels s.permits b ∧ s.levels.used b ≤ T.max b) ∧
    s.levels.underflow = false ∧ (∀ p ∈ s.permits, s.levels.isEvicted p.budget = true → ∀ count,
      refundPermit T s.levels p.budget count p.generation = s.levels) ∧
    (∀ i length b l, tryCharge T s.levels i length = (.blocked b, l) → l = s.levels) ∧
    (∀ i length, usable T s i = true → T.isStream i = true →
      (track T (s.permits.length + 1) s.levels i length).isSome = true) := by
  have hsound := @run_invariant _ _ (next T) _ (fun s => Sound T s.levels s.permits)
    (fun _ _ _ ha hi hnext => hi.next hT ha hnext) actions _ s
    (throughout_of_forall actions _ hstreams) (Sound.new T) hrun
  refine ⟨fun b => ⟨hsound.books b, hsound.bounded b⟩, hsound.underflow, ?_, ?_, ?_⟩
  · intro p _ hevicted count
    rw [refundPermit, if_pos (.inr hevicted)]
  · intro i length b l hblocked
    rcases tryCharge_spec hT.fits hsound.isPacked i length with ⟨hok, -⟩ | ⟨c, -, hback⟩
    · cases hok.symm.trans hblocked
    cases hback.symm.trans hblocked
    rfl
  intro i length husable hstream
  obtain ⟨hi, hlive⟩ := usable_iff.mp husable
  obtain ⟨r, hr, -⟩ := @Sound.track _ _ _ hsound hT _ length hstream hi hlive
  rw [hr]
  rfl

/-- A listener, a session and two streams. -/
def smallTree : Tree where
  size := 4
  parent := fun i => match i with
    | 1 => some 0
    | 2 => some 1
    | 3 => some 1
    | _ => none
  parent_lt := by
    intro i p h
    split at h <;> cases h <;> decide
  max := fun i => match i with
    | 0 => 10
    | 1 => 8
    | _ => 6
  eviction := fun i => match i with
    | 2 => some 7
    | 3 => some 9
    | _ => none

theorem smallTree_layout : smallTree.Layout where
  fits := by
    intro i
    unfold smallTree
    dsimp only
    split <;> decide
  leaves := by
    intro i p h
    unfold smallTree at h
    dsimp only at h
    split at h <;> cases h <;> rfl

/-- The stream that holds most gives way, and its permit refunds nothing then. -/
def givesWay : List Action := [.tryTrack 2 5, .track 3 4, .release 0 2]

theorem budgets_balance_eviction : ∃ s, run (next smallTree) .new givesWay = some s ∧
      s.levels.isEvicted 2 = true ∧ s.levels.used 0 = 4 ∧ s.permits = [⟨2, 3, 0⟩, ⟨3, 4, 0⟩] ∧
      (∀ b, s.levels.used b = outstanding smallTree s.levels s.permits b ∧
        s.levels.used b ≤ smallTree.max b) ∧
      s.levels.underflow = false := by
  have hrun : ∃ s, run (next smallTree) .new givesWay = some s := ⟨_, rfl⟩
  obtain ⟨s, hs⟩ := hrun
  obtain ⟨hbooks, hunderflow, -⟩ :=
    budgets_balance smallTree smallTree_layout givesWay (by decide) s hs
  cases hs
  exact ⟨_, rfl, rfl, rfl, rfl, hbooks, hunderflow⟩

/-- **A budget with others under it must not be charged.** The session's own budget is charged and
gives way: it is set to nothing while the permit of the stream under it is outstanding, and when
that is released, more is refunded than was charged. -/
theorem session_charge_unbalances :
    ∃ s s', run (next smallTree) .new [.tryTrack 2 5, .track 1 20] = some s ∧
      s.levels.used 1 = 0 ∧ outstanding smallTree s.levels s.permits 1 = 5 ∧
      next smallTree s (.release 0 5) = some s' ∧ s'.levels.underflow = true :=
  ⟨_, _, rfl, rfl, rfl, rfl, rfl⟩

end Shoes.Transport.BudgetBooks
