import Mathlib.Data.List.Dedup
import Shoes.V2board.Alive
import Shoes.V2board.TrackerBooks

/-! # The device limit

A connection is admitted if its source address is counted already or the limit allows another, and
it takes itself off the count when it closes. An update that removes a user forgets the counts while
connections of that user may still be open. -/
namespace Shoes.V2board.DeviceLimit
open Lib.Assoc Lib.Tally RuntimeModel Alive List Lib.Machine
open Alive.TrackerState
open TrackerBooks (shard shardCount)

/-- A connection that is open. It is `counted` until its user is removed, and it is `fresh` until its
user is added again. -/
structure Connection where
  node : String
  uid : UInt64
  ip : IpAddr
  counted : Bool
  fresh : Bool
  deriving DecidableEq

/-- The connection is one of those that the tracker counts for an address. -/
def Connection.isCounted (c : Connection) (node : String) (uid : UInt64) (ip : IpAddr) : Bool :=
  c.node = node ∧ c.uid = uid ∧ c.ip = ip ∧ c.counted = true

/-- What was found when a connection was admitted: whether it is from a new address, and how many
addresses its user was connected from. -/
structure Admission where
  node : String
  uid : UInt64
  isNew : Bool
  others : Nat
  deriving DecidableEq

/-- `admissions` and the flags of a connection only record what has happened. -/
structure State (n : Nat) where
  shards : Fin n → TrackerState
  connections : List Connection
  admissions : List Admission

inductive Action
  | connect (node : String) (uid : UInt64) (ip : IpAddr) (deviceLimit : Option Nat)
  | close (connection : Nat)
  | reconcileUsers (node : String) (activeUids : List UInt64) (shard : Nat)
  | removeUser (node : String) (uid : UInt64)
  | addUser (node : String) (uid : UInt64)
  | replacePanelAlive (node : String) (shard : Nat) (subset : Map UInt64 Nat)

namespace State
variable {n : Nat}

def new (n : Nat) : State n := ⟨fun _ => .empty, [], []⟩

def setShard (s : State n) (j : Fin n) (state : TrackerState) : State n :=
  { s with shards := Function.update s.shards j state }

def forget (s : State n) (gone : Connection → Bool) : State n :=
  { s with
    connections := s.connections.map fun c => if gone c then { c with counted := false } else c }

/-- The addresses a user has connections from that were admitted since the user was last added. -/
def freshIps (s : State n) (node : String) (uid : UInt64) : List IpAddr :=
  ((s.connections.filter fun c => c.node = node ∧ c.uid = uid ∧ c.fresh = true).map (·.ip)).dedup

def counted (s : State n) (node : String) (uid : UInt64) (ip : IpAddr) : Nat :=
  tally (fun c => if c.isCounted node uid ip then 1 else 0) s.connections

end State

section
variable {n : Nat} (place : UInt64 → Fin n)

def connect (s : State n) (node : String) (uid : UInt64) (ip : IpAddr) (deviceLimit : Option Nat) :
    State n :=
  let checked := (s.shards (place uid)).addAliveIpAndCheckLimit node uid ip deviceLimit
  let s' := s.setShard (place uid) checked.2
  if checked.1 then
    { s' with
      connections := ⟨node, uid, ip, true, true⟩ :: s.connections
      admissions := ⟨node, uid, decide (ip ∉ s.freshIps node uid), (s.freshIps node uid).length⟩ ::
        s.admissions }
  else s'

def next (s : State n) : Action → Option (State n)
  | .connect node uid ip deviceLimit => some (connect place s node uid ip deviceLimit)
  | .close i =>
    (s.connections[i]?).map fun c =>
      { s.setShard (place c.uid) ((s.shards (place c.uid)).removeAliveIp c.node c.uid c.ip) with
        connections := s.connections.eraseIdx i }
  | .reconcileUsers node activeUids k =>
    if h : k < n then
      some ((s.setShard ⟨k, h⟩ ((s.shards ⟨k, h⟩).reconcileUsers node activeUids)).forget
        fun c => c.node = node ∧ place c.uid = ⟨k, h⟩ ∧ c.uid ∉ activeUids)
    else none
  | .removeUser node uid =>
    some ((s.setShard (place uid) ((s.shards (place uid)).removeUser node uid)).forget
      fun c => c.node = node ∧ c.uid = uid)
  | .addUser node uid =>
    some { s with
      connections := s.connections.map fun c =>
        if c.node = node ∧ c.uid = uid then { c with fresh := false } else c }
  | .replacePanelAlive node k subset =>
    if h : k < n then
      some (s.setShard ⟨k, h⟩ ((s.shards ⟨k, h⟩).replacePanelAlive node subset))
    else none

end

/-- When a connection closes it is counted, or nothing is counted for its address; and when one is
opened, those of its user that are fresh are counted. -/
def settled {n : Nat} (s : State n) : Action → Bool
  | .connect node uid _ _ =>
    s.connections.all fun c =>
      !decide (c.node = node ∧ c.uid = uid ∧ c.fresh = true) || c.counted
  | .close i => (s.connections[i]?).all fun c => c.counted || s.counted c.node c.uid c.ip == 0
  | _ => true

/-- Every connection of the user is opened with the limit. -/
def Action.limited (node : String) (uid : UInt64) (limit : Nat) : Action → Prop
  | .connect node' uid' _ deviceLimit => node' = node → uid' = uid → deviceLimit = some limit
  | _ => True

/-! ## What is counted for a user -/

def entry (count : Nat) : Option Nat := if count = 0 then none else some count

theorem entry_more (count) : some ((entry count).getD 0 + 1) = entry (1 + count) := by
  have hpos : 1 + count ≠ 0 := by omega
  unfold entry
  rw [if_neg hpos]
  by_cases hzero : count = 0
  · rw [if_pos hzero, hzero]
    rfl
  · rw [if_neg hzero, Option.getD_some, add_comm]

theorem entry_less (count) :
    ((entry count).bind fun count => if count - 1 = 0 then none else some (count - 1)) =
      entry (count - 1) := by
  unfold entry
  by_cases hzero : count = 0
  · rw [if_pos hzero, hzero]
    rfl
  · rw [if_neg hzero, Option.bind_some]

/-- The count of an address is the number of its connections that are counted; there are no more
addresses than the limit allows; and whoever was admitted from a new address was within it. -/
structure Limited {n : Nat} (place : UInt64 → Fin n) (node : String) (uid : UInt64) (limit : Nat)
    (s : State n) : Prop where
  counts : ∀ ip, ((s.shards (place uid)).ips node uid).get ip = entry (s.counted node uid ip)
  size : ((s.shards (place uid)).ips node uid).size ≤ limit
  within : ∀ a ∈ s.admissions, a.node = node → a.uid = uid → a.isNew = true → a.others < limit

section
variable {n : Nat} {place : UInt64 → Fin n} {node : String} {uid : UInt64} {limit : Nat}
  {s s' : State n}

theorem ips_setShard (s : State n) (j) (state : TrackerState) (node uid) :
    ((s.setShard j state).shards (place uid)).ips node uid =
      if place uid = j then state.ips node uid else (s.shards (place uid)).ips node uid := by
  unfold State.setShard
  dsimp only
  split
  next h => rw [h, Function.update_self]
  next h => rw [Function.update_of_ne h]

theorem ips_setShard_same (h : place uid = j → state.ips node uid = (s.shards j).ips node uid) :
    ((s.setShard j state).shards (place uid)).ips node uid =
      (s.shards (place uid)).ips node uid := by
  rw [ips_setShard]
  split
  next hplace => rw [h hplace, hplace]
  · rfl

section
variable (h : Limited place node uid limit s)
include h

theorem Limited.same (hips : (s'.shards (place uid)).ips node uid = (s.shards (place uid)).ips node uid)
    (hcounted : ∀ ip, s'.counted node uid ip = s.counted node uid ip)
    (hadmissions : ∀ a ∈ s'.admissions, a ∈ s.admissions ∨ ¬(a.node = node ∧ a.uid = uid)) :
    Limited place node uid limit s' := by
  refine ⟨fun ip => ?_, ?_, fun a ha hnode huid => ?_⟩
  · rw [hips, hcounted]
    exact h.counts ip
  · rw [hips]
    exact h.size
  rcases hadmissions a ha with hold | hother
  · exact h.within a hold hnode huid
  · exact absurd ⟨hnode, huid⟩ hother

theorem Limited.contains (hc : c ∈ s.connections) (hnode : c.node = node) (huid : c.uid = uid)
    (hcounted : c.counted = true) : ((s.shards (place uid)).ips node uid).contains c.ip = true := by
  have hown : c.isCounted node uid c.ip = true := decide_eq_true ⟨hnode, huid, rfl, hcounted⟩
  have hpos : 1 ≤ s.counted node uid c.ip := by
    refine Nat.le_trans ?_ (le_tally hc)
    rw [if_pos hown]
  rw [Map.contains, h.counts, entry, if_neg (by omega)]
  rfl

theorem Limited.freshIps_counted
    (hfresh : ∀ c ∈ s.connections, c.node = node → c.uid = uid → c.fresh = true →
      c.counted = true) :
    ∀ ip ∈ s.freshIps node uid, ((s.shards (place uid)).ips node uid).contains ip = true := by
  intro ip hip
  unfold State.freshIps at hip
  rw [mem_dedup] at hip
  obtain ⟨c, hc, rfl⟩ := mem_map.mp hip
  obtain ⟨hmem, hown⟩ := mem_filter.mp hc
  obtain ⟨hnode, huid, hf⟩ := of_decide_eq_true hown
  exact h.contains hmem hnode huid (hfresh c hmem hnode huid hf)

end

theorem lt_of_not_reached {count} (hlimit : 0 < limit)
    (h : reached (some limit) count = false) : count < limit := by
  simp only [reached, Bool.and_eq_false_iff, decide_eq_false_iff_not] at h
  omega

/-- **A new address is within the limit.** If it is not counted, the addresses counted are fewer
than the limit, with those connected from among them. If it is, it is none of those. -/
theorem Limited.admitted (h : Limited place node uid limit s) (hlimit : 0 < limit)
    (hfresh : ∀ c ∈ s.connections, c.node = node → c.uid = uid → c.fresh = true →
      c.counted = true) (hchecked : ((s.shards (place uid)).ips node uid).contains ip = true ∨
      reached (some limit) ((s.shards (place uid)).ips node uid).size = false)
    (hnew : ip ∉ s.freshIps node uid) : (s.freshIps node uid).length < limit := by
  have hcounted := h.freshIps_counted hfresh
  have hn : (s.freshIps node uid).Nodup := nodup_dedup _
  rcases hchecked with hcontains | hbelow
  · have hle := Map.length_le_size _ (nodup_cons.mpr ⟨hnew, hn⟩)
      (forall_mem_cons.mpr ⟨hcontains, hcounted⟩)
    have := h.size
    rw [length_cons] at hle
    omega
  have hle := Map.length_le_size _ hn hcounted
  have := lt_of_not_reached hlimit hbelow
  omega

/-! ### Connections come and go -/

theorem isCounted_ne {c : Connection} (h : ¬(c.node = node ∧ c.uid = uid)) :
    c.isCounted node uid ip = false := decide_eq_false fun heq => h ⟨heq.1, heq.2.1⟩

section
variable (h : Limited place node uid limit s)
include h

theorem Limited.connect_own (hlimit : 0 < limit)
    (hadmitted : ((s.shards (place uid)).addAliveIpAndCheckLimit node uid ip (some limit)).1 = true)
    (hfresh : ∀ c ∈ s.connections, c.node = node → c.uid = uid → c.fresh = true →
      c.counted = true) :
    Limited place node uid limit (connect place s node uid ip (some limit)) := by
  obtain ⟨hchecked, hips⟩ := ips_admitted _ _ _ _ hadmitted
  have hnow := @ips_setShard n place s (place uid)
    ((s.shards (place uid)).addAliveIpAndCheckLimit node uid ip (some limit)).2 node uid
  rw [if_pos rfl, hips, if_pos ⟨rfl, rfl⟩] at hnow
  unfold connect
  rw [if_pos hadmitted]
  refine ⟨fun ip' => ?_, ?_, ?_⟩
  · rw [State.counted, tally_cons, hnow, Map.get_insert]
    by_cases hip : ip' = ip
    · subst hip
      have hown : (⟨node, uid, ip', true, true⟩ : Connection).isCounted node uid ip' = true :=
        decide_eq_true ⟨rfl, rfl, rfl, rfl⟩
      rw [if_pos rfl, if_pos hown, h.counts]
      exact entry_more _
    have hother : (⟨node, uid, ip, true, true⟩ : Connection).isCounted node uid ip' = false :=
      decide_eq_false fun heq => hip heq.2.2.1.symm
    rw [if_neg hip, hother, if_neg Bool.false_ne_true, zero_add]
    exact h.counts ip'
  · rw [hnow]
    rcases hchecked with hcontains | hbelow
    · exact (Map.size_insert_of_contains _ hcontains _).trans h.size
    · exact (Map.size_insert_le ..).trans (lt_of_not_reached hlimit hbelow)
  intro a ha
  rcases mem_cons.mp ha with rfl | ha
  · intro _ _ hnew
    exact h.admitted hlimit hfresh hchecked (of_decide_eq_true hnew)
  · exact h.within a ha

theorem Limited.connect_other (hother :
    ((s.shards (place uid')).addAliveIpAndCheckLimit node' uid' ip deviceLimit).1 = true →
      ¬(node' = node ∧ uid' = uid)) :
    Limited place node uid limit (connect place s node' uid' ip deviceLimit) := by
  unfold connect
  dsimp only
  split
  next hadmitted =>
    obtain ⟨-, hips⟩ := ips_admitted _ _ _ _ hadmitted
    have hne := hother hadmitted
    have hsame := @ips_setShard_same n place node uid s (place uid') _
      fun _ => (hips node uid).trans (if_neg fun heq => hne ⟨heq.1.symm, heq.2.symm⟩)
    refine h.same hsame (fun ip' => ?_) fun a ha => ?_
    · rw [State.counted, tally_cons, isCounted_ne hne, if_neg Bool.false_ne_true, zero_add]
      rfl
    rcases mem_cons.mp ha with rfl | ha
    · exact .inr hne
    · exact .inl ha
  rename_i hrejected
  rw [Bool.not_eq_true] at hrejected
  exact h.same (ips_setShard_same fun _ => ips_rejected _ _ _ _ hrejected _ _) (fun _ => rfl)
    fun _ ha => .inl ha

theorem Limited.connect (hlimit : 0 < limit)
    (hlimited : node' = node → uid' = uid → deviceLimit = some limit)
    (hsettled : settled s (.connect node' uid' ip deviceLimit) = true) :
    Limited place node uid limit (connect place s node' uid' ip deviceLimit) := by
  by_cases hown : node' = node ∧ uid' = uid
  swap
  · exact h.connect_other fun _ => hown
  obtain ⟨rfl, rfl⟩ := hown
  cases hlimited rfl rfl
  cases hadmitted :
    ((s.shards (place uid')).addAliveIpAndCheckLimit node' uid' ip (some limit)).1 with
  | true =>
    refine h.connect_own hlimit hadmitted fun c hc hnode huid hfresh => ?_
    have := all_eq_true.mp hsettled c hc
    simpa [hnode, huid, hfresh] using this
  | false => exact h.connect_other fun htrue => absurd (hadmitted.symm.trans htrue) (by decide)

/-- **A connection closes.** It takes one off the count it is in, or finds nothing to take off. -/
theorem Limited.close (hc : s.connections[i]? = some c) (hsettled : settled s (.close i) = true) :
    Limited place node uid limit
      { s.setShard (place c.uid) ((s.shards (place c.uid)).removeAliveIp c.node c.uid c.ip) with
        connections := s.connections.eraseIdx i } := by
  have hgone (ip : IpAddr) :
      tally (fun c => if c.isCounted node uid ip then 1 else 0) (s.connections.eraseIdx i) +
        (if c.isCounted node uid ip then 1 else 0) = s.counted node uid ip := tally_eraseIdx hc
  have hfound : (c.counted || s.counted c.node c.uid c.ip == 0) = true := by
    simpa only [settled, hc, Option.all_some] using hsettled
  have hips := ips_removeAliveIp (s.shards (place c.uid)) c.node c.uid c.ip node uid
  by_cases hown : node = c.node ∧ uid = c.uid
  · obtain ⟨rfl, rfl⟩ := hown
    rw [if_pos ⟨rfl, rfl⟩] at hips
    have hnow := @ips_setShard n place s (place c.uid)
      ((s.shards (place c.uid)).removeAliveIp c.node c.uid c.ip) c.node c.uid
    rw [if_pos rfl, hips] at hnow
    refine ⟨fun ip => ?_, ?_, h.within⟩
    · show (((s.setShard _ _).shards (place c.uid)).ips c.node c.uid).get ip =
        entry (tally _ (s.connections.eraseIdx i))
      rw [hnow, get_lessOne]
      have hthis := hgone ip
      by_cases hip : ip = c.ip
      · subst hip
        have hless : tally (fun c' => if c'.isCounted c.node c.uid c.ip then 1 else 0)
            (s.connections.eraseIdx i) = s.counted c.node c.uid c.ip - 1 := by
          cases hcounted : c.counted with
          | true =>
            have hmine : c.isCounted c.node c.uid c.ip = true :=
              decide_eq_true ⟨rfl, rfl, rfl, hcounted⟩
            rw [if_pos hmine] at hthis
            omega
          | false =>
            rw [hcounted, Bool.false_or, beq_iff_eq] at hfound
            omega
        rw [if_pos rfl, h.counts, hless]
        exact entry_less _
      have hother : c.isCounted c.node c.uid ip = false :=
        decide_eq_false fun heq => hip heq.2.2.1.symm
      rw [hother, if_neg Bool.false_ne_true, add_zero] at hthis
      rw [if_neg hip, hthis]
      exact h.counts ip
    · rw [hnow]
      exact (size_lessOne_le ..).trans h.size
  · rw [if_neg hown] at hips
    refine h.same (ips_setShard_same fun _ => hips) (fun ip => ?_) fun _ ha => .inl ha
    have hthis := hgone ip
    rw [isCounted_ne fun heq => hown ⟨heq.1.symm, heq.2.symm⟩, if_neg Bool.false_ne_true, add_zero] at hthis
    exact hthis

end

/-! ### The list of users changes -/

theorem counted_map (f : Connection → Connection) (shards : Fin n → TrackerState)
    (admissions : List Admission) (cs : List Connection) (ip : IpAddr) :
    State.counted ⟨shards, cs.map f, admissions⟩ node uid ip =
      tally (fun c => if (f c).isCounted node uid ip then 1 else 0) cs := by
  unfold State.counted tally
  rw [map_map]
  rfl

theorem Limited.forget (h : Limited place node uid limit s) (mine : Bool)
    (hgone : ∀ c : Connection, c.node = node → c.uid = uid → gone c = mine) (hips : place uid = j →
      state.ips node uid = if mine then .empty else (s.shards j).ips node uid)
    (hplace : mine = true → place uid = j) :
    Limited place node uid limit ((s.setShard j state).forget gone) := by
  have hcounted (ip : IpAddr) : ((s.setShard j state).forget gone).counted node uid ip =
      if mine then 0 else s.counted node uid ip := by
    have hone (c : Connection) : (if gone c then { c with counted := false } else c).isCounted
        node uid ip = (!mine && c.isCounted node uid ip) := by
      by_cases hown : c.node = node ∧ c.uid = uid
      · rw [hgone c hown.1 hown.2]
        cases mine <;> simp [Connection.isCounted]
      · split <;> simp [isCounted_ne hown, isCounted_ne (c := { c with counted := false }) hown]
    unfold State.forget
    rw [counted_map]
    simp only [hone]
    cases mine <;> simp [tally, State.counted, State.setShard]
  cases mine with
  | true =>
    have hnow : (((s.setShard j state).forget gone).shards (place uid)).ips node uid = .empty := by
      show ((s.setShard j state).shards (place uid)).ips node uid = .empty
      rw [ips_setShard, if_pos (hplace rfl), hips (hplace rfl), if_pos rfl]
    refine ⟨fun ip => ?_, by rw [hnow]; exact Nat.zero_le _, h.within⟩
    rw [hnow, hcounted]
    rfl
  | false => exact h.same (ips_setShard_same hips) hcounted fun _ ha => .inl ha

theorem Limited.next (h : Limited place node uid limit s) (hlimit : 0 < limit)
    (hlimited : a.limited node uid limit) (hsettled : settled s a = true)
    (hnext : next place s a = some s') : Limited place node uid limit s' := by
  cases a with
  | connect =>
    cases hnext
    exact h.connect hlimit hlimited hsettled
  | close =>
    obtain ⟨c, hc, rfl⟩ := Option.map_eq_some_iff.mp hnext
    exact h.close hc hsettled
  | reconcileUsers node' activeUids k =>
    simp only [DeviceLimit.next] at hnext
    split at hnext <;> cases hnext
    rename_i hk
    refine h.forget (decide (node = node' ∧ place uid = ⟨k, hk⟩ ∧ uid ∉ activeUids)) ?_ ?_ ?_
    · rintro c rfl rfl
      rfl
    · intro hplace
      rw [ips_reconcileUsers]
      simp [hplace]
    intro hmine
    exact (of_decide_eq_true hmine).2.1
  | removeUser node' uid' =>
    cases hnext
    refine h.forget (decide (node = node' ∧ uid = uid')) ?_ ?_ ?_
    · rintro c rfl rfl
      rfl
    · intro _
      rw [ips_removeUser]
      simp
    intro hmine
    rw [(of_decide_eq_true hmine).2]
  | addUser =>
    cases hnext
    refine h.same rfl (fun ip => ?_) fun _ ha => .inl ha
    rw [counted_map]
    refine tally_congr fun c _ => ?_
    split <;> rfl
  | replacePanelAlive =>
    simp only [DeviceLimit.next] at hnext
    split at hnext <;> cases hnext
    exact h.same (ips_setShard_same fun _ => rfl) (fun _ => rfl) fun _ ha => .inl ha

end

/-- **The device limit holds for open connections.** In every run in which a connection that closes is
counted, or nothing is counted for its address, and in which the fresh connections of a user are
counted when the user opens another one: of a user whose limit is always the same, whoever is
admitted from a new address finds fewer addresses than that connected from since the user was last
added. -/
theorem device_limit_holds {n : Nat} (place : UInt64 → Fin n) (node : String) (uid : UInt64)
    (limit : Nat) (hlimit : 0 < limit) (actions : List Action) (s : State n)
    (hlimited : ∀ a ∈ actions, a.limited node uid limit)
    (hsettled : Lib.Machine.Throughout (next place) (fun s a => settled s a = true) (.new n) actions)
    (hrun : run (next place) (.new n) actions = some s) :
    ∀ a ∈ s.admissions, a.node = node → a.uid = uid → a.isNew = true → a.others < limit := by
  have hboth := throughout_and hsettled
    (throughout_of_forall actions (State.new n) hlimited)
  have hinv := run_invariant
    (fun s a s' ha (hi : Limited place node uid limit s) hnext => hi.next hlimit ha.2 ha.1 hnext)
    actions (.new n) s hboth ⟨fun _ => rfl, Nat.zero_le _, nofun⟩ hrun
  exact hinv.within

def home : IpAddr := .v4 ⟨192, 0, 2, 1⟩

def away : IpAddr := .v4 ⟨192, 0, 2, 2⟩

/-- One address leaves before the user is removed, and both are admitted after the user is back. -/
def readded : List Action :=
  [.connect "a" 7 home (some 2), .close 0, .removeUser "a" 7, .addUser "a" 7,
    .connect "a" 7 home (some 2), .connect "a" 7 away (some 2)]

theorem device_limit_holds_readded : ∃ s, run (next shard) (.new shardCount) readded = some s ∧
      s.admissions = [⟨"a", 7, true, 1⟩, ⟨"a", 7, true, 0⟩, ⟨"a", 7, true, 0⟩] ∧
      ∀ a ∈ s.admissions, a.node = "a" → a.uid = 7 → a.isNew = true → a.others < 2 := by
  refine ⟨_, rfl, by decide, ?_⟩
  refine device_limit_holds shard "a" 7 2 (by decide) readded _ ?_ (by decide) rfl
  simp [readded, Action.limited]

/-- **A late close lets a second device in.** The user is removed and added again while a connection
is open, and connects from the same address again. When the old connection closes, the tracker takes
the new one for gone. -/
theorem late_close_frees_address : ∃ s, run (next shard) (.new shardCount)
        [.connect "a" 7 home (some 1), .removeUser "a" 7, .addUser "a" 7,
          .connect "a" 7 home (some 1), .close 1, .connect "a" 7 away (some 1)] = some s ∧
      s.connections = [⟨"a", 7, away, true, true⟩, ⟨"a", 7, home, true, true⟩] ∧
      ⟨"a", 7, true, 1⟩ ∈ s.admissions :=
  ⟨_, rfl, by decide, by decide⟩

end Shoes.V2board.DeviceLimit
