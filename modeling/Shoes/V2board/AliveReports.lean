import Shoes.V2board.Alive
import Shoes.V2board.TrackerBooks

/-! # Reports of users online

A report takes note of the traffic of every user online, and that traffic is taken off their counters
once the panel has the report. Connections come and go in between, and so does traffic. -/
namespace Shoes.V2board.AliveReports
open Lib.Assoc RuntimeModel Tracker Alive List Function Option Lib.Machine Bool
open Alive.TrackerState
open TrackerBooks (shard shardCount)

structure AliveSnapshot where
  payload : Map (List UInt8) (List (List UInt8))
  consumedTraffic : Map UInt64 Nat

def AliveSnapshot.of (collected : List Collected) : AliveSnapshot where
  payload := collected.foldl (fun m c => m.insert (uidText c.uid) c.ips) .empty
  consumedTraffic := collected.foldl (fun m c => m.insert c.uid c.traffic) .empty

/-- Where a report is: it is being taken, shard by shard; it waits for the panel; or it is being
committed, user by user. -/
inductive Phase
  | taking (nodeId minTraffic next : Nat) (collected : List Collected)
  | taken (snapshot : AliveSnapshot)
  | committing (snapshot : AliveSnapshot) (rest : Map UInt64 Nat)

/-- What the report has consumed of a user and not yet taken off. -/
def Phase.owed (uid : UInt64) : Phase → Nat
  | .taking _ _ _ collected => ((AliveSnapshot.of collected).consumedTraffic.get uid).getD 0
  | .taken snapshot => (snapshot.consumedTraffic.get uid).getD 0
  | .committing _ rest => (rest.get uid).getD 0

/-- The report has been to a shard. -/
def Phase.visited (j : Nat) : Phase → Bool
  | .taking _ _ next _ => j < next
  | _ => true

/-- A report. The last three fields only record what has happened since it was at a user's shard: the
traffic recorded for the user and for the connections they have now, whether these are new, and
whether a report of the node was committed. -/
structure Report where
  node : String
  phase : Phase
  since : UInt64 → Nat
  renewed : UInt64 → Bool
  crossed : Bool

structure State (n : Nat) where
  shards : Fin n → TrackerState
  reports : List Report

inductive Action
  | addTraffic (node : String) (uid : UInt64) (upload download : Nat)
  | addAliveIp (node : String) (uid : UInt64) (ip : IpAddr) (deviceLimit : Option Nat)
  | removeAliveIp (node : String) (uid : UInt64) (ip : IpAddr)
  | snapshotAlive (node : String) (nodeId minTraffic : Nat)
  | nextShard (report : Nat)
  | commitAlive (report : Nat)
  | commitNext (report : Nat) (uid : UInt64)
  | committed (report : Nat)

namespace Report

def recorded (node : String) (uid : UInt64) (bytes : Nat) (r : Report) : Report :=
  if r.node = node then { r with since := Function.update r.since uid (r.since uid + bytes) } else r

/-- The user was not online and is so now. -/
def renew (node : String) (uid : UInt64) (r : Report) : Report :=
  if r.node = node then
    { r with since := Function.update r.since uid 0, renewed := Function.update r.renewed uid true }
  else r

def cross (node : String) (r : Report) : Report :=
  if r.node = node then { r with crossed := true } else r

end Report

namespace State
variable {n : Nat}

def new (n : Nat) : State n := ⟨fun _ => .empty, []⟩

def setShard (s : State n) (j : Fin n) (state : TrackerState) : State n :=
  { s with shards := Function.update s.shards j state }

def setReport (s : State n) (k : Nat) (r : Report) : State n :=
  { s with reports := s.reports.set k r }

end State

section
variable {n : Nat} (place : UInt64 → Fin n)

/-- A report that is being taken visits the next shard, or is complete. -/
def nextShard (s : State n) (k : Nat) (r : Report) (nodeId minTraffic j : Nat)
    (collected : List Collected) : State n :=
  if h : j < n then
    s.setReport k { r with
      phase := .taking nodeId minTraffic (j + 1)
        (collected ++ (s.shards ⟨j, h⟩).snapshotAlive r.node nodeId minTraffic)
      since := fun uid => if place uid = ⟨j, h⟩ then 0 else r.since uid
      renewed := fun uid => if place uid = ⟨j, h⟩ then false else r.renewed uid }
  else s.setReport k { r with phase := .taken (.of collected) }

def commitNext (s : State n) (k : Nat) (r : Report) (snapshot : AliveSnapshot)
    (rest : Map UInt64 Nat) (uid : UInt64) (consumed : Nat) : State n :=
  let s := s.setShard (place uid) ((s.shards (place uid)).commitUser r.node uid consumed)
  ({ s with reports := s.reports.map (.cross r.node) }).setReport k
    { r with phase := .committing snapshot (rest.remove uid) }

def next (s : State n) : Action → Option (State n)
  | .addTraffic node uid upload download =>
    let s := s.setShard (place uid)
      ((s.shards (place uid)).addAliveTraffic node uid upload download)
    some { s with reports := s.reports.map (.recorded node uid (upload + download)) }
  | .addAliveIp node uid ip deviceLimit =>
    let checked := (s.shards (place uid)).addAliveIpAndCheckLimit node uid ip deviceLimit
    let s' := s.setShard (place uid) checked.2
    if checked.1 && !(s.shards (place uid)).online node uid then
      some { s' with reports := s.reports.map (.renew node uid) }
    else some s'
  | .removeAliveIp node uid ip =>
    some (s.setShard (place uid) ((s.shards (place uid)).removeAliveIp node uid ip))
  | .snapshotAlive node nodeId minTraffic =>
    some { s with
      reports := s.reports ++
        [⟨node, .taking nodeId minTraffic 0 [], fun _ => 0, fun _ => false, false⟩] }
  | .nextShard k =>
    match s.reports[k]? with
    | none => none
    | some r =>
      match r.phase with
      | .taking nodeId minTraffic j collected =>
        some (nextShard place s k r nodeId minTraffic j collected)
      | _ => none
  | .commitAlive k =>
    match s.reports[k]? with
    | none => none
    | some r =>
      match r.phase with
      | .taken snapshot =>
        some (s.setReport k { r with phase := .committing snapshot snapshot.consumedTraffic })
      | _ => none
  | .commitNext k uid =>
    match s.reports[k]? with
    | none => none
    | some r =>
      match r.phase with
      | .committing snapshot rest => (rest.get uid).map (commitNext place s k r snapshot rest uid)
      | _ => none
  | .committed k =>
    match s.reports[k]? with
    | none => none
    | some r =>
      match r.phase with
      | .committing snapshot rest =>
        if rest.entries = [] then
          some (s.setReport k { r with phase := .taken snapshot, crossed := true })
        else none
      | _ => none

end

/-- No counter saturates; a report is taken off no counter of connections that are newer than it; and
no other report of the node was committed since it was taken. -/
def timely {n : Nat} (place : UInt64 → Fin n) (s : State n) : Action → Bool
  | .addTraffic node uid upload download =>
    (s.shards (place uid)).traffic node uid + (upload + download) ≤ u64Max
  | .commitNext k uid =>
    (s.reports[k]?).all fun r => !(r.renewed uid && (s.shards (place uid)).online r.node uid)
  | .committed k => (s.reports[k]?).all fun r => !r.crossed
  | _ => true

/-! ## What a report has consumed -/

theorem collect_of_not_mem {collected : List Collected} {uid}
    (h : ∀ c ∈ collected, c.uid ≠ uid) (m : Map UInt64 Nat) :
    (collected.foldl (fun m c => m.insert c.uid c.traffic) m).get uid = m.get uid := by
  refine foldlRecOn (motive := fun m' : Map UInt64 Nat => m'.get uid = m.get uid) collected _ rfl
    fun m' hm c hc => ?_
  exact (m'.get_insert_ne (Ne.symm (h c hc)) _).trans hm

theorem collect_le {collected : List Collected} {uid traffic}
    (h : ∀ c ∈ collected, c.uid = uid → c.traffic = traffic) {m : Map UInt64 Nat}
    (hm : (m.get uid).getD 0 ≤ traffic) :
    ((collected.foldl (fun m c => m.insert c.uid c.traffic) m).get uid).getD 0 ≤ traffic := by
  refine foldlRecOn (motive := fun m : Map UInt64 Nat => (m.get uid).getD 0 ≤ traffic) collected _ hm
    fun m hm c hc => ?_
  rw [Map.get_insert]
  split
  next huid => exact Nat.le_of_eq (h c hc huid.symm)
  · exact hm

theorem owed_append (uid nodeId minTraffic j collected more) :
    Phase.owed uid (.taking nodeId minTraffic j (collected ++ more)) =
      ((more.foldl (fun m c => m.insert c.uid c.traffic)
        (AliveSnapshot.of collected).consumedTraffic).get uid).getD 0 := by
  simp only [Phase.owed, AliveSnapshot.of, foldl_append]

/-! ## What is still counted -/

/-- The counter of a user online holds what was recorded since the report was at their shard, besides
what the report has consumed. -/
def Covered {n : Nat} (place : UInt64 → Fin n) (shards : Fin n → TrackerState) (r : Report) : Prop :=
  r.crossed = false → ∀ uid, r.phase.visited (place uid) = true →
    (shards (place uid)).online r.node uid = true →
    r.since uid + (if r.renewed uid then 0 else r.phase.owed uid) ≤
      (shards (place uid)).traffic r.node uid

structure Sound {n : Nat} (place : UInt64 → Fin n) (s : State n) : Prop where
  placed : ∀ j node uid, j ≠ place uid → (s.shards j).online node uid = false
  collected : ∀ r ∈ s.reports, ∀ nodeId minTraffic j collected,
    r.phase = .taking nodeId minTraffic j collected → ∀ c ∈ collected, (place c.uid).val < j
  covered : ∀ r ∈ s.reports, Covered place s.shards r

section
variable {n : Nat} {place : UInt64 → Fin n} {s s' : State n}

theorem sound_new (place) : Sound place (.new n) where
  placed := fun _ _ _ _ => rfl
  collected := nofun
  covered := nofun

theorem setShard_shards (s : State n) (j state j') :
    (s.setShard j state).shards j' = if j' = j then state else s.shards j' := by
  unfold State.setShard
  dsimp only
  split_ifs with h
  · rw [h, update_self]
  · rw [update_of_ne h]

theorem Sound.setShard_placed (h : Sound place s) {j state}
    (hstate : ∀ node uid, j ≠ place uid → state.online node uid = false) (j')
    (node uid) (hj : j' ≠ place uid) :
    ((s.setShard j state).shards j').online node uid = false := by
  rw [setShard_shards]
  split
  next heq => exact hstate node uid (heq ▸ hj)
  · exact h.placed j' node uid hj

theorem setShard_other {node uid state} (hstate : ∀ node' uid', ¬(node' = node ∧ uid' = uid) →
      state.online node' uid' = (s.shards (place uid)).online node' uid' ∧
        state.traffic node' uid' = (s.shards (place uid)).traffic node' uid')
    {node' uid'} (hother : ¬(node' = node ∧ uid' = uid)) :
    ((s.setShard (place uid) state).shards (place uid')).online node' uid' =
        (s.shards (place uid')).online node' uid' ∧
      ((s.setShard (place uid) state).shards (place uid')).traffic node' uid' =
        (s.shards (place uid')).traffic node' uid' := by
  rw [setShard_shards]
  split
  next hplace =>
    rw [hplace]
    exact hstate node' uid' hother
  · exact ⟨rfl, rfl⟩

theorem setShard_own (s : State n) (uid state) :
    (s.setShard (place uid) state).shards (place uid) = state := by
  rw [setShard_shards, if_pos rfl]

/-- What an action may leave of a report. -/
structure Follows (r r' : Report) : Prop where
  node : r'.node = r.node
  phase : r'.phase = r.phase
  crossed : r'.crossed = false → r.crossed = false

/-- **An action at one user.** The reports are as they were for all others. -/
theorem Sound.touch (h : Sound place s) {node uid state f}
    (hstate : ∀ node' uid', ¬(node' = node ∧ uid' = uid) →
      state.online node' uid' = (s.shards (place uid)).online node' uid' ∧
        state.traffic node' uid' = (s.shards (place uid)).traffic node' uid')
    (hf : ∀ r, Follows r (f r))
    (hother : ∀ r uid', (f r).crossed = false → ¬(r.node = node ∧ uid' = uid) →
      (f r).since uid' = r.since uid' ∧ (f r).renewed uid' = r.renewed uid')
    (hown : ∀ r ∈ s.reports, r.node = node → (f r).crossed = false →
      r.phase.visited (place uid) = true → state.online node uid = true →
      (f r).since uid + (if (f r).renewed uid then 0 else r.phase.owed uid) ≤
        state.traffic node uid) :
    Sound place { s.setShard (place uid) state with reports := s.reports.map f } := by
  refine ⟨h.setShard_placed fun node' uid' hj => ?_, fun r' hr' => ?_,
    fun r' hr' hc uid' hv honline => ?_⟩
  · rw [(hstate node' uid' fun heq => hj (by rw [heq.2])).1]
    exact h.placed _ _ _ hj
  · obtain ⟨r, hr, rfl⟩ := mem_map.mp hr'
    rw [(hf r).phase]
    exact h.collected r hr
  obtain ⟨r, hr, rfl⟩ := mem_map.mp hr'
  rw [(hf r).phase] at hv ⊢
  rw [(hf r).node] at honline ⊢
  by_cases htouched : r.node = node ∧ uid' = uid
  · obtain ⟨rfl, rfl⟩ := htouched
    rw [setShard_own] at honline ⊢
    exact hown r hr rfl hc hv honline
  obtain ⟨hsame, hkept⟩ := setShard_other hstate htouched
  obtain ⟨hsince, hrenewed⟩ := hother r uid' hc htouched
  rw [hsince, hrenewed, hkept]
  exact h.covered r hr ((hf r).crossed hc) uid' hv (hsame ▸ honline)

variable (node : String)

theorem recorded_follows (uid bytes) (r : Report) : Follows r (r.recorded node uid bytes) := by
  unfold Report.recorded
  split <;> exact ⟨rfl, rfl, id⟩

theorem recorded_renewed (uid bytes) (r : Report) :
    (r.recorded node uid bytes).renewed = r.renewed := by
  unfold Report.recorded
  split <;> rfl

theorem recorded_since (uid bytes) (r : Report) (uid') : (r.recorded node uid bytes).since uid' =
      if r.node = node ∧ uid' = uid then r.since uid + bytes else r.since uid' := by
  unfold Report.recorded
  by_cases hnode : r.node = node
  · rw [if_pos hnode]
    dsimp only
    by_cases huid : uid' = uid
    · rw [huid, update_self, if_pos ⟨hnode, rfl⟩]
    · rw [update_of_ne huid, if_neg fun h => huid h.2]
  · rw [if_neg hnode, if_neg fun h => hnode h.1]

theorem Sound.addTraffic (h : Sound place s) {node uid upload download}
    (hroom : (s.shards (place uid)).traffic node uid + (upload + download) ≤ u64Max)
    (hnext : next place s (.addTraffic node uid upload download) = some s') : Sound place s' := by
  cases hnext
  refine h.touch (fun node' uid' hne =>
      ⟨online_addAliveTraffic .., traffic_addAliveTraffic_ne _ _ _ hne⟩) (recorded_follows _ _ _)
    (fun r uid' _ hne => ?_) fun r hr hnode hc hv honline => ?_
  · rw [recorded_since, if_neg hne, recorded_renewed]
    exact ⟨rfl, rfl⟩
  subst hnode
  rw [online_addAliveTraffic] at honline
  have hcovered := h.covered r hr ((recorded_follows ..).crossed hc) uid hv honline
  rw [recorded_since, if_pos ⟨rfl, rfl⟩, recorded_renewed,
    traffic_addAliveTraffic _ _ _ honline hroom]
  omega

theorem renew_follows (uid) (r : Report) : Follows r (r.renew node uid) := by
  unfold Report.renew
  split <;> exact ⟨rfl, rfl, id⟩

theorem renew_other {node uid} {r : Report} {uid'} (h : ¬(r.node = node ∧ uid' = uid)) :
    (r.renew node uid).since uid' = r.since uid' ∧
      (r.renew node uid).renewed uid' = r.renewed uid' := by
  unfold Report.renew
  split
  next hnode =>
    dsimp only
    have huid : uid' ≠ uid := fun heq => h ⟨hnode, heq⟩
    rw [update_of_ne huid, update_of_ne huid]
    exact ⟨rfl, rfl⟩
  · exact ⟨rfl, rfl⟩

theorem renew_own {uid} (r : Report) :
    (r.renew r.node uid).since uid = 0 ∧ (r.renew r.node uid).renewed uid = true := by
  unfold Report.renew
  rw [if_pos rfl]
  exact ⟨update_self .., update_self ..⟩

section
variable (h : Sound place s)
include h

theorem Sound.setShard {uid state} (hstate : ∀ node' uid', state.online node' uid' = true →
      (s.shards (place uid)).online node' uid' = true ∧
        state.traffic node' uid' = (s.shards (place uid)).traffic node' uid') :
    Sound place (s.setShard (place uid) state) := by
  refine ⟨h.setShard_placed fun node' uid' hj => ?_, h.collected, fun r hr hc uid' hv honline => ?_⟩
  · rw [← not_eq_true]
    intro honline
    have hbefore := (hstate node' uid' honline).1
    rw [h.placed _ _ _ hj] at hbefore
    cases hbefore
  rw [setShard_shards] at honline ⊢
  split_ifs at honline with hplace
  · obtain ⟨hbefore, htraffic⟩ := hstate _ _ honline
    rw [if_pos hplace, htraffic, ← hplace]
    exact h.covered r hr hc uid' hv (hplace ▸ hbefore)
  rw [if_neg hplace]
  exact h.covered r hr hc uid' hv honline

theorem Sound.addAliveIp {node uid ip deviceLimit}
    (hnext : next place s (.addAliveIp node uid ip deviceLimit) = some s') : Sound place s' := by
  rw [AliveReports.next] at hnext
  have htraffic (node' : String) (uid' : UInt64) := traffic_of_same
    (aliveTraffic_addAliveIp (s.shards (place uid)) node uid ip deviceLimit) node' uid'
  split at hnext <;> cases hnext
  next hfirst =>
    simp only [Bool.and_eq_true, Bool.not_eq_true'] at hfirst
    obtain ⟨hadmitted, _⟩ := hfirst
    refine h.touch (fun node' uid' hne => ⟨online_admitted _ node uid hadmitted hne,
      htraffic node' uid'⟩) (renew_follows _ _) (fun r uid' _ => renew_other) ?_
    -- nothing is asked of connections that are new
    rintro r - rfl - - -
    rw [(renew_own r).1, (renew_own r).2, if_pos rfl]
    exact Nat.zero_le _
  rename_i hnotfirst
  refine h.setShard fun node' uid' honline => ⟨?_, htraffic node' uid'⟩
  cases hadmitted :
      ((s.shards (place uid)).addAliveIpAndCheckLimit node uid ip deviceLimit).1 with
  | true =>
    by_cases hown : node' = node ∧ uid' = uid
    · rw [hadmitted, Bool.true_and, Bool.not_eq_true, Bool.not_eq_false'] at hnotfirst
      rw [hown.1, hown.2]
      exact hnotfirst
    · rwa [online_admitted _ _ _ hadmitted hown] at honline
  | false => rwa [online_of_same (ips_rejected _ _ _ _ hadmitted _ _)] at honline

theorem Sound.setReport {k r} (hcollected : ∀ nodeId minTraffic j collected,
      r.phase = .taking nodeId minTraffic j collected → ∀ c ∈ collected, (place c.uid).val < j)
    (hcovered : Covered place s.shards r) : Sound place (s.setReport k r) := by
  refine ⟨h.placed, fun r' hr' => ?_, fun r' hr' => ?_⟩
  · rcases mem_or_eq_of_mem_set hr' with hold | rfl
    · exact h.collected r' hold
    · exact hcollected
  rcases mem_or_eq_of_mem_set hr' with hold | rfl
  · exact h.covered r' hold
  · exact hcovered

/-- **A report visits a shard.** Of the users of that shard it has consumed at most their traffic, and
nothing is recorded since. -/
theorem Sound.nextShard {k r nodeId minTraffic j collected} (hr : s.reports[k]? = some r)
    (hphase : r.phase = .taking nodeId minTraffic j collected) :
    Sound place (nextShard place s k r nodeId minTraffic j collected) := by
  have hmem := mem_of_getElem? hr
  have hbefore := h.collected r hmem nodeId minTraffic j collected hphase
  have howed (uid : UInt64) : r.phase.owed uid =
      ((AliveSnapshot.of collected).consumedTraffic.get uid).getD 0 := by
    rw [hphase]
    rfl
  unfold AliveReports.nextShard
  split
  next hj =>
    -- only users of this shard are found in it
    have hfound : ∀ c ∈ (s.shards ⟨j, hj⟩).snapshotAlive r.node nodeId minTraffic,
        place c.uid = ⟨j, hj⟩ := by
      intro c hc
      by_contra hother
      have honline := (mem_snapshotAlive _ _ hc).1
      rw [h.placed _ _ _ (Ne.symm hother)] at honline
      cases honline
    refine h.setReport ?_ fun hc uid hv honline => ?_
    · rintro _ _ _ _ ⟨⟩ c hc
      rcases mem_append.mp hc with hold | hnew
      · exact Nat.lt_succ_of_lt (hbefore c hold)
      rw [hfound c hnew]
      exact Nat.lt_succ_self j
    rw [owed_append]
    by_cases hplace : place uid = ⟨j, hj⟩
    · simp only [hplace, if_true, false_eq_true, if_false, zero_add]
      refine collect_le (fun c hc huid => huid ▸ (mem_snapshotAlive _ _ hc).2) ?_
      have hnone : (AliveSnapshot.of collected).consumedTraffic.get uid = none :=
        collect_of_not_mem (fun c hc huid => by
          have := hbefore c hc
          rw [huid, hplace] at this
          exact lt_irrefl j this) _
      rw [hnone]
      exact Nat.zero_le _
    have hsame := @collect_of_not_mem
      ((s.shards ⟨j, hj⟩).snapshotAlive r.node nodeId minTraffic) uid
      (fun c hc huid => hplace (huid ▸ hfound c hc)) (AliveSnapshot.of collected).consumedTraffic
    simp only [hplace, if_false, hsame]
    rw [← howed uid]
    refine h.covered r hmem hc uid ?_ honline
    have hlt : (place uid).val < j + 1 := of_decide_eq_true hv
    have hne : (place uid).val ≠ j := fun heq => hplace (Fin.ext heq)
    rw [hphase]
    exact decide_eq_true (by omega)
  next hj =>
    refine h.setReport (by simp) ?_
    intro hc uid _ honline
    have hv : r.phase.visited (place uid) = true := by
      rw [hphase]
      exact decide_eq_true (Nat.lt_of_lt_of_le (place uid).isLt (not_lt.mp hj))
    have := h.covered r hmem hc uid hv honline
    rwa [howed] at this

end

theorem cross_follows (r : Report) : Follows r (r.cross node) ∧
    (r.cross node).since = r.since ∧ (r.cross node).renewed = r.renewed := by
  unfold Report.cross
  split
  · exact ⟨⟨rfl, rfl, nofun⟩, rfl, rfl⟩
  · exact ⟨⟨rfl, rfl, id⟩, rfl, rfl⟩

/-- **One user of a report is committed.** What the report had consumed is taken off, and what was
recorded since stays. -/
theorem Sound.commitNext (h : Sound place s) {k r snapshot rest uid consumed}
    (hr : s.reports[k]? = some r)
    (hphase : r.phase = .committing snapshot rest) (hget : rest.get uid = some consumed)
    (hrenewed : (r.renewed uid && (s.shards (place uid)).online r.node uid) = false) :
    Sound place (commitNext place s k r snapshot rest uid consumed) := by
  have hmem := mem_of_getElem? hr
  have hother := fun node' uid' (hne : ¬(node' = r.node ∧ uid' = uid)) =>
    And.intro (online_commitUser (s.shards (place uid)) r.node uid consumed node' uid')
      ((traffic_commitUser (s.shards (place uid)) r.node uid consumed node' uid').trans
        (if_neg hne))
  -- a report of the node itself is crossed
  refine (h.touch hother (fun r' => (cross_follows _ r').1)
    (fun r' uid' _ _ => ⟨by rw [(cross_follows ..).2.1], by rw [(cross_follows ..).2.2]⟩)
    fun r' _ hnode hc => by simp [Report.cross, hnode] at hc).setReport nofun
    fun hc uid' _ honline => ?_
  have hv : r.phase.visited (place uid') = true := by
    rw [hphase]
    rfl
  by_cases hown : uid' = uid
  · subst hown
    have honline' : (s.shards (place uid')).online r.node uid' = true := by
      rw [← online_commitUser (s.shards (place uid')) r.node uid' consumed,
        ← @setShard_own n place s uid'
          ((s.shards (place uid')).commitUser r.node uid' consumed)]
      exact honline
    have hthis := h.covered r hmem hc uid' hv honline'
    rw [honline', Bool.and_true] at hrenewed
    have howed : Phase.owed uid' (.committing snapshot rest) = consumed := by
      show (rest.get uid').getD 0 = consumed
      rw [hget]
      rfl
    have htraffic := (traffic_commitUser (s.shards (place uid')) r.node uid' consumed r.node
      uid').trans (if_pos ⟨rfl, rfl⟩)
    rw [hrenewed, if_neg Bool.false_ne_true, hphase, howed] at hthis
    show r.since uid' +
        (if r.renewed uid' = true then 0 else ((rest.remove uid').get uid').getD 0) ≤
      TrackerState.traffic ((s.setShard (place uid') _).shards (place uid')) r.node uid'
    rw [setShard_own, htraffic, hrenewed, if_neg Bool.false_ne_true, Map.get_remove_self, getD_none]
    omega
  obtain ⟨hsame, hkept⟩ := @setShard_other n place s r.node uid _ hother r.node uid'
    fun heq => hown heq.2
  have hthis := h.covered r hmem hc uid' hv (hsame ▸ honline)
  rw [hphase] at hthis
  show r.since uid' + (if r.renewed uid' = true then 0 else ((rest.remove uid).get uid').getD 0) ≤
    TrackerState.traffic ((s.setShard (place uid) _).shards (place uid')) r.node uid'
  rw [hkept, Map.get_remove_ne _ hown]
  exact hthis

theorem Sound.next (h : Sound place s) {a} (ha : timely place s a = true)
    (hnext : next place s a = some s') : Sound place s' := by
  cases a with
  | addTraffic => exact h.addTraffic (of_decide_eq_true ha) hnext
  | addAliveIp => exact h.addAliveIp hnext
  | removeAliveIp =>
    cases hnext
    exact h.setShard fun node' uid' honline => removeAliveIp_online _ _ _ honline
  | snapshotAlive =>
    cases hnext
    refine ⟨h.placed, fun r hr => ?_, fun r hr => ?_⟩
    · rcases mem_append.mp hr with hold | hnew
      · exact h.collected r hold
      · rw [mem_singleton.mp hnew]
        rintro _ _ _ _ ⟨⟩ c hc
        cases hc
    rcases mem_append.mp hr with hold | hnew
    · exact h.covered r hold
    rw [mem_singleton.mp hnew]
    intro _ uid hv
    have hlt : (place uid).val < 0 := of_decide_eq_true hv
    exact absurd hlt (Nat.not_lt_zero _)
  | nextShard =>
    rw [AliveReports.next] at hnext
    split at hnext
    · cases hnext
    rename_i r hr
    split at hnext <;> cases hnext
    rename_i hphase
    exact h.nextShard hr hphase
  | commitAlive =>
    rw [AliveReports.next] at hnext
    split at hnext
    · cases hnext
    rename_i r hr
    split at hnext <;> cases hnext
    rename_i snapshot hphase
    refine h.setReport (by simp) fun hc uid _ honline => ?_
    have hcovered := h.covered r (mem_of_getElem? hr) hc uid (by rw [hphase]; rfl) honline
    rwa [hphase] at hcovered
  | commitNext =>
    rw [AliveReports.next] at hnext
    split at hnext
    · cases hnext
    rename_i r hr
    split at hnext
    next snapshot rest hphase =>
      obtain ⟨_, hget, rfl⟩ := map_eq_some_iff.mp hnext
      refine h.commitNext hr hphase hget ?_
      simp only [timely, hr, all_some, not_eq_true'] at ha
      exact ha
    · cases hnext
  | committed =>
    rw [AliveReports.next] at hnext
    split at hnext
    · cases hnext
    rename_i r hr
    split at hnext
    · split at hnext <;> cases hnext
      exact h.setReport (by simp) (by simp [Covered])
    · cases hnext

theorem Sound.committed (h : Sound place s) {k} (ha : timely place s (.committed k) = true)
    (hnext : AliveReports.next place s (.committed k) = some s') :
    ∃ r, s'.reports[k]? = some r ∧ ∀ uid, (s'.shards (place uid)).online r.node uid = true →
      r.since uid ≤ (s'.shards (place uid)).traffic r.node uid := by
  rw [AliveReports.next] at hnext
  split at hnext
  · cases hnext
  rename_i r₀ hr₀
  split at hnext
  swap
  · cases hnext
  rename_i snapshot rest hphase
  obtain ⟨_, ⟨⟩⟩ := ite_none_right_eq_some.mp hnext
  simp only [timely, hr₀, all_some, not_eq_true'] at ha
  have hlt := (List.getElem?_eq_some_iff.mp hr₀).1
  refine ⟨_, List.getElem?_set_self hlt, fun uid honline => ?_⟩
  have hv : r₀.phase.visited (place uid) = true := by
    rw [hphase]
    rfl
  have := h.covered r₀ (mem_of_getElem? hr₀) ha uid hv honline
  exact (Nat.le_add_right ..).trans this

end

/-- **A commit never eats newer traffic.** In every run in which no counter saturates, in which a
report is committed before another one of its node is, and in which it is taken off no counter of
connections that are newer than it: right after a report was committed, the counter of every user
online holds at least what was recorded for their connections since the report was taken. -/
theorem commit_keeps_newer {n : Nat} (place : UInt64 → Fin n) (actions : List Action) (k : Nat)
    (s : State n)
    (htimely : Lib.Machine.Throughout (next place) (fun s a => timely place s a = true) (.new n)
      (actions ++ [.committed k]))
    (hrun : run (next place) (.new n) (actions ++ [.committed k]) = some s) :
    ∃ r, s.reports[k]? = some r ∧ ∀ uid, (s.shards (place uid)).online r.node uid = true →
      r.since uid ≤ (s.shards (place uid)).traffic r.node uid := by
  obtain ⟨s₁, hrun₁, hlast⟩ := run_last hrun
  obtain ⟨hbefore, hcommit⟩ := throughout_last htimely
  have hsound := run_invariant (fun s a s' ha (hi : Sound place s) hnext =>
    hi.next ha hnext) actions (State.new n) s₁ hbefore (sound_new place) hrun₁
  exact hsound.committed (hcommit s₁ hrun₁) hlast

def home : IpAddr := .v4 ⟨192, 0, 2, 1⟩

/-- A user online has traffic, a report is taken, more is recorded, and the report is committed. -/
def reported : List Action :=
  [.addAliveIp "a" 7 home none, .addTraffic "a" 7 100 0, .snapshotAlive "a" 1 100] ++
    List.replicate 33 (.nextShard 0) ++
    [.addTraffic "a" 7 5 2, .commitAlive 0, .commitNext 0 7]

theorem commit_keeps_newer_reported :
    ∃ s r, run (next shard) (.new shardCount) (reported ++ [.committed 0]) = some s ∧
      s.reports[0]? = some r ∧ r.since 7 = 7 ∧ (s.shards (shard 7)).online "a" 7 = true ∧
      r.since 7 ≤ (s.shards (shard 7)).traffic "a" 7 := by
  obtain ⟨r, hr, hkeeps⟩ := commit_keeps_newer shard reported 0 _ (by decide +kernel) rfl
  cases hr
  exact ⟨_, _, rfl, rfl, by decide +kernel, by decide +kernel, hkeeps 7 (by decide +kernel)⟩

/-- **A commit eats the traffic of a new connection.** The user disconnects after the report was
taken, which forgets their counter, connects again and has new traffic. The commit takes the old
traffic off the new counter. -/
theorem commit_eats_newer : ∃ s r, run (next shard) (.new shardCount)
        ([.addAliveIp "a" 7 home none, .addTraffic "a" 7 100 0, .snapshotAlive "a" 1 100] ++
          List.replicate 33 (.nextShard 0) ++
          [.removeAliveIp "a" 7 home, .addAliveIp "a" 7 home none, .addTraffic "a" 7 50 0,
            .commitAlive 0, .commitNext 0 7, .committed 0]) = some s ∧
      s.reports[0]? = some r ∧ r.since 7 = 50 ∧ (s.shards (shard 7)).online "a" 7 = true ∧
      (s.shards (shard 7)).traffic "a" 7 = 0 :=
  ⟨_, _, rfl, rfl, by decide +kernel, by decide +kernel, by decide +kernel⟩

end Shoes.V2board.AliveReports
