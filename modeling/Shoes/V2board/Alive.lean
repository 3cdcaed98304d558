import Shoes.Lib.NestedMap
import Shoes.V2board.RuntimeModel
import Shoes.V2board.Tracker

/-! # Users online

Besides the traffic of its users a shard counts their open connections by source address, the
traffic of those who are online, and what the panel has last said about them. Here is what happens
to these in one shard, under its lock. -/
namespace Shoes.V2board.Alive
open Lib.Assoc Lib.NestedMap Lib.IpText RuntimeModel Option
open Tracker

/-- Open connections by source address. -/
abbrev Ips := Map IpAddr Nat

structure TrackerState where
  alive : Nested String UInt64 Ips
  aliveTraffic : Nested String UInt64 Nat
  panelAlive : Nested String UInt64 Nat
  deriving DecidableEq

namespace TrackerState

def empty : TrackerState := ⟨.empty, .empty, .empty⟩

section
variable (s : TrackerState) (node : String)

/-- The addresses a user is connected from. -/
def ips (uid : UInt64) : Ips :=
  (find s.alive node uid).getD .empty

def traffic (uid : UInt64) : Nat :=
  (find s.aliveTraffic node uid).getD 0

/-- The user has an open connection. -/
def online (uid : UInt64) : Bool :=
  (find s.alive node uid).any (!·.entries.isEmpty)

/-- `let Some(limit) = device_limit && limit > 0 && count >= limit`. -/
def reached (deviceLimit : Option Nat) (count : Nat) : Bool :=
  match deviceLimit with
  | some limit => 0 < limit && limit ≤ count
  | none => false

/-- An address that is new is held against what the panel says first, and then against the
addresses counted here. -/
def addAliveIpAndCheckLimit (uid : UInt64) (ip : IpAddr)
    (deviceLimit : Option Nat) : Bool × TrackerState :=
  let alreadyLocal := (find s.alive node uid).any (·.contains ip)
  if !alreadyLocal && reached deviceLimit ((find s.panelAlive node uid).getD 0) then (false, s)
  else
    let ips := s.ips node uid
    if !ips.contains ip && reached deviceLimit ips.size then
      (false, { s with alive := put s.alive node uid ips })
    else
      (true, { s with alive := put s.alive node uid (ips.insert ip ((ips.get ip).getD 0 + 1)) })

/-- One connection less from an address. -/
def lessOne (ips : Ips) (ip : IpAddr) : Ips :=
  match ips.get ip with
  | none => ips
  | some count => if count - 1 = 0 then ips.remove ip else ips.insert ip (count - 1)

/-- A user without an address is not online, and their traffic is forgotten. -/
def removeAliveIp (uid : UInt64) (ip : IpAddr) : TrackerState :=
  match s.alive.get node with
  | none => s
  | some users =>
    match users.get uid with
    | none => s
    | some ips =>
      let left := lessOne ips ip
      if left.entries.isEmpty then
        { s with
          alive := settle s.alive node (users.remove uid)
          aliveTraffic := remove s.aliveTraffic node uid }
      else { s with alive := settle s.alive node (users.insert uid left) }

/-- The part of `add_traffic` that is about users online. -/
def addAliveTraffic (uid : UInt64) (upload download : Nat) : TrackerState :=
  if upload = 0 ∧ download = 0 then s
  else if s.online node uid then
    { s with
      aliveTraffic := put s.aliveTraffic node uid
        (saturatingAdd (s.traffic node uid) (saturatingAdd upload download)) }
  else s

/-- A user of a report, with their traffic and the addresses they are connected from. -/
structure Collected where
  uid : UInt64
  traffic : Nat
  ips : List (List UInt8)
  deriving DecidableEq

def ipText : IpAddr → List UInt8
  | .v4 addr => addr.text
  | .v6 addr => addr.text

/-- The part of `snapshot_alive` under one lock: the users who had enough traffic; 95 is the
underscore. -/
def snapshotAlive (nodeId minTraffic : Nat) : List Collected :=
  match s.alive.get node with
  | none => []
  | some users =>
    users.entries.filterMap fun e =>
      if e.2.entries.isEmpty then none
      else if s.traffic node e.1 < minTraffic then none
      else some ⟨e.1, s.traffic node e.1,
        e.2.entries.map fun i => ipText i.1 ++ 95 :: numText 10 nodeId⟩

/-- One turn of `commit_alive_snapshot`. -/
def commitUser (uid : UInt64) (consumed : Nat) : TrackerState :=
  match s.aliveTraffic.get node with
  | none => s
  | some users =>
    match users.get uid with
    | none => { s with aliveTraffic := settle s.aliveTraffic node users }
    | some current =>
      let left := if current - consumed = 0 then users.remove uid
        else users.insert uid (current - consumed)
      { s with aliveTraffic := settle s.aliveTraffic node left }

/-- `replace_panel_alive`, with the users of this shard. -/
def replacePanelAlive (subset : Map UInt64 Nat) : TrackerState :=
  { s with panelAlive := settle s.panelAlive node subset }

def reconcileUsers (activeUids : List UInt64) : TrackerState where
  alive := retain s.alive node fun uid _ => decide (uid ∈ activeUids)
  aliveTraffic := retain s.aliveTraffic node fun uid _ => decide (uid ∈ activeUids)
  panelAlive := retain s.panelAlive node fun uid _ => decide (uid ∈ activeUids)

/-- `remove_users`, for one of them. -/
def removeUser (uid : UInt64) : TrackerState where
  alive := remove s.alive node uid
  aliveTraffic := remove s.aliveTraffic node uid
  panelAlive := remove s.panelAlive node uid

end

/-! ### What these do to the addresses of a user -/

section
variable (s : TrackerState) (node : String) (uid : UInt64) (ip : IpAddr)

variable (ips : Ips)

variable (node' : String)

theorem ips_put (uid') : TrackerState.ips { s with alive := put s.alive node uid ips } node' uid' =
      if node' = node ∧ uid' = uid then ips else s.ips node' uid' := by
  unfold TrackerState.ips
  rw [find_put]
  split <;> rfl

theorem ips_rejected {deviceLimit}
    (h : (s.addAliveIpAndCheckLimit node uid ip deviceLimit).1 = false) (node' uid') :
    (s.addAliveIpAndCheckLimit node uid ip deviceLimit).2.ips node' uid' = s.ips node' uid' := by
  unfold addAliveIpAndCheckLimit at h ⊢
  dsimp only at h ⊢
  split
  · rfl
  rename_i hpanel
  rw [if_neg hpanel] at h
  split
  · rw [ips_put]
    split
    next heq => rw [heq.1, heq.2]
    · rfl
  rename_i hlocal
  rw [if_neg hlocal] at h
  cases h

theorem ips_admitted {deviceLimit}
    (h : (s.addAliveIpAndCheckLimit node uid ip deviceLimit).1 = true) :
    ((s.ips node uid).contains ip = true ∨ reached deviceLimit (s.ips node uid).size = false) ∧
      ∀ node' uid', (s.addAliveIpAndCheckLimit node uid ip deviceLimit).2.ips node' uid' =
        if node' = node ∧ uid' = uid then
          (s.ips node uid).insert ip (((s.ips node uid).get ip).getD 0 + 1)
        else s.ips node' uid' := by
  unfold addAliveIpAndCheckLimit at h ⊢
  dsimp only at h ⊢
  split at h
  · cases h
  rename_i hpanel
  rw [if_neg hpanel]
  split at h
  · cases h
  rename_i hlocal
  rw [if_neg hlocal]
  refine ⟨?_, fun node' uid' => ips_put ..⟩
  cases hip : (s.ips node uid).contains ip with
  | true => exact .inl rfl
  | false =>
    rw [hip, Bool.not_false, Bool.true_and, Bool.not_eq_true] at hlocal
    exact .inr hlocal

theorem get_lessOne (ip') : (lessOne ips ip).get ip' =
      if ip' = ip then (ips.get ip).bind fun count => if count - 1 = 0 then none else some
    (count - 1)
      else ips.get ip' := by
  unfold lessOne
  split
  next hnone =>
    rw [hnone]
    split
    next heq =>
      rw [heq, hnone]
      rfl
    · rfl
  rename_i count hsome
  rw [hsome, bind_some]
  by_cases hzero : count - 1 = 0
  · rw [if_pos hzero, if_pos hzero, Map.get_remove]
  · rw [if_neg hzero, if_neg hzero, Map.get_insert]

theorem size_lessOne_le : (lessOne ips ip).size ≤ ips.size := by
  unfold lessOne
  split
  · exact le_rfl
  rename_i count hsome
  split
  · exact ips.size_remove_le ip
  · exact ips.size_insert_of_contains (by rw [Map.contains, hsome]; rfl) _

theorem ips_removeAliveIp (uid') : (s.removeAliveIp node uid ip).ips node' uid' =
      if node' = node ∧ uid' = uid then lessOne (s.ips node uid) ip else s.ips node' uid' := by
  have hempty : lessOne .empty ip = .empty := rfl
  have hnone (h : find s.alive node uid = none) : s.ips node' uid' =
        if node' = node ∧ uid' = uid then lessOne (s.ips node uid) ip else s.ips node' uid' := by
    split
    next heq =>
      rw [heq.1, heq.2, TrackerState.ips, h]
      exact hempty.symm
    · rfl
  unfold removeAliveIp
  split
  next hnode => exact hnone (find_of_none hnode uid)
  rename_i users hnode
  split
  next huid => exact hnone (by rw [find_of_some hnode, huid])
  rename_i ips huid
  have hips : s.ips node uid = ips := by
    rw [TrackerState.ips, find_of_some hnode, huid]
    rfl
  rw [hips]
  dsimp only
  split
  next hleft =>
    have hempty : lessOne ips ip = .empty := by
      cases hl : lessOne ips ip with
      | mk =>
        rw [hl] at hleft
        cases List.isEmpty_iff.mp hleft
        rfl
    refine getD_settle hnode (fun uid' => ?_) ..
    rw [Map.get_remove, hempty]
    split <;> rfl
  refine getD_settle hnode (fun uid' => ?_) ..
  rw [Map.get_insert]
  split <;> rfl

theorem ips_reconcileUsers (activeUids node' uid') :
    (s.reconcileUsers node activeUids).ips node' uid' =
      if node' = node ∧ uid' ∉ activeUids then .empty else s.ips node' uid' := by
  unfold TrackerState.ips reconcileUsers
  rw [find_retain]
  by_cases hn : node' = node
  swap
  · rw [if_neg hn, if_neg fun h => hn h.1]
  rw [if_pos hn, hn]
  by_cases hu : uid' ∈ activeUids
  · rw [if_neg fun h => h.2 hu]
    cases find s.alive node uid' with
    | none => rfl
    | some => rw [filter_some_pos (by simpa using hu)]
  rw [if_pos ⟨rfl, hu⟩]
  rcases find s.alive node uid' with _ | _
  · rfl
  rw [filter_some_neg (by simpa using hu)]
  rfl

theorem ips_removeUser (uid') : (s.removeUser node uid).ips node' uid' =
      if node' = node ∧ uid' = uid then .empty else s.ips node' uid' := by
  unfold TrackerState.ips removeUser
  rw [find_remove]
  split <;> rfl

end

/-! ### Who is online, and their traffic -/

section
variable (s : TrackerState) (node : String) (uid : UInt64)

theorem online_of_same {s s' : TrackerState} {node uid}
    (h : s'.ips node uid = s.ips node uid) : s'.online node uid = s.online node uid := by
  have hips (t : TrackerState) : t.online node uid = !(t.ips node uid).entries.isEmpty := by
    unfold online TrackerState.ips
    cases find t.alive node uid <;> rfl
  rw [hips, hips, h]

theorem online_iff : s.online node uid = true ↔ (s.ips node uid).entries ≠ [] := by
  unfold online TrackerState.ips
  cases find s.alive node uid with
  | none => exact ⟨fun h => (by cases h), fun h => absurd rfl h⟩
  | some => simp

theorem online_admitted {ip deviceLimit}
    (h : (s.addAliveIpAndCheckLimit node uid ip deviceLimit).1 = true) {node' uid'}
    (hother : ¬(node' = node ∧ uid' = uid)) :
    (s.addAliveIpAndCheckLimit node uid ip deviceLimit).2.online node' uid' =
      s.online node' uid' := by
  refine online_of_same ?_
  rw [(ips_admitted s node uid ip h).2, if_neg hother]

theorem aliveTraffic_addAliveIp (ip deviceLimit) :
    (s.addAliveIpAndCheckLimit node uid ip deviceLimit).2.aliveTraffic = s.aliveTraffic := by
  unfold addAliveIpAndCheckLimit
  dsimp only
  split
  · rfl
  · split <;> rfl

theorem traffic_of_same {s s' : TrackerState} (h : s'.aliveTraffic = s.aliveTraffic)
    (node uid) : s'.traffic node uid = s.traffic node uid := by
  unfold TrackerState.traffic
  rw [h]

theorem lessOne_nil {ips} (h : ips.entries = []) (ip) : (lessOne ips ip).entries = [] := by
  have hget : ips.get ip = none := get_of_isEmpty (by rw [h]; rfl) ip
  unfold lessOne
  rw [hget]
  exact h

theorem removeAliveIp_online {ip node' uid'}
    (h : (s.removeAliveIp node uid ip).online node' uid' = true) : s.online node' uid' = true ∧
      (s.removeAliveIp node uid ip).traffic node' uid' = s.traffic node' uid' := by
  have hips := ips_removeAliveIp s node uid ip node' uid'
  rw [online_iff, hips] at h
  rw [online_iff]
  by_cases hown : node' = node ∧ uid' = uid
  · rw [if_pos hown] at h
    obtain ⟨rfl, rfl⟩ := hown
    refine ⟨fun hnil => h (lessOne_nil hnil ip), ?_⟩
    unfold removeAliveIp
    split
    · rfl
    rename_i users hnode
    split
    · rfl
    rename_i ips huid
    have heq : s.ips node' uid' = ips := by
      rw [TrackerState.ips, find_of_some hnode, huid]
      rfl
    dsimp only
    split
    next hleft =>
      rw [heq] at h
      exact absurd (List.isEmpty_iff.mp hleft) h
    · rfl
  rw [if_neg hown] at h
  refine ⟨h, ?_⟩
  unfold removeAliveIp
  split
  · rfl
  split
  · rfl
  dsimp only
  split
  · unfold TrackerState.traffic
    rw [find_remove, if_neg hown]
  · rfl

theorem online_addAliveTraffic (upload download node' uid') :
    (s.addAliveTraffic node uid upload download).online node' uid' = s.online node' uid' := by
  unfold addAliveTraffic
  split
  · rfl
  · split <;> rfl

theorem traffic_addAliveTraffic_ne {upload download node' uid'} (h : ¬(node' = node ∧ uid' = uid)) :
    (s.addAliveTraffic node uid upload download).traffic node' uid' = s.traffic node' uid' := by
  unfold addAliveTraffic
  split
  · rfl
  split
  · unfold TrackerState.traffic
    rw [find_put, if_neg h]
  · rfl

theorem traffic_addAliveTraffic {upload download} (honline : s.online node uid = true)
    (hroom : s.traffic node uid + (upload + download) ≤ u64Max) :
    (s.addAliveTraffic node uid upload download).traffic node uid =
      s.traffic node uid + (upload + download) := by
  have hsum : saturatingAdd upload download = upload + download := saturatingAdd_eq (by omega)
  unfold addAliveTraffic
  split
  next hzero =>
    rw [hzero.1, hzero.2]
    rfl
  show ((find (put s.aliveTraffic node uid _) node uid).getD 0) = _
  rw [find_put, if_pos ⟨rfl, rfl⟩, getD_some, hsum, saturatingAdd_eq hroom]

variable (consumed : Nat)

theorem commitUser_alive : (s.commitUser node uid consumed).alive = s.alive := by
  unfold commitUser
  split
  · rfl
  · split <;> rfl

theorem online_commitUser (node' uid') :
    (s.commitUser node uid consumed).online node' uid' = s.online node' uid' := by
  unfold online
  rw [commitUser_alive]

theorem traffic_commitUser (node' uid') : (s.commitUser node uid consumed).traffic node' uid' =
      if node' = node ∧ uid' = uid then s.traffic node uid - consumed
      else s.traffic node' uid' := by
  unfold commitUser
  split
  next hnode =>
    split
    next hown =>
      rw [hown.1, hown.2, TrackerState.traffic, find_of_none hnode]
      exact (Nat.zero_sub consumed).symm
    · rfl
  rename_i users hnode
  have hown : s.traffic node uid = (users.get uid).getD 0 :=
    congrArg (getD · 0) (find_of_some hnode uid)
  rw [hown]
  split
  next huid =>
    refine getD_settle hnode (fun uid' => ?_) ..
    split
    next hu =>
      rw [hu, huid]
      exact (Nat.zero_sub consumed).symm
    · rfl
  rename_i current huid
  refine getD_settle hnode (fun uid' => ?_) ..
  rw [huid]
  split
  next hzero =>
    rw [Map.get_remove]
    split
    · exact hzero.symm
    · rfl
  rw [Map.get_insert]
  split <;> rfl

theorem mem_snapshotAlive {nodeId minTraffic c} (h : c ∈ s.snapshotAlive node nodeId minTraffic) :
    s.online node c.uid = true ∧ c.traffic = s.traffic node c.uid := by
  unfold snapshotAlive at h
  split at h
  · cases h
  rename_i users hnode
  obtain ⟨e, he, hsome⟩ := List.mem_filterMap.mp h
  obtain ⟨hips, hsome⟩ := ite_none_left_eq_some.mp hsome
  split at hsome <;> cases hsome
  have hget : users.get e.1 = some e.2 := lookup_of_mem users.nodup he
  rw [online, find_of_some hnode, hget]
  exact ⟨by simpa using hips, rfl⟩

end

end TrackerState

end Shoes.V2board.Alive
