import Shoes.Lib.Assoc
import Shoes.Lib.IpText

/-! # The traffic tracker

Bytes are counted for each node and user until a snapshot takes them to be reported. Users are
spread over shards with a lock each. Here is what happens in one shard, under its lock. -/
namespace Shoes.V2board.Tracker
open Lib.Assoc Lib.IpText Option

def u64Max : Nat := 18446744073709551615

def saturatingAdd (a b : Nat) : Nat := min (a + b) u64Max

theorem saturatingAdd_eq {a b} (h : a + b ≤ u64Max) : saturatingAdd a b = a + b :=
  min_eq_left h

inductive Direction
  | upload
  | download

structure TrafficCounter where
  upload : Nat
  download : Nat
  deriving DecidableEq

namespace TrafficCounter

def bytes (c : TrafficCounter) : Direction → Nat
  | .upload => c.upload
  | .download => c.download

def default : TrafficCounter := ⟨0, 0⟩

def isZero (c : TrafficCounter) : Bool := c.upload = 0 && c.download = 0

def count (c : TrafficCounter) (upload download : Nat) : TrafficCounter :=
  ⟨saturatingAdd c.upload upload, saturatingAdd c.download download⟩

/-- The bytes can be counted without saturation. -/
def Room (c : TrafficCounter) (upload download : Nat) : Prop :=
  c.upload + upload ≤ u64Max ∧ c.download + download ≤ u64Max

instance (c : TrafficCounter) (upload download : Nat) : Decidable (c.Room upload download) :=
  inferInstanceAs (Decidable (_ ∧ _))

/-- There is enough to report. -/
def due (minTraffic : Nat) (c : TrafficCounter) : Bool :=
  let total := saturatingAdd c.upload c.download
  minTraffic ≤ total && 0 < total

/-- What a snapshot leaves of a counter. -/
def settle (minTraffic : Nat) (c : TrafficCounter) : TrafficCounter :=
  if c.due minTraffic then default else c

theorem due_default (minTraffic) : default.due minTraffic = false := by
  simp [due, default, saturatingAdd, u64Max]

theorem settle_default (minTraffic) : default.settle minTraffic = default := by
  unfold settle
  split <;> rfl

theorem eq_default_of_isZero {c} (h : c.isZero = true) : c = default := by
  simp only [isZero, Bool.and_eq_true, decide_eq_true_eq] at h
  obtain ⟨_, _⟩ := h
  cases c
  simp_all [default]

end TrafficCounter

abbrev Users := Map UInt64 TrafficCounter

/-- What one shard holds, by node. -/
abbrev Traffic := Map String Users

/-- A report: upload and download by the decimal text of the user id. -/
abbrev TrafficPayload := Map (List UInt8) (Nat × Nat)

def uidText (uid : UInt64) : List UInt8 := numText 10 uid.toNat

def nodeMap (traffic : Traffic) (node : String) : Users := (traffic.get node).getD .empty

def counterAt (traffic : Traffic) (node : String) (uid : UInt64) : TrafficCounter :=
  ((nodeMap traffic node).get uid).getD .default

/-! ## One shard -/

section
variable (traffic : Traffic) (node : String)

/-- `*entry(uid).or_default()` with bytes counted on it. -/
def countAt (uid : UInt64) (upload download : Nat) : Traffic :=
  traffic.insert node
    ((nodeMap traffic node).insert uid ((counterAt traffic node uid).count upload download))

def addShard (uid : UInt64) (upload download : Nat) : Traffic :=
  if upload = 0 ∧ download = 0 then traffic else countAt traffic node uid upload download

/-- An entry that is due goes into the report. -/
def collectEntry (minTraffic : Nat) (payload : TrafficPayload) (uid : UInt64)
    (c : TrafficCounter) : TrafficPayload :=
  if c.due minTraffic then payload.insert (uidText uid) (c.upload, c.download) else payload

def collect (minTraffic : Nat) (entries : List (UInt64 × TrafficCounter))
    (payload : TrafficPayload) : TrafficPayload :=
  entries.foldl (fun payload e => collectEntry minTraffic payload e.1 e.2) payload

/-- A node without users is removed. -/
def putNode (users : Users) : Traffic :=
  if users.entries.isEmpty then traffic.remove node else traffic.insert node users

/-- The part of `snapshot_traffic` under one lock. A counter that is left as it is stays, and one
that is zero goes. -/
def snapshotShard (minTraffic : Nat) (payload : TrafficPayload) : TrafficPayload × Traffic :=
  match traffic.get node with
  | none => (payload, traffic)
  | some users =>
    (collect minTraffic users.entries payload,
      putNode traffic node (users.retain fun _ c => !(c.settle minTraffic).isZero))

/-- The part of `restore_traffic` under one lock. -/
def restoreShard (uid : UInt64) (bytes : Nat × Nat) : Traffic :=
  countAt traffic node uid bytes.1 bytes.2

/-- The part of `reconcile_users` under one lock. -/
def reconcileShard (activeUids : List UInt64) : Traffic :=
  match traffic.get node with
  | none => traffic
  | some users => putNode traffic node (users.retain fun uid _ => decide (uid ∈ activeUids))

/-- `remove_user_from_node_map`. -/
def removeShard (uid : UInt64) : Traffic :=
  match traffic.get node with
  | none => traffic
  | some users => putNode traffic node (users.remove uid)

end

/-! ### What these do to a counter -/

section
variable (traffic : Traffic) (node : String)

variable (users : Users)

variable (node' : String)

theorem nodeMap_insert : nodeMap (traffic.insert node users) node' =
      if node' = node then users else nodeMap traffic node' := by
  unfold nodeMap
  rw [Map.get_insert]
  split <;> rfl

theorem nodeMap_putNode (uid) : (nodeMap (putNode traffic node users) node').get uid =
      if node' = node then users.get uid else (nodeMap traffic node').get uid := by
  unfold putNode
  split
  next hempty =>
    have hnone : users.get uid = none := by
      unfold Map.get
      rw [List.isEmpty_iff.mp hempty]
      rfl
    unfold nodeMap
    rw [Map.get_remove]
    split
    · rw [hnone]
      rfl
    · rfl
  rw [nodeMap_insert]
  split <;> rfl

theorem counterAt_countAt (uid upload download node' uid') :
    counterAt (countAt traffic node uid upload download) node' uid' =
      if node' = node ∧ uid' = uid then (counterAt traffic node uid).count upload download
      else counterAt traffic node' uid' := by
  unfold countAt
  rw [counterAt, nodeMap_insert]
  by_cases hnode : node' = node
  · rw [if_pos hnode, Map.get_insert, hnode]
    by_cases huid : uid' = uid
    · simp [huid]
    · simp [huid, counterAt]
  · simp [hnode, counterAt]

theorem counterAt_of_none {traffic node} (h : traffic.get node = none)
    (uid) : counterAt traffic node uid = .default := by
  simp [counterAt, nodeMap, h]

theorem counterAt_of_some {traffic node users} (h : traffic.get node = some users) (uid) :
    counterAt traffic node uid = (users.get uid).getD .default := by
  simp [counterAt, nodeMap, h]

theorem counterAt_putNode (uid) : counterAt (putNode traffic node users) node' uid =
      if node' = node then (users.get uid).getD .default else counterAt traffic node' uid := by
  rw [counterAt, nodeMap_putNode]
  split <;> rfl

theorem counterAt_snapshotShard (minTraffic payload node' uid) :
    counterAt (snapshotShard traffic node minTraffic payload).2 node' uid =
      if node' = node then (counterAt traffic node uid).settle minTraffic
      else counterAt traffic node' uid := by
  unfold snapshotShard
  split
  next hnone =>
    rw [counterAt_of_none hnone, TrafficCounter.settle_default]
    split
    next hnode => rw [hnode, counterAt_of_none hnone]
    · rfl
  rename_i users hsome
  rw [counterAt_putNode, counterAt_of_some hsome]
  refine if_congr Iff.rfl ?_ rfl
  rw [Map.get_retain]
  rcases hget : users.get uid with _ | c
  · exact (TrafficCounter.settle_default minTraffic).symm
  cases hzero : (c.settle minTraffic).isZero with
  | true =>
    rw [filter_some_neg (by simp [hzero])]
    exact (TrafficCounter.eq_default_of_isZero hzero).symm
  | false =>
    rw [filter_some_pos (by simp [hzero])]
    -- what stays was not due
    show c = c.settle minTraffic
    unfold TrafficCounter.settle at hzero ⊢
    split
    next hdue =>
      rw [if_pos hdue] at hzero
      cases hzero
    · rfl

theorem counterAt_reconcileShard {activeUids uid node'} (h : node' = node → uid ∈ activeUids) :
    counterAt (reconcileShard traffic node activeUids) node' uid = counterAt traffic node' uid := by
  unfold reconcileShard
  split
  · rfl
  rename_i users hsome
  rw [counterAt_putNode]
  split
  next hnode =>
    rw [hnode, counterAt_of_some hsome, Map.get_retain]
    cases users.get uid with
    | none => rfl
    | some c => rw [filter_some_pos (by simpa using h hnode)]
  · rfl

theorem reconcileShard_default {activeUids uid node'} (h : counterAt traffic node' uid = .default) :
    counterAt (reconcileShard traffic node activeUids) node' uid = .default := by
  by_cases hactive : node' = node → uid ∈ activeUids
  · rw [counterAt_reconcileShard traffic node hactive, h]
  obtain ⟨hnode, hgone⟩ := Classical.not_imp.mp hactive
  unfold reconcileShard
  split
  · exact h
  rw [counterAt_putNode, if_pos hnode, Map.get_retain]
  cases Map.get _ uid with
  | none => rfl
  | some c => rw [filter_some_neg (by simpa using hgone)]; rfl

theorem removeShard_default {removed uid node'} (h : counterAt traffic node' uid = .default) :
    counterAt (removeShard traffic node removed) node' uid = .default := by
  unfold removeShard
  split
  · exact h
  rename_i users hsome
  rw [counterAt_putNode]
  split
  swap
  · exact h
  rename_i hnode
  rw [hnode, counterAt_of_some hsome] at h
  rw [Map.get_remove]
  split
  · rfl
  · exact h

theorem counterAt_removeShard {removed uid node'} (h : node' = node → uid ≠ removed) :
    counterAt (removeShard traffic node removed) node' uid = counterAt traffic node' uid := by
  unfold removeShard
  split
  · rfl
  rename_i users hsome
  rw [counterAt_putNode]
  split
  next hnode => rw [hnode, counterAt_of_some hsome, Map.get_remove_ne _ (h hnode)]
  · rfl

end

/-! ### What a snapshot reports -/

theorem uidText_injective : Function.Injective uidText := by
  intro uid uid' h
  have hparse := congrArg parseU64 h
  rw [uidText, uidText, parseU64_numText, parseU64_numText] at hparse
  exact Option.some.inj hparse

theorem collect_get (minTraffic entries) (hn : (entries.map Prod.fst).Nodup) (payload uid) :
    (collect minTraffic entries payload).get (uidText uid) =
      if ((entries.lookup uid).getD .default).due minTraffic then
        some (((entries.lookup uid).getD .default).upload,
          ((entries.lookup uid).getD .default).download)
      else payload.get (uidText uid) := by
  induction entries generalizing payload with
  | nil => simp [collect, TrafficCounter.due_default]
  | cons e entries ih =>
    simp only [List.map_cons, List.nodup_cons] at hn
    show (collect minTraffic entries (collectEntry minTraffic payload e.1 e.2)).get _ = _
    rw [ih hn.2, collectEntry]
    by_cases hk : uid = e.1
    · have hnone : entries.lookup uid = none := lookup_eq_none.mpr (hk ▸ hn.1)
      rw [lookup_cons_eq hk, hnone, getD_none, getD_some,
        TrafficCounter.due_default, if_neg Bool.false_ne_true, hk]
      split
      · exact Map.get_insert_self _ _ _
      · rfl
    have hother : uidText uid ≠ uidText e.1 := fun h => hk (uidText_injective h)
    rw [lookup_cons_ne hk]
    refine if_congr Iff.rfl rfl ?_
    split
    · exact Map.get_insert_ne _ hother _
    · rfl

theorem collect_keys {minTraffic entries} (hn : (entries.map Prod.fst).Nodup) {payload text}
    (h : (collect minTraffic entries payload).contains text = true) : payload.contains text = true ∨
      ∃ uid, text = uidText uid ∧ ((entries.lookup uid).getD .default).due minTraffic = true := by
  induction entries generalizing payload with
  | nil => exact .inl h
  | cons e entries ih =>
    simp only [List.map_cons, List.nodup_cons] at hn
    rcases ih hn.2 h with hold | ⟨uid, htext, hdue⟩
    · dsimp only [collectEntry] at hold
      split at hold
      next hdue =>
        unfold Map.contains at hold
        rw [Map.get_insert] at hold
        split at hold
        next htext => exact .inr ⟨e.1, htext, by rwa [lookup_cons_eq rfl]⟩
        · exact .inl hold
      · exact .inl hold
    refine .inr ⟨uid, htext, ?_⟩
    by_cases hk : uid = e.1
    · have hnone : entries.lookup uid = none := lookup_eq_none.mpr (hk ▸ hn.1)
      rw [hnone, getD_none, TrafficCounter.due_default] at hdue
      cases hdue
    · rwa [lookup_cons_ne hk]

section
variable (traffic : Traffic) (node : String) (minTraffic : Nat)

theorem snapshotShard_get (payload uid) :
    (snapshotShard traffic node minTraffic payload).1.get (uidText uid) =
      if (counterAt traffic node uid).due minTraffic then
        some ((counterAt traffic node uid).upload, (counterAt traffic node uid).download)
      else payload.get (uidText uid) := by
  unfold snapshotShard
  split
  next hnone =>
    rw [counterAt_of_none hnone, TrafficCounter.due_default]
    rfl
  rename_i users hsome
  rw [counterAt_of_some hsome]
  exact collect_get minTraffic users.entries users.nodup payload uid

theorem snapshotShard_keys {payload text}
    (h : (snapshotShard traffic node minTraffic payload).1.contains text = true) :
    payload.contains text = true ∨
      ∃ uid, text = uidText uid ∧ (counterAt traffic node uid).due minTraffic = true := by
  unfold snapshotShard at h
  split at h
  · exact .inl h
  rename_i users hsome
  rcases collect_keys users.nodup h with hold | ⟨uid, htext, _⟩
  · exact .inl hold
  · exact .inr ⟨uid, htext, by rwa [counterAt_of_some hsome]⟩

end

end Shoes.V2board.Tracker
