import Shoes.V2board.Tracker
import Shoes.Lib.Machine
import Shoes.Lib.Tally

/-! # Traffic reports

A snapshot takes one shard's lock after the other, and traffic is counted in between. A report that
fails is put back, user by user. For each user the bytes only move between the counters, the reports
and what the panel has acknowledged. -/
namespace Shoes.V2board.TrackerRuns
open Lib.Assoc Lib.IpText Lib.Tally Tracker List Option

/-- Where a report is: it is being taken, shard by shard; it is waiting for the panel; or it has
failed and is being put back. -/
inductive Phase
  | taking (minTraffic next : Nat)
  | taken
  | restoring
  deriving DecidableEq

structure Report where
  node : String
  payload : TrafficPayload
  phase : Phase
  deriving DecidableEq

/-- The tracker, and the reports that the panel has not acknowledged. `acknowledged` and `added`
only record what was reported and what was counted. -/
structure State (n : Nat) where
  shards : Fin n → Traffic
  reports : List Report
  acknowledged : List (String × TrafficPayload)
  added : List (String × UInt64 × TrafficCounter)

/-- What happens under one lock, and what becomes of a report in between. -/
inductive Action
  | addTraffic (node : String) (uid : UInt64) (upload download : Nat)
  | snapshotTraffic (node : String) (minTraffic : Nat)
  | nextShard (report : Nat)
  | acknowledge (report : Nat)
  | restoreTraffic (report : Nat)
  | restoreNext (report : Nat) (text : List UInt8)
  | restored (report : Nat)
  | reconcileUsers (node : String) (activeUids : List UInt64) (shard : Nat)
  | removeUser (node : String) (uid : UInt64)

namespace State
variable {n : Nat}

def empty (n : Nat) : State n := ⟨fun _ => .empty, [], [], []⟩

def setShard (s : State n) (j : Fin n) (traffic : Traffic) : State n :=
  { s with shards := Function.update s.shards j traffic }

def setReport (s : State n) (i : Nat) (r : Report) : State n :=
  { s with reports := s.reports.set i r }

end State

section
variable {n : Nat} (place : UInt64 → Fin n)

def nextShard (s : State n) (i : Nat) (node : String) (payload : TrafficPayload)
    (minTraffic k : Nat) : State n :=
  if h : k < n then
    let taken := snapshotShard (s.shards ⟨k, h⟩) node minTraffic payload
    (s.setShard ⟨k, h⟩ taken.2).setReport i ⟨node, taken.1, .taking minTraffic (k + 1)⟩
  else s.setReport i ⟨node, payload, .taken⟩

/-- One entry of a failed report is put back, if its name is a user id. -/
def restoreEntry (s : State n) (i : Nat) (node : String) (payload : TrafficPayload)
    (text : List UInt8) (bytes : Nat × Nat) : State n :=
  let s := s.setReport i ⟨node, payload.remove text, .restoring⟩
  match parseU64 text with
  | none => s
  | some uid => s.setShard (place uid) (restoreShard (s.shards (place uid)) node uid bytes)

def next (s : State n) : Action → Option (State n)
  | .addTraffic node uid upload download =>
    some { s.setShard (place uid) (addShard (s.shards (place uid)) node uid upload download) with
      added := (node, uid, ⟨upload, download⟩) :: s.added }
  | .snapshotTraffic node minTraffic =>
    some { s with reports := s.reports ++ [⟨node, .empty, .taking minTraffic 0⟩] }
  | .nextShard i =>
    match s.reports[i]? with
    | some ⟨node, payload, .taking minTraffic k⟩ => some (nextShard s i node payload minTraffic k)
    | _ => none
  | .acknowledge i =>
    match s.reports[i]? with
    | some ⟨node, payload, .taken⟩ =>
      some { s with
        reports := s.reports.eraseIdx i
        acknowledged := (node, payload) :: s.acknowledged }
    | _ => none
  | .restoreTraffic i =>
    match s.reports[i]? with
    | some ⟨node, payload, .taken⟩ => some (s.setReport i ⟨node, payload, .restoring⟩)
    | _ => none
  | .restoreNext i text =>
    match s.reports[i]? with
    | some ⟨node, payload, .restoring⟩ =>
      (payload.get text).map (restoreEntry place s i node payload text)
    | _ => none
  | .restored i =>
    match s.reports[i]? with
    | some ⟨_, payload, .restoring⟩ =>
      if payload.entries = [] then some { s with reports := s.reports.eraseIdx i } else none
    | _ => none
  | .reconcileUsers node activeUids k =>
    if h : k < n then some (s.setShard ⟨k, h⟩ (reconcileShard (s.shards ⟨k, h⟩) node activeUids))
    else none
  | .removeUser node uid =>
    some (s.setShard (place uid) (removeShard (s.shards (place uid)) node uid))

end

/-! ### The bytes of one user -/

section
variable {n : Nat} (place : UInt64 → Fin n) (node : String) (uid : UInt64) (dir : Direction)

section
variable (s : State n)

/-- The bytes that the tracker holds. -/
def pending : Nat := (counterAt (s.shards (place uid)) node uid).bytes dir

/-- The bytes that a report names. -/
def named (payloadNode : String) (payload : TrafficPayload) : Nat :=
  if payloadNode = node then
    let bytes := (payload.get (uidText uid)).getD (0, 0)
    match dir with
    | .upload => bytes.1
    | .download => bytes.2
  else 0

/-- The bytes in reports that are not acknowledged. -/
def held : Nat := tally (fun r => named node uid dir r.node r.payload) s.reports

def reported : Nat := tally (fun r => named node uid dir r.1 r.2) s.acknowledged

def added : Nat :=
  tally (fun a => if a.1 = node ∧ a.2.1 = uid then a.2.2.bytes dir else 0) s.added

def Conserved : Prop :=
  added node uid dir s =
    reported node uid dir s + held node uid dir s + pending place node uid dir s

/-- The counter of the user does not saturate, and the user is not removed. -/
def Kept : Action → Prop
  | .addTraffic node' uid' upload download => node' = node → uid' = uid →
    (counterAt (s.shards (place uid)) node uid).Room upload download
  | .restoreNext i text => ∀ r ∈ s.reports[i]?, r.node = node → text = uidText uid →
    ∀ bytes ∈ r.payload.get text,
      (counterAt (s.shards (place uid)) node uid).Room bytes.1 bytes.2
  | .reconcileUsers node' activeUids _ => node' = node → uid ∈ activeUids
  | .removeUser node' uid' => node' = node → uid' ≠ uid
  | _ => True

end

instance Kept.decidable (s : State n) : ∀ a, Decidable (Kept place node uid s a)
  | .addTraffic _ _ _ _ => inferInstanceAs (Decidable (_ → _ → _))
  | .restoreNext i _ => inferInstanceAs (Decidable (∀ r ∈ s.reports[i]?, _))
  | .reconcileUsers _ _ _ => inferInstanceAs (Decidable (_ → _))
  | .removeUser _ _ => inferInstanceAs (Decidable (_ → _))
  | .snapshotTraffic _ _ | .nextShard _ | .acknowledge _ | .restoreTraffic _ | .restored _ =>
    inferInstanceAs (Decidable True)

end

/-- Users are counted in their own shard; a report names users of the shards it has visited. -/
structure Sound {n : Nat} (place : UInt64 → Fin n) (s : State n) : Prop where
  placed : ∀ j node uid, j ≠ place uid → counterAt (s.shards j) node uid = .default
  names : ∀ r ∈ s.reports, ∀ text, r.payload.contains text = true →
    ∃ uid, text = uidText uid ∧ ∀ minTraffic k, r.phase = .taking minTraffic k → (place uid).val < k

section
variable {n : Nat} {place : UInt64 → Fin n} {s s' : State n}

theorem sound_empty (place) : Sound place (.empty n) where
  placed := fun _ _ _ _ => rfl
  names := nofun

theorem counterAt_setShard (s : State n) (j j' traffic node uid) :
    counterAt ((s.setShard j traffic).shards j') node uid =
      if j' = j then counterAt traffic node uid else counterAt (s.shards j') node uid := by
  unfold State.setShard
  dsimp only
  by_cases h : j' = j
  · rw [if_pos h, h, Function.update_self]
  · rw [if_neg h, Function.update_of_ne h]

section
variable (h : Sound place s)
include h

theorem Sound.setShard {j traffic}
    (hplaced : ∀ node uid, j ≠ place uid → counterAt traffic node uid = .default) :
    Sound place (s.setShard j traffic) := by
  refine ⟨fun j' node uid hj => ?_, h.names⟩
  rw [counterAt_setShard]
  split
  next heq => exact hplaced node uid (heq ▸ hj)
  · exact h.placed j' node uid hj

theorem Sound.setReport {i r} (hnames : ∀ text, r.payload.contains text = true →
      ∃ uid, text = uidText uid ∧ ∀ minTraffic k, r.phase = .taking minTraffic k →
        (place uid).val < k) : Sound place (s.setReport i r) := by
  refine ⟨h.placed, fun r' hr' => ?_⟩
  rcases mem_or_eq_of_mem_set hr' with hold | rfl
  · exact h.names r' hold
  · exact hnames

theorem countAt_placed (node uid upload download node' uid') (hother : place uid ≠ place uid') :
    counterAt (countAt (s.shards (place uid)) node uid upload download) node' uid' = .default := by
  rw [counterAt_countAt, if_neg]
  · exact h.placed _ _ _ hother
  intro hsame
  exact hother (by rw [hsame.2])

theorem addShard_placed (node uid upload download node' uid') (hother : place uid ≠ place uid') :
    counterAt (addShard (s.shards (place uid)) node uid upload download) node' uid' = .default := by
  unfold addShard
  split
  · exact h.placed _ _ _ hother
  · exact countAt_placed h node uid upload download node' uid' hother

theorem Sound.nextShard {i node payload minTraffic k}
    (hr : s.reports[i]? = some ⟨node, payload, .taking minTraffic k⟩) :
    Sound place (nextShard s i node payload minTraffic k) := by
  have hnames := h.names _ (mem_of_getElem? hr)
  unfold TrackerRuns.nextShard
  split
  next hk =>
    refine Sound.setReport (h.setShard fun node' uid hj => ?_) fun text htext => ?_
    · rw [counterAt_snapshotShard, h.placed _ _ _ hj, h.placed _ _ _ hj,
        TrafficCounter.settle_default, ite_self]
    rcases snapshotShard_keys _ _ _ htext with hold | ⟨uid, rfl, hdue⟩
    · obtain ⟨uid, htext, hlt⟩ := hnames text hold
      refine ⟨uid, htext, ?_⟩
      rintro _ _ ⟨⟩
      exact Nat.lt_succ_of_lt (hlt _ _ rfl)
    refine ⟨uid, rfl, ?_⟩
    rintro _ _ ⟨⟩
    -- only users of this shard have anything here
    by_cases hj : (⟨k, hk⟩ : Fin n) = place uid
    · rw [← hj]
      exact Nat.lt_succ_self k
    rw [h.placed _ _ _ hj, TrafficCounter.due_default] at hdue
    cases hdue
  · refine h.setReport fun text htext => ?_
    obtain ⟨uid, htext, _⟩ := hnames text htext
    exact ⟨uid, htext, nofun⟩

theorem Sound.restoreEntry {i node payload} (hr : s.reports[i]? = some ⟨node, payload, .restoring⟩)
    (text bytes) : Sound place (restoreEntry place s i node payload text bytes) := by
  have hset : Sound place (s.setReport i ⟨node, payload.remove text, .restoring⟩) := by
    refine h.setReport fun text' htext' => ?_
    have hold : payload.contains text' = true := by
      unfold Map.contains at htext' ⊢
      rw [Map.get_remove] at htext'
      split at htext'
      · cases htext'
      · exact htext'
    obtain ⟨uid, htext, _⟩ := h.names _ (mem_of_getElem? hr) text' hold
    exact ⟨uid, htext, by simp⟩
  unfold TrackerRuns.restoreEntry
  split
  · exact hset
  · exact hset.setShard fun node' uid' hj => countAt_placed hset _ _ _ _ node' uid' hj

theorem Sound.next {a} (hnext : next place s a = some s') : Sound place s' := by
  cases a with
  | addTraffic node uid upload download =>
    cases hnext
    have hset := h.setShard fun node' uid' hj =>
      addShard_placed h node uid upload download node' uid' hj
    exact ⟨hset.placed, hset.names⟩
  | snapshotTraffic =>
    cases hnext
    refine ⟨h.placed, fun r hr => ?_⟩
    rcases mem_append.mp hr with hold | hnew
    · exact h.names r hold
    intro text htext
    rw [mem_singleton.mp hnew] at htext
    cases htext
  | nextShard =>
    rw [TrackerRuns.next] at hnext
    split at hnext <;> cases hnext
    rename_i hr
    exact h.nextShard hr
  | acknowledge =>
    rw [TrackerRuns.next] at hnext
    split at hnext <;> cases hnext
    exact ⟨h.placed, fun r hr => h.names r (mem_of_mem_eraseIdx hr)⟩
  | restoreTraffic =>
    rw [TrackerRuns.next] at hnext
    split at hnext <;> cases hnext
    rename_i hr
    refine h.setReport fun text htext => ?_
    obtain ⟨uid, htext, _⟩ := h.names _ (mem_of_getElem? hr) text htext
    exact ⟨uid, htext, nofun⟩
  | restoreNext i text =>
    rw [TrackerRuns.next] at hnext
    split at hnext
    next hr =>
      obtain ⟨bytes, _, rfl⟩ := map_eq_some_iff.mp hnext
      exact h.restoreEntry hr text bytes
    · cases hnext
  | restored =>
    rw [TrackerRuns.next] at hnext
    split at hnext
    · split at hnext <;> cases hnext
      exact ⟨h.placed, fun r hr => h.names r (mem_of_mem_eraseIdx hr)⟩
    · cases hnext
  | reconcileUsers =>
    rw [TrackerRuns.next] at hnext
    split at hnext <;> cases hnext
    exact h.setShard fun node' uid hj => reconcileShard_default _ _ (h.placed _ _ _ hj)
  | removeUser =>
    cases hnext
    exact h.setShard fun node' uid' hj => removeShard_default _ _ (h.placed _ _ _ hj)

end

end

/-! ### Conservation -/

section
variable {n : Nat} {place : UInt64 → Fin n} {s s' : State n} {node : String} {uid : UInt64}
  {dir : Direction}

theorem pending_setShard (s : State n) (j traffic) :
    pending place node uid dir (s.setShard j traffic) =
      if place uid = j then (counterAt traffic node uid).bytes dir
      else pending place node uid dir s := by
  unfold pending
  rw [counterAt_setShard]
  split <;> rfl

variable {traffic : Traffic}

theorem pending_setShard_same {j} (h : counterAt traffic node uid = counterAt (s.shards j) node uid)
    : pending place node uid dir (s.setShard j traffic) = pending place node uid dir s := by
  rw [pending_setShard]
  split
  next hplace => rw [h, pending, hplace]
  · rfl

theorem held_setReport {i rnode payload payload' phase phase'}
    (hr : s.reports[i]? = some ⟨rnode, payload, phase⟩) :
    held node uid dir (s.setReport i ⟨rnode, payload', phase'⟩) + named node uid dir rnode payload =
      held node uid dir s + named node uid dir rnode payload' :=
  tally_set hr _

theorem held_eraseIdx {i rnode payload phase} (hr : s.reports[i]? = some ⟨rnode, payload, phase⟩) :
    tally (fun r => named node uid dir r.node r.payload) (s.reports.eraseIdx i) +
      named node uid dir rnode payload = held node uid dir s :=
  tally_eraseIdx hr

theorem bytes_count {c : TrafficCounter} {upload download} (h : c.Room upload download) :
    (c.count upload download).bytes dir =
      c.bytes dir + TrafficCounter.bytes ⟨upload, download⟩ dir := by
  cases dir with
  | upload => exact saturatingAdd_eq h.1
  | download => exact saturatingAdd_eq h.2

theorem bytes_zero : TrafficCounter.bytes ⟨0, 0⟩ dir = 0 := by
  cases dir <;> rfl

theorem bytes_addShard {upload download} (h : (counterAt traffic node uid).Room upload download) :
    (counterAt (addShard traffic node uid upload download) node uid).bytes dir =
      (counterAt traffic node uid).bytes dir + TrafficCounter.bytes ⟨upload, download⟩ dir := by
  unfold addShard
  split
  next hzero => rw [hzero.1, hzero.2, bytes_zero, add_zero]
  · rw [counterAt_countAt, if_pos ⟨rfl, rfl⟩, bytes_count h]

theorem counterAt_addShard_ne {node' uid' upload download} (h : ¬(node' = node ∧ uid' = uid)) :
    counterAt (addShard traffic node' uid' upload download) node uid =
      counterAt traffic node uid := by
  unfold addShard
  split
  · rfl
  · rw [counterAt_countAt, if_neg fun hsame => h ⟨hsame.1.symm, hsame.2.symm⟩]

theorem named_default (payloadNode) {payload}
    (h : payload.get (uidText uid) = none) : named node uid dir payloadNode payload = 0 := by
  unfold named
  rw [h]
  split
  · cases dir <;> rfl
  · rfl

theorem named_some {payload bytes} (h : payload.get (uidText uid) = some bytes) :
    named node uid dir node payload = TrafficCounter.bytes ⟨bytes.1, bytes.2⟩ dir := by
  unfold named
  rw [h, if_pos rfl]
  cases dir <;> rfl

theorem named_congr {payload payload'} (payloadNode)
    (h : payload.get (uidText uid) = payload'.get (uidText uid)) :
    named node uid dir payloadNode payload = named node uid dir payloadNode payload' := by
  unfold named
  rw [h]

theorem named_ne {payloadNode} (h : payloadNode ≠ node) (payload) :
    named node uid dir payloadNode payload = 0 := if_neg h

theorem bytes_default : TrafficCounter.default.bytes dir = 0 := by
  cases dir <;> rfl

theorem snapshotShard_bytes {payload minTraffic}
    (h : (counterAt traffic node uid).due minTraffic = true → payload.get (uidText uid) = none) :
    named node uid dir node (snapshotShard traffic node minTraffic payload).1 +
        (counterAt (snapshotShard traffic node minTraffic payload).2 node uid).bytes dir =
      named node uid dir node payload + (counterAt traffic node uid).bytes dir := by
  have hget := snapshotShard_get traffic node minTraffic payload uid
  rw [counterAt_snapshotShard, if_pos rfl]
  unfold TrafficCounter.settle
  cases hdue : (counterAt traffic node uid).due minTraffic with
  | true =>
    rw [hdue, if_pos rfl] at hget
    rw [named_some hget, named_default node (h hdue), if_pos rfl, bytes_default]
    exact add_comm _ _
  | false =>
    rw [hdue, if_neg Bool.false_ne_true] at hget
    rw [named_congr node hget, if_neg Bool.false_ne_true]

/-- **A visit to a shard moves bytes from the counters into the report.** -/
theorem nextShard_bytes (h : Sound place s) {i rnode payload minTraffic k}
    (hr : s.reports[i]? = some ⟨rnode, payload, .taking minTraffic k⟩) :
    held node uid dir (nextShard s i rnode payload minTraffic k) +
        pending place node uid dir (nextShard s i rnode payload minTraffic k) =
      held node uid dir s + pending place node uid dir s := by
  unfold nextShard
  split
  next hk =>
    have hheld := @held_setReport _ (s.setShard ⟨k, hk⟩
      (snapshotShard (s.shards ⟨k, hk⟩) rnode minTraffic payload).2) node uid dir i rnode payload
      (snapshotShard (s.shards ⟨k, hk⟩) rnode minTraffic payload).1 _ (.taking minTraffic (k + 1)) hr
    change _ + _ = held node uid dir s + _ at hheld
    dsimp only
    show _ + pending place node uid dir (s.setShard ⟨k, hk⟩ _) = _
    by_cases hnode : rnode = node
    · subst hnode
      by_cases hplace : place uid = ⟨k, hk⟩
      · -- the user's own shard: the report has no entry of theirs yet
        have hfresh : payload.get (uidText uid) = none := by
          rw [← not_isSome_iff_eq_none]
          intro hsome
          obtain ⟨_, htext, hlt⟩ := h.names _ (mem_of_getElem? hr) _ hsome
          rw [← uidText_injective htext, hplace] at hlt
          exact lt_irrefl k (hlt _ _ rfl)
        have hmoved := @snapshotShard_bytes rnode uid dir (s.shards ⟨k, hk⟩) payload minTraffic
          fun _ => hfresh
        have hown : pending place rnode uid dir s =
            (counterAt (s.shards ⟨k, hk⟩) rnode uid).bytes dir := by
          rw [pending, hplace]
        rw [pending_setShard, if_pos hplace, hown]
        omega
      have hget := snapshotShard_get (s.shards ⟨k, hk⟩) rnode minTraffic payload uid
      rw [h.placed _ _ _ (Ne.symm hplace), TrafficCounter.due_default,
        if_neg Bool.false_ne_true] at hget
      rw [named_congr rnode hget] at hheld
      rw [pending_setShard, if_neg hplace]
      omega
    · rw [named_ne hnode, named_ne hnode] at hheld
      rw [pending_setShard_same (by rw [counterAt_snapshotShard, if_neg (Ne.symm hnode)])]
      omega
  · have := @held_setReport _ s node uid dir i rnode payload payload _ .taken hr
    show _ + pending place node uid dir s = _
    omega

/-- **An entry that is put back moves bytes from the report into the counters.** -/
theorem restoreEntry_bytes (h : Sound place s) {i rnode payload text bytes}
    (hr : s.reports[i]? = some ⟨rnode, payload, .restoring⟩) (hget : payload.get text = some bytes)
    (hroom : rnode = node → text = uidText uid →
      (counterAt (s.shards (place uid)) node uid).Room bytes.1 bytes.2) :
    held node uid dir (restoreEntry place s i rnode payload text bytes) +
        pending place node uid dir (restoreEntry place s i rnode payload text bytes) =
      held node uid dir s + pending place node uid dir s := by
  obtain ⟨uid', rfl, _⟩ := h.names _ (mem_of_getElem? hr) text
    (by simp only [Map.contains, hget, isSome_some])
  have hheld := @held_setReport _ s node uid dir i rnode payload (payload.remove (uidText uid')) _
    .restoring hr
  have hparse : parseU64 (uidText uid') = some uid' := parseU64_numText uid'
  unfold restoreEntry
  simp only [hparse]
  show held node uid dir (s.setReport i _) + pending place node uid dir
    (State.setShard _ (place uid') (restoreShard (s.shards (place uid')) rnode uid' bytes)) = _
  by_cases hown : rnode = node ∧ uid' = uid
  · obtain ⟨rfl, rfl⟩ := hown
    have hmoved : named rnode uid' dir rnode (payload.remove (uidText uid')) = 0 :=
      named_default rnode (payload.get_remove_self _)
    rw [hmoved, named_some hget] at hheld
    rw [pending_setShard, if_pos rfl, restoreShard, counterAt_countAt, if_pos ⟨rfl, rfl⟩,
      bytes_count (hroom rfl rfl)]
    show _ + (pending place rnode uid' dir s + _) = _
    omega
  have hother : named node uid dir rnode (payload.remove (uidText uid')) =
      named node uid dir rnode payload := by
    by_cases hnode : rnode = node
    · refine named_congr rnode (payload.get_remove_ne (fun htext => hown ⟨hnode, ?_⟩))
      exact (uidText_injective htext).symm
    · rw [named_ne hnode, named_ne hnode]
  rw [pending_setShard_same (by
    rw [restoreShard, counterAt_countAt, if_neg fun hsame => hown ⟨hsame.1.symm, hsame.2.symm⟩]
    rfl)]
  show _ + pending place node uid dir s = _
  omega

theorem Conserved.next (h : Sound place s) {a} (hkept : Kept place node uid s a)
    (hc : Conserved place node uid dir s) (hnext : next place s a = some s') :
    Conserved place node uid dir s' := by
  unfold Conserved at hc ⊢
  cases a with
  | addTraffic node' uid' upload download =>
    cases hnext
    show tally _ ((node', uid', ⟨upload, download⟩) :: s.added) = reported node uid dir s +
      held node uid dir s + pending place node uid dir (s.setShard (place uid') _)
    rw [tally_cons]
    unfold added at hc
    by_cases hown : node' = node ∧ uid' = uid
    · obtain ⟨rfl, rfl⟩ := hown
      rw [if_pos ⟨rfl, rfl⟩, pending_setShard, if_pos rfl, bytes_addShard (hkept rfl rfl)]
      unfold pending at hc
      dsimp only
      omega
    rw [if_neg hown, pending_setShard_same (counterAt_addShard_ne hown), zero_add]
    exact hc
  | snapshotTraffic node' minTraffic =>
    cases hnext
    have hnew : named node uid dir node' .empty = 0 := named_default node' rfl
    have hheld : held node uid dir { s with
        reports := s.reports ++ [⟨node', .empty, .taking minTraffic 0⟩] } =
        held node uid dir s := by
      simp only [held, tally_append, tally_cons, tally_nil, hnew, add_zero]
    rw [hheld]
    exact hc
  | nextShard i =>
    rw [TrackerRuns.next] at hnext
    split at hnext <;> cases hnext
    rename_i rnode payload minTraffic k hr
    have hmoved := @nextShard_bytes _ _ _ node uid dir h i rnode payload minTraffic k hr
    have hsame : added node uid dir (nextShard s i rnode payload minTraffic k) =
        added node uid dir s ∧ reported node uid dir (nextShard s i rnode payload minTraffic k) =
        reported node uid dir s := by
      unfold TrackerRuns.nextShard
      split <;> exact ⟨rfl, rfl⟩
    rw [hsame.1, hsame.2]
    omega
  | acknowledge i =>
    rw [TrackerRuns.next] at hnext
    split at hnext <;> cases hnext
    rename_i rnode payload hr
    have hgone := @held_eraseIdx _ s node uid dir i rnode payload _ hr
    show added node uid dir s = tally _ ((rnode, payload) :: s.acknowledged) +
      tally _ (s.reports.eraseIdx i) + pending place node uid dir s
    rw [tally_cons]
    unfold reported at hc
    show added node uid dir s = named node uid dir rnode payload + _ + _ + _
    omega
  | restoreTraffic i =>
    rw [TrackerRuns.next] at hnext
    split at hnext <;> cases hnext
    rename_i rnode payload hr
    have hheld := @held_setReport _ s node uid dir i rnode payload payload _ .restoring hr
    show added node uid dir s = reported node uid dir s + held node uid dir (s.setReport i _) +
      pending place node uid dir s
    omega
  | restoreNext i text =>
    rw [TrackerRuns.next] at hnext
    split at hnext
    swap
    · cases hnext
    rename_i rnode payload hr
    obtain ⟨bytes, hget, rfl⟩ := map_eq_some_iff.mp hnext
    have hmoved := @restoreEntry_bytes _ _ _ node uid dir h i rnode payload text bytes hr hget
      fun hnode htext => hkept _ hr hnode htext bytes hget
    have hsame : added node uid dir (restoreEntry place s i rnode payload text bytes) =
        added node uid dir s ∧
        reported node uid dir (restoreEntry place s i rnode payload text bytes) =
        reported node uid dir s := by
      unfold TrackerRuns.restoreEntry
      split <;> exact ⟨rfl, rfl⟩
    rw [hsame.1, hsame.2]
    omega
  | restored i =>
    rw [TrackerRuns.next] at hnext
    split at hnext
    swap
    · cases hnext
    rename_i rnode payload hr
    obtain ⟨hempty, ⟨⟩⟩ := ite_none_right_eq_some.mp hnext
    have hgone := @held_eraseIdx _ s node uid dir i rnode payload _ hr
    have hnone : payload.get (uidText uid) = none := by
      unfold Map.get
      rw [hempty]
      rfl
    rw [named_default rnode hnone] at hgone
    show added node uid dir s = reported node uid dir s + tally _ (s.reports.eraseIdx i) +
      pending place node uid dir s
    omega
  | reconcileUsers node' activeUids k =>
    rw [TrackerRuns.next] at hnext
    split at hnext <;> cases hnext
    rename_i hk
    rw [pending_setShard_same (counterAt_reconcileShard _ _ fun hnode => hkept hnode.symm)]
    exact hc
  | removeUser node' uid' =>
    cases hnext
    rw [pending_setShard_same (counterAt_removeShard _ _ fun hnode => Ne.symm (hkept hnode.symm))]
    exact hc

end

end Shoes.V2board.TrackerRuns
