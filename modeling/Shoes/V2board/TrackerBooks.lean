import Shoes.V2board.TrackerRuns
import Mathlib.Data.List.Forall2

/-! # The books

Without anything in between, the tracker's operations are those of one table, whatever the shards.
-/
namespace Shoes.V2board.TrackerBooks
open Lib.Assoc Lib.IpText Tracker TrackerRuns

section
variable {n : Nat} (place : UInt64 → Fin n)

section
variable (shards : Fin n → Traffic) (node : String)

def addTraffic (uid : UInt64) (upload download : Nat) : Fin n → Traffic :=
  Function.update shards (place uid) (addShard (shards (place uid)) node uid upload download)

/-- The first `k` rounds of the loop of `snapshot_traffic`. -/
def snapshotShards (shards : Fin n → Traffic) (node : String) (minTraffic : Nat) :
    Nat → TrafficPayload × (Fin n → Traffic)
  | 0 => (.empty, shards)
  | k + 1 =>
    let before := snapshotShards shards node minTraffic k
    if h : k < n then
      let taken := snapshotShard (before.2 ⟨k, h⟩) node minTraffic before.1
      (taken.1, Function.update before.2 ⟨k, h⟩ taken.2)
    else before

def snapshotTraffic (minTraffic : Nat) : TrafficPayload × (Fin n → Traffic) :=
  snapshotShards shards node minTraffic n

def restoreOne (text : List UInt8) (bytes : Nat × Nat) : Fin n → Traffic :=
  match parseU64 text with
  | none => shards
  | some uid =>
    Function.update shards (place uid) (restoreShard (shards (place uid)) node uid bytes)

def restoreTraffic (payload : TrafficPayload) : Fin n → Traffic :=
  payload.entries.foldl (fun shards e => restoreOne place shards node e.1 e.2) shards

end

end

/-- The operations, with the snapshots taken so far. -/
inductive Operation
  | addTraffic (node : String) (uid : UInt64) (upload download : Nat)
  | snapshotTraffic (node : String) (minTraffic : Nat)
  | restoreTraffic (snapshot : Nat)

structure Sharded (n : Nat) where
  shards : Fin n → Traffic
  taken : List (String × TrafficPayload)

def Sharded.empty (n : Nat) : Sharded n := ⟨fun _ => .empty, []⟩

def Sharded.apply {n : Nat} (place : UInt64 → Fin n) (t : Sharded n) : Operation → Sharded n
  | .addTraffic node uid upload download =>
    { t with shards := addTraffic place t.shards node uid upload download }
  | .snapshotTraffic node minTraffic =>
    ⟨(snapshotTraffic t.shards node minTraffic).2,
      t.taken ++ [(node, (snapshotTraffic t.shards node minTraffic).1)]⟩
  | .restoreTraffic i =>
    match t.taken[i]? with
    | none => t
    | some (node, payload) => { t with shards := restoreTraffic place t.shards node payload }

/-- One table for all users. -/
structure Books where
  ledger : String → UInt64 → TrafficCounter
  taken : List (String × (UInt64 → Option (Nat × Nat)))

/-- What a list of entries adds to the table. -/
def putBack (ledger : String → UInt64 → TrafficCounter) (node : String)
    (entries : UInt64 → Option (Nat × Nat)) (node' : String) (uid : UInt64) : TrafficCounter :=
  match entries uid with
  | some bytes => if node' = node then (ledger node uid).count bytes.1 bytes.2
    else ledger node' uid
  | none => ledger node' uid

def Books.empty : Books := ⟨fun _ _ => .default, []⟩

def Books.apply (b : Books) : Operation → Books
  | .addTraffic node uid upload download =>
    { b with ledger := fun node' uid' =>
        if (node' = node ∧ uid' = uid) ∧ ¬(upload = 0 ∧ download = 0) then
          (b.ledger node uid).count upload download
        else b.ledger node' uid' }
  | .snapshotTraffic node minTraffic =>
    ⟨fun node' uid => if node' = node then (b.ledger node uid).settle minTraffic
        else b.ledger node' uid,
      b.taken ++ [(node, fun uid => if (b.ledger node uid).due minTraffic then
        some ((b.ledger node uid).upload, (b.ledger node uid).download) else none)]⟩
  | .restoreTraffic i =>
    match b.taken[i]? with
    | none => b
    | some (node, payload) =>
      { b with ledger := putBack b.ledger node payload }

/-- A payload as the table has it. -/
structure Spells (payload : TrafficPayload) (entries : UInt64 → Option (Nat × Nat)) : Prop where
  get : ∀ uid, payload.get (uidText uid) = entries uid
  only : ∀ text, payload.contains text = true → ∃ uid, text = uidText uid

structure Shows {n : Nat} (place : UInt64 → Fin n) (shards : Fin n → Traffic)
    (ledger : String → UInt64 → TrafficCounter) : Prop where
  own : ∀ node uid, counterAt (shards (place uid)) node uid = ledger node uid
  other : ∀ j node uid, j ≠ place uid → counterAt (shards j) node uid = .default

section
variable {n : Nat} {place : UInt64 → Fin n} {shards : Fin n → Traffic}
  {ledger : String → UInt64 → TrafficCounter}

theorem counterAt_update (j j' traffic node uid) :
    counterAt (Function.update shards j traffic j') node uid =
      if j' = j then counterAt traffic node uid else counterAt (shards j') node uid := by
  by_cases h : j' = j
  · rw [if_pos h, h, Function.update_self]
  · rw [if_neg h, Function.update_of_ne h]

theorem Shows.countAt (h : Shows place shards ledger) (node uid upload download) :
    Shows place (Function.update shards (place uid)
        (countAt (shards (place uid)) node uid upload download))
      fun node' uid' => if node' = node ∧ uid' = uid then (ledger node uid).count upload download
        else ledger node' uid' := by
  constructor
  · intro node' uid'
    rw [counterAt_update, counterAt_countAt, h.own]
    split
    next hplace => rw [← hplace, h.own]
    next hplace => rw [h.own, if_neg fun hsame => hplace (by rw [hsame.2])]
  intro j node' uid' hj
  rw [counterAt_update, counterAt_countAt]
  split
  next hplace =>
    rw [if_neg fun hsame => hj (by rw [hplace, hsame.2]), h.other _ _ _ (hplace ▸ hj)]
  · exact h.other j node' uid' hj

theorem Shows.addTraffic (h : Shows place shards ledger) (node uid upload download) :
    Shows place (addTraffic place shards node uid upload download) fun node' uid' =>
      if (node' = node ∧ uid' = uid) ∧ ¬(upload = 0 ∧ download = 0) then
        (ledger node uid).count upload download
      else ledger node' uid' := by
  unfold TrackerBooks.addTraffic addShard
  by_cases hzero : upload = 0 ∧ download = 0
  · simp only [hzero, and_self, not_true_eq_false, and_false, if_true, if_false,
      Function.update_eq_self]
    exact h
  simp only [hzero, not_false_eq_true, and_true, if_false]
  exact h.countAt node uid upload download

/-- What the first `k` rounds of a snapshot have done. -/
structure Visited (place : UInt64 → Fin n) (ledger : String → UInt64 → TrafficCounter)
    (node : String) (minTraffic k : Nat) (r : TrafficPayload × (Fin n → Traffic)) : Prop where
  own : ∀ node' uid, counterAt (r.2 (place uid)) node' uid =
    if node' = node ∧ (place uid).val < k then (ledger node uid).settle minTraffic
    else ledger node' uid
  other : ∀ j node' uid, j ≠ place uid → counterAt (r.2 j) node' uid = .default
  get : ∀ uid, r.1.get (uidText uid) =
    if (place uid).val < k ∧ (ledger node uid).due minTraffic = true then
      some ((ledger node uid).upload, (ledger node uid).download)
    else none
  only : ∀ text, r.1.contains text = true → ∃ uid, text = uidText uid

theorem Visited.step (h : Visited place ledger node minTraffic k r) (hk : k < n) :
    Visited place ledger node minTraffic (k + 1)
      ((snapshotShard (r.2 ⟨k, hk⟩) node minTraffic r.1).1,
        Function.update r.2 ⟨k, hk⟩ (snapshotShard (r.2 ⟨k, hk⟩) node minTraffic r.1).2) := by
  -- a user of this shard has not been visited before
  have hnow {uid : UInt64} (hplace : place uid = ⟨k, hk⟩) (node' : String) :
      counterAt (r.2 ⟨k, hk⟩) node' uid = ledger node' uid := by
    rw [← hplace, h.own, if_neg]
    intro hlt
    rw [hplace] at hlt
    exact lt_irrefl k hlt.2
  have hlater {uid : UInt64} (hplace : place uid ≠ ⟨k, hk⟩) :
      (place uid).val < k + 1 ↔ (place uid).val < k := by
    have : (place uid).val ≠ k := fun heq => hplace (Fin.ext heq)
    omega
  constructor
  · intro node' uid
    rw [counterAt_update]
    by_cases hplace : place uid = ⟨k, hk⟩
    · have hlt : (place uid).val < k + 1 := by rw [hplace]; exact Nat.lt_succ_self k
      rw [if_pos hplace, counterAt_snapshotShard, hnow hplace, hnow hplace]
      exact if_congr (by simp [hlt]) rfl rfl
    rw [if_neg hplace, h.own]
    exact if_congr (by rw [hlater hplace]) rfl rfl
  · intro j node' uid hj
    rw [counterAt_update]
    split
    next hjk =>
      rw [counterAt_snapshotShard, h.other _ _ _ (hjk ▸ hj), h.other _ _ _ (hjk ▸ hj),
        TrafficCounter.settle_default, ite_self]
    · exact h.other j node' uid hj
  · intro uid
    rw [snapshotShard_get, h.get]
    by_cases hplace : place uid = ⟨k, hk⟩
    · have hlt : (place uid).val < k + 1 := by rw [hplace]; exact Nat.lt_succ_self k
      have hnot : ¬(place uid).val < k := by rw [hplace]; exact lt_irrefl k
      rw [hnow hplace]
      simp [hlt, hnot]
    rw [h.other _ _ _ (Ne.symm hplace), TrafficCounter.due_default, if_neg Bool.false_ne_true]
    exact if_congr (by rw [hlater hplace]) rfl rfl
  intro text htext
  rcases snapshotShard_keys _ _ _ htext with hold | ⟨uid, htext, _⟩
  · exact h.only text hold
  · exact ⟨uid, htext⟩

theorem snapshotShards_visited (h : Shows place shards ledger) (node minTraffic k) (hk : k ≤ n) :
    Visited place ledger node minTraffic k (snapshotShards shards node minTraffic k) := by
  induction k with
  | zero =>
    refine ⟨fun node' uid => ?_, h.other, fun uid => ?_, nofun⟩
    · rw [if_neg fun hlt => Nat.not_lt_zero _ hlt.2]
      exact h.own node' uid
    rw [if_neg fun hlt => Nat.not_lt_zero _ hlt.1]
    rfl
  | succ k ih =>
    have hlt : k < n := hk
    rw [snapshotShards]
    rw [dif_pos hlt]
    exact (ih (Nat.le_of_succ_le hk)).step hlt

/-- **A snapshot of the shards is a snapshot of the table.** -/
theorem Shows.snapshotTraffic (h : Shows place shards ledger) (node minTraffic) :
    Shows place (snapshotTraffic shards node minTraffic).2 (fun node' uid =>
        if node' = node then (ledger node uid).settle minTraffic else ledger node' uid) ∧
      Spells (snapshotTraffic shards node minTraffic).1 fun uid =>
        if (ledger node uid).due minTraffic then
          some ((ledger node uid).upload, (ledger node uid).download) else none := by
  have hv := snapshotShards_visited h node minTraffic n (Nat.le_refl n)
  refine ⟨⟨fun node' uid => ?_, hv.other⟩, fun uid => ?_, hv.only⟩
  · rw [TrackerBooks.snapshotTraffic, hv.own]
    exact if_congr (by simp) rfl rfl
  rw [TrackerBooks.snapshotTraffic, hv.get]
  exact if_congr (by simp) rfl rfl

theorem Shows.restoreEntries (node) (es : List (List UInt8 × (Nat × Nat)))
    (hn : (es.map Prod.fst).Nodup) : ∀ {shards ledger},
      Shows place shards ledger → (∀ e ∈ es, ∃ uid, e.1 = uidText uid) →
      Shows place (es.foldl (fun shards e => restoreOne place shards node e.1 e.2) shards)
        (putBack ledger node fun uid => Map.get ⟨es, hn⟩ (uidText uid)) := by
  induction es with
  | nil =>
    intro shards ledger h _
    exact h
  | cons e es ih =>
    intro shards ledger h hnames
    obtain ⟨hfirst, hrest⟩ := List.nodup_cons.mp hn
    obtain ⟨uid, huid⟩ := hnames e List.mem_cons_self
    have hone : restoreOne place shards node e.1 e.2 = Function.update shards (place uid)
        (Tracker.countAt (shards (place uid)) node uid e.2.1 e.2.2) := by
      have hparse : parseU64 e.1 = some uid := by rw [huid]; exact parseU64_numText uid
      simp only [restoreOne, hparse, restoreShard]
    have hshows := ih hrest (h.countAt node uid e.2.1 e.2.2)
      fun e' he' => hnames e' (List.mem_cons_of_mem _ he')
    rw [← hone] at hshows
    refine (congrArg (Shows place _) ?_).mp hshows
    funext node' uid'
    simp only [putBack, Map.get_mk_cons]
    by_cases hsame : uid' = uid
    · have hnone : Map.get ⟨es, hrest⟩ (uidText uid) = none :=
        lookup_eq_none.mpr (huid ▸ hfirst)
      rw [hsame, if_pos huid.symm, hnone]
      simp
    have hne : uidText uid' ≠ e.1 := by
      rw [huid]
      exact fun htext => hsame (uidText_injective htext)
    rw [if_neg hne]
    simp [hsame]

/-- **What is put back into the shards is put back into the table.** -/
theorem Shows.restoreTraffic (h : Shows place shards ledger) (node) (hp : Spells payload entries) :
    Shows place (restoreTraffic place shards node payload) (putBack ledger node entries) := by
  have hentries : entries = fun uid => payload.get (uidText uid) :=
    funext fun uid => (hp.get uid).symm
  rw [hentries]
  refine Shows.restoreEntries node payload.entries payload.nodup h fun e he => ?_
  exact hp.only e.1 (payload.contains_iff.mpr (List.mem_map_of_mem he))

end

/-- The shards and the reports of a tracker are those of the books. -/
structure Sharded.Keeps {n : Nat} (place : UInt64 → Fin n) (t : Sharded n) (b : Books) : Prop where
  shows : Shows place t.shards b.ledger
  taken : List.Forall₂ (fun r r' => r.1 = r'.1 ∧ Spells r.2 r'.2) t.taken b.taken

section
variable {n : Nat} {place : UInt64 → Fin n} {t : Sharded n} {b : Books}

theorem Sharded.Keeps.apply (h : t.Keeps place b) (op) :
    (t.apply place op).Keeps place (b.apply op) := by
  cases op with
  | addTraffic node uid upload download =>
    exact ⟨h.shows.addTraffic node uid upload download, h.taken⟩
  | snapshotTraffic node minTraffic =>
    obtain ⟨hshows, hspells⟩ := h.shows.snapshotTraffic node minTraffic
    refine ⟨hshows, ?_⟩
    exact List.rel_append h.taken (.cons ⟨rfl, hspells⟩ .nil)
  | restoreTraffic i =>
    have hlength := h.taken.length_eq
    by_cases hlt : i < t.taken.length
    · have hlt' : i < b.taken.length := by omega
      obtain ⟨hnode, hspells⟩ : t.taken[i].1 = b.taken[i].1 ∧ Spells t.taken[i].2 b.taken[i].2 :=
        h.taken.get hlt hlt'
      simp only [Sharded.apply, Books.apply, List.getElem?_eq_getElem hlt,
        List.getElem?_eq_getElem hlt', ← hnode]
      exact ⟨h.shows.restoreTraffic _ hspells, h.taken⟩
    have hnone : t.taken[i]? = none := List.getElem?_eq_none (not_lt.mp hlt)
    have hnone' : b.taken[i]? = none := List.getElem?_eq_none (by omega)
    simp only [Sharded.apply, Books.apply, hnone, hnone']
    exact h

/-- **The shards keep the books**, whatever the operations. -/
theorem Sharded.Keeps.run (h : t.Keeps place b) (ops : List Operation) :
    (ops.foldl (Sharded.apply place) t).Keeps place (ops.foldl Books.apply b) := by
  induction ops generalizing t b with
  | nil => exact h
  | cons op ops ih => exact ih (h.apply op)

theorem Sharded.keeps_empty (place) : (Sharded.empty n).Keeps place .empty :=
  ⟨⟨fun _ _ => rfl, fun _ _ _ _ => rfl⟩, .nil⟩

theorem Spells.get_eq (h : Spells payload entries) (h' : Spells payload' entries)
    (text) : payload.get text = payload'.get text := by
  by_cases hname : ∃ uid, text = uidText uid
  · obtain ⟨_, rfl⟩ := hname
    rw [h.get, h'.get]
  have hnone {p : TrafficPayload} (hp : Spells p entries) : p.get text = none := by
    rw [← Option.not_isSome_iff_eq_none]
    exact fun hsome => hname (hp.only text hsome)
  rw [hnone h, hnone h']

theorem taken_eq {t' : Sharded n'} (h : t.Keeps place b) (h' : t'.Keeps place' b) :
    List.Forall₂ (fun r r' => r.1 = r'.1 ∧ ∀ text, r.2.get text = r'.2.get text)
      t.taken t'.taken := by
  have hboth := h'.taken.flip
  rw [List.forall₂_iff_get] at hboth ⊢
  have htaken := List.forall₂_iff_get.mp h.taken
  refine ⟨htaken.1.trans hboth.1, fun i hi hi' => ?_⟩
  have hb : i < b.taken.length := htaken.1 ▸ hi
  obtain ⟨hnode, hspells⟩ := htaken.2 i hi hb
  obtain ⟨hnode', hspells'⟩ := hboth.2 i hb hi'
  exact ⟨hnode.trans hnode'.symm, hspells.get_eq hspells'⟩

end

/-- **Traffic is conserved.** In every interleaving, whatever is counted for a user who is not
removed is reported, waits in a report that is not acknowledged, or is still pending; and how users
fall into shards makes no difference. -/
theorem traffic_conserved {n : Nat} (place : UInt64 → Fin n) (node : String) (uid : UInt64) :
    (∀ (actions : List Action) (s : State n),
      Lib.Machine.run (next place) (.empty n) actions = some s →
      Lib.Machine.Throughout (next place) (Kept place node uid) (.empty n) actions →
      ∀ dir, added node uid dir s =
        reported node uid dir s + held node uid dir s + pending place node uid dir s) ∧
    ∀ (n' : Nat) (place' : UInt64 → Fin n') (ops : List Operation),
      counterAt ((ops.foldl (Sharded.apply place) (.empty n)).shards (place uid)) node uid =
        counterAt ((ops.foldl (Sharded.apply place') (.empty n')).shards (place' uid)) node uid ∧
      List.Forall₂ (fun r r' => r.1 = r'.1 ∧ ∀ text, r.2.get text = r'.2.get text)
        (ops.foldl (Sharded.apply place) (.empty n)).taken
        (ops.foldl (Sharded.apply place') (.empty n')).taken := by
  constructor
  · intro actions s hrun hkept dir
    have hstep (s : State n) (a : Action) (s' : State n) (hk : Kept place node uid s a)
        (hi : Sound place s ∧ Conserved place node uid dir s) (hnext : next place s a = some s') :
        Sound place s' ∧ Conserved place node uid dir s' :=
      ⟨hi.1.next hnext, hi.2.next hi.1 hk hnext⟩
    have hempty : Sound place (.empty n) ∧ Conserved place node uid dir (.empty n) := by
      refine ⟨sound_empty place, ?_⟩
      show 0 = 0 + 0 + TrafficCounter.default.bytes dir
      rw [bytes_default]
    exact (Lib.Machine.run_invariant hstep actions _ s hkept hempty hrun).2
  intro n' place' ops
  have h := (Sharded.keeps_empty place).run ops
  have h' := (Sharded.keeps_empty place').run ops
  exact ⟨(h.shows.own node uid).trans (h'.shows.own node uid).symm, taken_eq h h'⟩

def shardCount : Nat := 32

/-- `shard`: the low bits of the user id. -/
def shard (uid : UInt64) : Fin shardCount := ⟨uid.toNat % shardCount, Nat.mod_lt _ (by decide)⟩

/-- A report is taken while traffic is counted, fails, and is put back. -/
def failedReport : List Action :=
  [.addTraffic "a" 5 10 20, .snapshotTraffic "a" 0] ++ List.replicate 5 (.nextShard 0) ++
    [.addTraffic "a" 4 1 1] ++ List.replicate 28 (.nextShard 0) ++
    [.addTraffic "a" 5 7 0, .restoreTraffic 0, .restoreNext 0 (uidText 5), .restored 0]

theorem traffic_conserved_failed_report :
    ∃ s, Lib.Machine.run (next shard) (.empty shardCount) failedReport = some s ∧
      added "a" 5 .upload s = 17 ∧
      added "a" 5 .upload s = reported "a" 5 .upload s + held "a" 5 .upload s +
        pending shard "a" 5 .upload s := by
  refine ⟨_, rfl, by decide, (traffic_conserved shard "a" 5).1 failedReport _ rfl ?_ .upload⟩
  decide +kernel

end Shoes.V2board.TrackerBooks
