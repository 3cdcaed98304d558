import Shoes.Tuic.Reassembly

/-! # One TUIC connection

Packets reach a connection in two ways, in any interleaving. Each unidirectional stream is a task:
it reads its command, locks the shared fragment map, and forwards. The datagram loop is one task
with a map of its own. The state also records when each fragment was received, which fragments an
entry holds, and when an association was last dissociated. -/
namespace Shoes.Tuic.Connection
open Lib.Io Lib.LruCache Lib.Machine List
open Net.Location Net.Fragments Codec Datagram Reassembly

/-- A complete packet on its way to the session of its association, with the times its
fragments were received. -/
structure Forward where
  assocId : UInt16
  origins : List Nat
  packet : PreparedUdpPacket
  deriving DecidableEq

inductive Task
  | dissociate (assocId : UInt16)
  | packet (received : Nat) (p : Packet)
  | forward (f : Forward)
  deriving DecidableEq

/-- A packet handed to its session, with the time of the last Dissociate before. -/
structure Delivery extends Forward where
  dissociatedAt : Nat
  deriving DecidableEq

/-- A fragment map, and the times at which the fragments in each entry were received. -/
structure Fragments (L : FragmentLru) where
  map : L.Cache
  origins : UdpFragmentKey → List Nat

structure Conn (L : FragmentLru) where
  uniFragments : Fragments L
  datagramFragments : Fragments L
  tasks : List Task
  /-- What the datagram loop is forwarding. -/
  forwarding : Option Forward
  /-- The datagram loop has not ended with an error. -/
  running : Bool
  clock : Nat
  dissociatedAt : UInt16 → Nat
  delivered : List Delivery

section
variable {L : FragmentLru}

def removeUdpFragmentsForAssoc (c : L.Cache) (assocId : UInt16) : L.Cache :=
  let keys := (L.iter c).filterMap fun e => if e.1.assocId = assocId then some e.1 else none
  keys.foldl (fun c key => (L.pop key c).2) c

/-- The times of the fragments in an entry, before one more comes. -/
def Fragments.held (fs : Fragments L) (key : UdpFragmentKey) : List Nat :=
  if (L.find fs.map key).isSome then fs.origins key else []

/-- `prepare_udp_packet` on a map. A packet of one fragment does not touch the map. -/
def Fragments.prepare (fs : Fragments L) (received : Nat) (p : Packet) :
    Option Forward × Fragments L :=
  let r := prepareUdpPacket L fs.map p
  let held := fs.held (Packet.key p)
  match r.1 with
  | .error _ => (none, ⟨r.2, fs.origins⟩)
  | .ok none => (none, ⟨r.2, Function.update fs.origins (Packet.key p) (received :: held)⟩)
  | .ok (some packet) =>
    (some ⟨p.assocId, if p.fragTotal = 1 then [received] else received :: held, packet⟩,
      ⟨r.2, fs.origins⟩)

/-- What can happen next: a stream has been read, a task goes on, a datagram has been read, or the
datagram loop goes on. A forwarded packet may reach its session or not: `sent` may be either. -/
inductive Action
  | stream (source : Source)
  | task (i : Nat) (sent : Bool)
  | datagram (data : List UInt8)
  | forwarded (sent : Bool)

def Conn.deliver (st : Conn L) (f : Forward) (sent : Bool) : List Delivery :=
  if sent then ⟨f, st.dissociatedAt f.assocId⟩ :: st.delivered else st.delivered

/-- One step; `none` if the action is not possible in the state. -/
def step (st : Conn L) : Action → Option (Conn L)
  | .stream source =>
    match receiveUniStream source with
    | .error _ => some st
    | .ok (.dissociate assocId, _) => some { st with tasks := st.tasks ++ [.dissociate assocId] }
    | .ok (.packet assocId packetId fragTotal fragId _ remoteLocation, payload) =>
      some { st with
        tasks := st.tasks ++
          [.packet st.clock ⟨assocId, packetId, fragTotal, fragId, remoteLocation, payload⟩]
        clock := st.clock + 1 }
  | .task i sent =>
    match st.tasks[i]? with
    | none => none
    | some (.dissociate assocId) =>
      some { st with
        tasks := st.tasks.eraseIdx i
        uniFragments :=
          { st.uniFragments with map := removeUdpFragmentsForAssoc st.uniFragments.map assocId }
        dissociatedAt := Function.update st.dissociatedAt assocId st.clock }
    | some (.packet received p) =>
      match st.uniFragments.prepare received p with
      | (none, fs) => some { st with uniFragments := fs, tasks := st.tasks.eraseIdx i }
      | (some f, fs) => some { st with uniFragments := fs, tasks := st.tasks.set i (.forward f) }
    | some (.forward f) =>
      some { st with tasks := st.tasks.eraseIdx i, delivered := st.deliver f sent }
  | .datagram data =>
    if st.running ∧ st.forwarding = none then
      match parseDatagram data with
      | .error _ => some { st with running := false }
      | .ok .heartbeat => some st
      | .ok (.packet p) =>
        let r := st.datagramFragments.prepare st.clock p
        some { st with datagramFragments := r.2, forwarding := r.1, clock := st.clock + 1 }
    else none
  | .forwarded sent =>
    match st.forwarding with
    | none => none
    | some f => some { st with forwarding := none, delivered := st.deliver f sent }

/-- A connection at its start. -/
def Conn.start (L : FragmentLru) : Conn L where
  uniFragments := ⟨L.new maxFragmentCacheSize, fun _ => []⟩
  datagramFragments := ⟨L.new maxFragmentCacheSize, fun _ => []⟩
  tasks := []
  forwarding := none
  running := true
  clock := 0
  dissociatedAt := fun _ => 0
  delivered := []

/-- No packet was delivered for an association with a fragment in it that had been received
before the last Dissociate for the association. -/
def Forgotten (st : Conn L) : Prop :=
  ∀ d ∈ st.delivered, ∀ t ∈ d.origins, d.dissociatedAt ≤ t

instance (st : Conn L) : Decidable (Forgotten st) :=
  inferInstanceAs (Decidable (∀ d ∈ st.delivered, ∀ t ∈ d.origins, d.dissociatedAt ≤ t))

/-- The association whose fragment a task has in its hands. -/
def Task.carries : Task → Option UInt16
  | .dissociate _ => none
  | .packet _ p => some p.assocId
  | .forward f => some f.assocId

/-- Nothing of the association is in the datagram loop's map or on its way. -/
def Quiet (st : Conn L) (assocId : UInt16) : Prop :=
  (∀ k : UdpFragmentKey, k.assocId = assocId → L.find st.datagramFragments.map k = none) ∧
    (∀ task ∈ st.tasks, task.carries ≠ some assocId) ∧
    ∀ f ∈ st.forwarding, f.assocId ≠ assocId

/-- A step that is a Dissociate is taken while its association is quiet. -/
def DissociatesQuietly (st : Conn L) : Action → Prop
  | .task i _ => ∀ assocId, st.tasks[i]? = some (.dissociate assocId) → Quiet st assocId
  | _ => True

/-! ## The invariant -/

def Forward.Fresh (since : UInt16 → Nat) (f : Forward) : Prop :=
  ∀ t ∈ f.origins, since f.assocId ≤ t

def Task.Fresh (since : UInt16 → Nat) : Task → Prop
  | .dissociate _ => True
  | .packet received p => since p.assocId ≤ received
  | .forward f => f.Fresh since

/-- Every fragment in the map was received after the last Dissociate for its association. -/
def Fragments.Fresh (since : UInt16 → Nat) (fs : Fragments L) : Prop :=
  ∀ k x, L.find fs.map k = some x → ∀ t ∈ fs.origins k, since k.assocId ≤ t

/-- Nothing in the connection is older than the last Dissociate for its association. -/
structure Inv (st : Conn L) : Prop where
  uni : st.uniFragments.Fresh st.dissociatedAt
  datagram : st.datagramFragments.Fresh st.dissociatedAt
  tasks : ∀ task ∈ st.tasks, task.Fresh st.dissociatedAt
  forwarding : ∀ f ∈ st.forwarding, f.Fresh st.dissociatedAt
  clock : ∀ assocId, st.dissociatedAt assocId ≤ st.clock
  delivered : Forgotten st

section
variable {since since' : UInt16 → Nat}

theorem Fragments.Fresh.of_eq {fs : Fragments L} (h : fs.Fresh since)
    (heq : ∀ k x, L.find fs.map k = some x → since' k.assocId = since k.assocId) :
    fs.Fresh since' := fun k x hx t ht => (heq k x hx).symm ▸ h k x hx t ht

theorem Forward.Fresh.of_eq {f : Forward} (h : f.Fresh since)
    (heq : since' f.assocId = since f.assocId) : f.Fresh since' := fun t ht => heq.symm ▸ h t ht

theorem Task.Fresh.of_eq {task : Task} (h : task.Fresh since)
    (heq : ∀ a, task.carries = some a → since' a = since a) : task.Fresh since' := by
  cases task with
  | dissociate => trivial
  | packet => exact (Nat.le_of_eq (heq _ rfl)).trans h
  | forward => exact Forward.Fresh.of_eq h (heq _ rfl)

end

theorem find_foldl_pop : ∀ {ks : List UdpFragmentKey} {c},
      L.find (ks.foldl (fun c key => (L.pop key c).2) c) k = some x → k ∉ ks ∧ L.find c k = some x
  | [], c, h => ⟨by simp, h⟩
  | key :: ks, c, h => by
    obtain ⟨hnot, hfind⟩ := find_foldl_pop (c := (L.pop key c).2) h
    by_cases hk : k = key
    · rw [hk, L.find_pop_self] at hfind; cases hfind
    rw [L.find_pop_ne hk] at hfind
    exact ⟨by simp [hk, hnot], hfind⟩

theorem removeUdpFragmentsForAssoc_find
    (h : L.find (removeUdpFragmentsForAssoc c assocId) k = some x) :
    k.assocId ≠ assocId ∧ L.find c k = some x := by
  obtain ⟨hnot, hfind⟩ := find_foldl_pop h
  refine ⟨fun hk => hnot ?_, hfind⟩
  exact mem_filterMap.mpr ⟨(k, x), Shoes.Lib.Assoc.lookup_mem hfind, by simp [hk]⟩

theorem Fragments.Fresh.held {fs : Fragments L} (h : fs.Fresh since)
    (key) : ∀ t ∈ fs.held key, since key.assocId ≤ t := by
  unfold Fragments.held
  split
  next hsome =>
    obtain ⟨x, hx⟩ := Option.isSome_iff_exists.mp hsome
    exact h key x hx
  · simp

/-- **Preparing a packet keeps a map fresh**, and a packet that is completed is fresh. -/
theorem Fragments.Fresh.prepare {fs : Fragments L} (h : fs.Fresh since)
    {p : Packet} (hp : since p.assocId ≤ received) :
    (fs.prepare received p).2.Fresh since ∧ ∀ f ∈ (fs.prepare received p).1, f.Fresh since := by
  have hheld := h.held (Packet.key p)
  have hcons : ∀ t ∈ received :: fs.held (Packet.key p), since p.assocId ≤ t := by
    exact forall_mem_cons.mpr ⟨hp, hheld⟩
  -- entries that the step leaves alone
  have hother : (prepareUdpPacket L fs.map p).1 ≠ .ok none →
      Fragments.Fresh since (L := L) ⟨(prepareUdpPacket L fs.map p).2, fs.origins⟩ := by
    intro hkept k x hx
    by_cases hk : k = Packet.key p
    · subst hk
      exact h _ x (prepare_find_self L hx hkept)
    · exact h k x (prepare_find_ne L hk hx)
  unfold Fragments.prepare
  dsimp only
  split
  next e he => exact ⟨hother (by rw [he]; simp), by simp⟩
  · refine ⟨fun k x hx t ht => ?_, by simp⟩
    by_cases hk : k = Packet.key p
    · subst hk
      simp only [Function.update_self] at ht
      exact hcons t ht
    simp only [Function.update_of_ne hk] at ht
    exact h k x (prepare_find_ne L hk hx) t ht
  rename_i packet he
  refine ⟨hother (by rw [he]; simp), fun f hf => ?_⟩
  cases hf
  intro t ht
  split at ht
  · rw [mem_singleton.mp ht]; exact hp
  · exact hcons t ht

theorem Inv.deliver {st : Conn L} (h : Inv st) {f : Forward} (hf : f.Fresh st.dissociatedAt)
    (sent) : ∀ d ∈ st.deliver f sent, ∀ t ∈ d.origins, d.dissociatedAt ≤ t := by
  unfold Conn.deliver
  split
  · exact forall_mem_cons.mpr ⟨hf, h.delivered⟩
  · exact h.delivered

theorem Inv.dissociate {st : Conn L} (h : Inv st) (hq : Quiet st assocId) (tasks)
    (htasks : ∀ task ∈ tasks, task ∈ st.tasks) : Inv { st with
      tasks
      uniFragments :=
        { st.uniFragments with map := removeUdpFragmentsForAssoc st.uniFragments.map assocId }
      dissociatedAt := Function.update st.dissociatedAt assocId st.clock } := by
  have hsame : ∀ a, a ≠ assocId →
      Function.update st.dissociatedAt assocId st.clock a = st.dissociatedAt a :=
    fun a ha => Function.update_of_ne ha ..
  have huni : Fragments.Fresh (L := L) st.dissociatedAt { st.uniFragments with
      map := removeUdpFragmentsForAssoc st.uniFragments.map assocId } := fun k x hx =>
    h.uni k x (removeUdpFragmentsForAssoc_find hx).2
  exact {
    uni := huni.of_eq fun k x hx => hsame _ (removeUdpFragmentsForAssoc_find hx).1
    datagram := h.datagram.of_eq fun k x hx => hsame _ fun hk => by
      rw [hq.1 k hk] at hx; cases hx
    tasks := fun task ht => (h.tasks task (htasks task ht)).of_eq fun a ha =>
      hsame a fun he => hq.2.1 task (htasks task ht) (he ▸ ha)
    forwarding := fun f hf => (h.forwarding f hf).of_eq (hsame _ (hq.2.2 f hf))
    clock := fun a => by
      by_cases ha : a = assocId
      · simp [ha]
      · simpa [hsame a ha] using h.clock a
    delivered := h.delivered }

/-- **Every step keeps the invariant**, if Dissociates are taken quietly. -/
theorem Inv.step {st st' : Conn L} {a : Action} (hq : DissociatesQuietly st a) (h : Inv st)
    (hs : step st a = some st') : Inv st' := by
  have hmono : ∀ a, st.dissociatedAt a ≤ st.clock + 1 := fun a => Nat.le_succ_of_le (h.clock a)
  cases a with
  | stream =>
    simp only [Connection.step] at hs
    split at hs
    · cases hs; exact h
    · cases hs
      refine { h with tasks := fun task ht => ?_ }
      rcases mem_append.mp ht with ht | ht
      · exact h.tasks task ht
      · rw [mem_singleton.mp ht]; trivial
    cases hs
    refine { h with clock := hmono, tasks := fun task ht => ?_ }
    rcases mem_append.mp ht with ht | ht
    · exact h.tasks task ht
    · rw [mem_singleton.mp ht]; exact h.clock _
  | task i sent =>
    simp only [Connection.step] at hs
    have herase : ∀ task ∈ st.tasks.eraseIdx i, task ∈ st.tasks := fun task ht =>
      mem_of_mem_eraseIdx ht
    split at hs
    · cases hs
    next assocId htask =>
      cases hs
      exact h.dissociate (hq assocId htask) _ herase
    next received p htask =>
      have hp := h.tasks _ (mem_of_getElem? htask)
      obtain ⟨hmap, hforward⟩ := h.uni.prepare (p := p) hp
      split at hs <;> cases hs
      next fs hprep =>
        rw [hprep] at hmap
        exact { h with uni := hmap, tasks := fun task ht => h.tasks task (herase task ht) }
      rename_i f fs hprep
      rw [hprep] at hmap hforward
      refine { h with uni := hmap, tasks := fun task ht => ?_ }
      rcases mem_or_eq_of_mem_set ht with ht | rfl
      · exact h.tasks task ht
      · exact hforward f rfl
    rename_i f htask
    cases hs
    exact { h with
      tasks := fun task ht => h.tasks task (herase task ht)
      delivered := h.deliver (h.tasks _ (mem_of_getElem? htask)) sent }
  | datagram =>
    obtain ⟨-, hs⟩ := Option.ite_none_right_eq_some.mp hs
    split at hs
    · cases hs; exact { h with }
    · cases hs; exact h
    rename_i p _
    cases hs
    obtain ⟨hmap, hforward⟩ := h.datagram.prepare (h.clock p.assocId)
    exact { h with datagram := hmap, forwarding := hforward, clock := hmono }
  | forwarded sent =>
    simp only [Connection.step] at hs
    split at hs <;> cases hs
    rename_i f hf
    exact { h with
      forwarding := by simp
      delivered := h.deliver (h.forwarding f hf) sent }

theorem Inv.start : Inv (Conn.start L) where
  uni := fun k x hx => by simp [Conn.start] at hx
  datagram := fun k x hx => by simp [Conn.start] at hx
  tasks := by simp [Conn.start]
  forwarding := by simp [Conn.start]
  clock := fun _ => le_rfl
  delivered := by simp [Forgotten, Conn.start]

end

/-- **Dissociate forgets what came before it**, in every run in which each Dissociate is processed
while nothing of its association is on its way and nothing of it is in the map of the datagram
loop. -/
theorem dissociate_forgets (L : FragmentLru) (actions : List Action) (st : Conn L)
    (hq : Throughout step DissociatesQuietly (Conn.start L) actions)
    (hrun : run step (Conn.start L) actions = some st) : Forgotten st :=
  (run_invariant (fun _ _ _ hok hi hs => Inv.step hok hi hs) actions _ st hq Inv.start hrun).delivered

def firstFragment : List UInt8 := [5, 2, 0, 7, 0, 0, 2, 0, 0, 1, 1, 192, 0, 2, 1, 0, 53, 1]
def secondFragment : List UInt8 := [5, 2, 0, 7, 0, 0, 2, 1, 0, 1, 0xff, 2]

/-- The Dissociate command for association 7. -/
def dissociateSeven : Source := ⟨[[5, 3, 0, 7]], by decide⟩

/-- A fragment on a stream, the Dissociate, and then a whole packet in two datagrams. -/
def reused : List Action :=
  [.stream ⟨[firstFragment], by decide⟩, .task 0 true, .stream dissociateSeven, .task 0 true,
    .datagram firstFragment, .datagram secondFragment, .forwarded true]

/-- The association is used before it is dissociated, and again after that. -/
theorem dissociate_forgets_reused :
    ∃ st, run step (Conn.start (listLru UdpFragmentKey FragmentedPacket)) reused = some st ∧
      st.delivered.length = 1 ∧ Forgotten st := by
  refine ⟨(run step (Conn.start (listLru UdpFragmentKey FragmentedPacket)) reused).get
    (by decide +kernel), (Option.some_get _).symm, by decide +kernel,
    dissociate_forgets _ reused _ ⟨trivial, fun s₁ h₁ => ?_⟩ (Option.some_get _).symm⟩
  cases h₁
  refine ⟨nofun, fun s₂ h₂ => ⟨trivial, fun s₃ h₃ => ⟨?_, fun _ _ => ⟨trivial, fun _ _ =>
    ⟨trivial, fun _ _ => ⟨trivial, fun _ _ => trivial⟩⟩⟩⟩⟩⟩
  cases h₂
  cases h₃
  intro assocId htask
  refine ⟨fun k _ => Lru.find_new _ _ k, ?_, ?_⟩
  · intro task ht
    rw [mem_singleton.mp ht]
    nofun
  · nofun

/-- A Dissociate between two datagrams: the byte that came before it is delivered after it. -/
theorem dissociate_keeps_datagram_fragment :
    ∃ st, run step (Conn.start (listLru UdpFragmentKey FragmentedPacket))
        [.datagram firstFragment, .stream dissociateSeven, .task 0 true, .datagram secondFragment,
          .forwarded true] = some st ∧
      st.delivered = [⟨⟨7, [1, 0], ⟨⟨.ipv4 ⟨192, 0, 2, 1⟩, 53⟩, [1, 2]⟩⟩, 1⟩] ∧
      ¬Forgotten st :=
  ⟨_, rfl, by decide, by decide⟩

end Shoes.Tuic.Connection
