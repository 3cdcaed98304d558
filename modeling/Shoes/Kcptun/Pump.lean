import Shoes.Kcptun.Snappy
import Shoes.Lib.Machine

/-! # From KCP to the application

`pump_kcp_session` moves what KCP has received into a buffer and from there to the application. KCP
is a queue of records that the peer fills; `drain_kcp` takes records out of it as long as the buffer
is below its limit, each before it is known whether there is room for it. -/
namespace Shoes.Kcptun.Pump
open Lib.Io Snappy List Lib.Machine

/-- A session. `delivered`, `taken` and `handed` only record what KCP has received, what has been
taken out of it, and what the application has accepted. -/
structure Session where
  queue : List (List UInt8)
  decoder : Option SnappyFramedDecoder
  pending : List UInt8
  ended : Option IoError
  delivered : List UInt8
  taken : List UInt8
  handed : List UInt8
  deriving DecidableEq

inductive Round
  | again (s : Session)
  | done (s : Session)
  deriving DecidableEq

def Round.session : Round → Session
  | .again s => s
  | .done s => s

namespace Session

def new (compression : Bool) (limit : Nat) : Session :=
  ⟨[], if compression then some (.new limit) else none, [], none, [], [], []⟩

def fail (s : Session) (e : IoError) : Session := { s with ended := some e }

def recv (s : Session) (record : List UInt8) (queue : List (List UInt8)) : Session :=
  { s with queue, taken := s.taken ++ record }

variable (snap : Snap) (limit : Nat)

/-- What becomes of a record that has been taken out of KCP. -/
def accept (s : Session) (record : List UInt8) : Round :=
  match s.decoder with
  | some decoder =>
    match decoder.push snap record with
    | .error e => .done (s.fail e)
    | .ok (decoded, decoder) =>
      if s.pending.length + decoded.length > limit then
        .done (s.fail ⟨.invalidData, "Kcptun decompressed data exceeds the stream buffer"⟩)
      else .again { s with decoder := some decoder, pending := s.pending ++ decoded }
  | none =>
    if s.pending.length + record.length > limit then .done s
    else .again { s with pending := s.pending ++ record }

/-- One round of the loop of `drain_kcp`. -/
def drainRound (s : Session) : Round :=
  if s.pending.length < limit then
    match s.queue with
    | [] => .done s
    | record :: queue =>
      if record.length = 0 then .done s
      else if record.length > limit then
        .done (s.fail ⟨.invalidData, "Kcptun receive record exceeds the stream buffer"⟩)
      else (s.recv record queue).accept snap limit record
  else .done s

/-- The loop of `drain_kcp`; every round but the last takes a record. -/
def drainLoop : Nat → Session → Session
  | 0, s => s
  | fuel + 1, s =>
    match s.drainRound snap limit with
    | .done s => s
    | .again s => drainLoop fuel s

def drainKcp (s : Session) : Session := s.drainLoop snap limit (s.queue.length + 1)

end Session

/-- What happens in the loop of `pump_kcp_session`: packets have brought records, the application
has accepted `count` bytes, or the clock ticks. Each is followed by `drain_kcp`. -/
inductive Arm
  | packet (records : List (List UInt8))
  | written (count : Nat)
  | tick
  deriving DecidableEq

namespace Session
variable (snap : Snap) (limit : Nat)

def deliver (s : Session) (record : List UInt8) : Session :=
  { s with queue := s.queue ++ [record], delivered := s.delivered ++ record }

/-- The application accepts some of the buffer. -/
def advance (s : Session) (count : Nat) : Session :=
  { s with pending := s.pending.drop count, handed := s.handed ++ s.pending.take count }

def arm (s : Session) : Arm → Session
  | .packet records => (records.foldl deliver s).drainKcp snap limit
  | .written count => (s.advance count).drainKcp snap limit
  | .tick => s.drainKcp snap limit

def pump : Session → List Arm → Session
  | s, [] => s
  | s, a :: arms => if s.ended.isSome then s else pump (s.arm snap limit a) arms

end Session

/-- A step of a session, with the rounds of `drain_kcp` one by one. -/
inductive Event
  | deliver (record : List UInt8)
  | written (count : Nat)
  | drain
  deriving DecidableEq

/-- A session that has ended does nothing more. -/
def Session.next (snap : Snap) (limit : Nat) (s : Session) (e : Event) : Option Session :=
  if s.ended.isSome then none
  else
    match e with
    | .deliver record => some (s.deliver record)
    | .written count => some (s.advance count)
    | .drain => some (s.drainRound snap limit).session

/-! ## What is conserved -/

/-- Nothing of what KCP delivered is lost: it has been handed over, it is pending, here or in the
decoder, or it is still in KCP's queue. -/
structure Conserved (snap : Snap) (limit : Nat) (s : Session) : Prop where
  alive : s.ended = none
  delivered : s.delivered = s.taken ++ s.queue.flatten
  plain : s.decoder = none → s.taken = s.handed ++ s.pending
  framed : ∀ d, s.decoder = some d → ∃ carry, Holds limit s.taken carry d ∧
    Framed snap limit s.taken (s.handed ++ s.pending) carry

/-- There is room for the record: for its bytes, or for what the stream of records says with it
beyond what has been handed over. -/
def Room (snap : Snap) (limit : Nat) (s : Session) (record : List UInt8) : Prop :=
  match s.decoder with
  | none => s.pending.length + record.length ≤ limit
  | some d => d.input.length + record.length ≤ limit ∧
    ∃ decoded carry, Framed snap limit (s.taken ++ record) decoded carry ∧
      decoded.length ≤ s.handed.length + limit

/-- Records are within the limit of the session, the application accepts bytes that are there, and
a record is taken out of KCP when there is room for it. -/
def Fits (snap : Snap) (limit : Nat) (s : Session) : Event → Prop
  | .deliver record => record.length ≤ limit
  | .written count => count ≤ s.pending.length
  | .drain => ∀ record queue, s.queue = record :: queue → s.pending.length < limit →
      record ≠ [] → Room snap limit s record

section
variable {snap : Snap} {limit : Nat} {s : Session}

theorem Conserved.new (compression) : Conserved snap limit (.new compression limit) := by
  refine ⟨rfl, rfl, fun _ => rfl, ?_⟩
  intro d hd
  rcases compression with _ | _
  · cases hd
  cases hd
  exact ⟨[], .new limit, .identifier (Nat.succ_pos _)⟩

section
variable (h : Conserved snap limit s)
include h

theorem Conserved.deliver (record) : Conserved snap limit (s.deliver record) := by
  refine ⟨h.alive, ?_, h.plain, h.framed⟩
  simp [Session.deliver, h.delivered]

theorem Conserved.advance (count) : Conserved snap limit (s.advance count) := by
  have hall : s.handed ++ s.pending.take count ++ s.pending.drop count = s.handed ++ s.pending := by
    rw [append_assoc, take_append_drop]
  refine ⟨h.alive, h.delivered, ?_, ?_⟩
  · intro hd
    exact (h.plain hd).trans hall.symm
  intro d hd
  obtain ⟨carry, hholds, _⟩ := h.framed d hd
  refine ⟨carry, hholds, ?_⟩
  change Framed snap limit s.taken
    (s.handed ++ s.pending.take count ++ s.pending.drop count) carry
  rwa [hall]

theorem Conserved.accept (hqueue : s.queue = record :: queue) (hroom : Room snap limit s record) :
    Conserved snap limit ((s.recv record queue).accept snap limit record).session := by
  have hdelivered : s.delivered = s.taken ++ record ++ queue.flatten := by
    rw [h.delivered, hqueue, flatten_cons, append_assoc]
  rcases hd : s.decoder with _ | d
  · simp only [Room, hd] at hroom
    simp only [Session.accept, Session.recv, hd, if_neg (not_lt.mpr hroom), Round.session]
    refine ⟨h.alive, hdelivered, ?_, ?_⟩
    · intro _
      rw [h.plain hd, append_assoc]
    intro d hd'
    cases hd'
  simp only [Room, hd] at hroom
  obtain ⟨hinput, _, carry', hframed', hfits⟩ := hroom
  obtain ⟨_, hholds, hframed⟩ := h.framed d hd
  rw [hholds.input] at hinput
  obtain ⟨new, _, hpush, rfl, hholds'⟩ := push_framed hholds hframed hinput hframed'
    (by rw [length_append]; omega)
  have hnew : s.pending.length + new.length ≤ limit := by
    simp only [length_append] at hfits
    omega
  simp only [Session.accept, Session.recv, hd, hpush, if_neg (not_lt.mpr hnew), Round.session]
  refine ⟨h.alive, hdelivered, ?_, ?_⟩
  · intro hd'
    cases hd'
  intro d₁ hd'
  cases hd'
  refine ⟨carry', hholds', ?_⟩
  rwa [← append_assoc]

theorem Conserved.drainRound (hsmall : ∀ record ∈ s.queue, record.length ≤ limit)
    (hfits : Fits snap limit s .drain) :
    Conserved snap limit (s.drainRound snap limit).session := by
  unfold Session.drainRound
  split
  swap
  · exact h
  rename_i hbelow
  split
  · exact h
  rename_i record queue hqueue
  split
  · exact h
  rename_i hne
  rw [if_neg (not_lt.mpr (hsmall record (by rw [hqueue]; exact mem_cons_self ..)))]
  refine h.accept hqueue (hfits record queue hqueue hbelow ?_)
  intro h0
  exact hne (by rw [h0]; rfl)

end

theorem mem_queue_drainRound (h : record ∈ (s.drainRound snap limit).session.queue) :
    record ∈ s.queue := by
  have haccept (s : Session) (r : List UInt8) :
      (s.accept snap limit r).session.queue = s.queue := by
    unfold Session.accept
    split
    · split
      · rfl
      · split <;> rfl
    · split <;> rfl
  unfold Session.drainRound at h
  split at h
  swap
  · exact h
  split at h
  · exact h
  rename_i first queue hqueue
  rw [hqueue]
  split at h
  · exact hqueue ▸ h
  split at h
  · exact hqueue ▸ h
  rw [haccept] at h
  exact mem_cons_of_mem _ h

structure Kept (snap : Snap) (limit : Nat) (s : Session) : Prop where
  conserved : Conserved snap limit s
  small : ∀ record ∈ s.queue, record.length ≤ limit

theorem Kept.next (hfits : Fits snap limit s e)
    (h : Kept snap limit s) (hnext : s.next snap limit e = some s') : Kept snap limit s' := by
  unfold Session.next at hnext
  rw [if_neg (by rw [h.conserved.alive]; simp)] at hnext
  cases e with
  | deliver record =>
    cases hnext
    refine ⟨h.conserved.deliver record, ?_⟩
    intro r hr
    rcases mem_append.mp hr with hr | hr
    · exact h.small r hr
    rw [mem_singleton.mp hr]
    exact hfits
  | written count =>
    cases hnext
    exact ⟨h.conserved.advance count, h.small⟩
  | drain =>
    cases hnext
    exact ⟨h.conserved.drainRound h.small hfits, fun r hr => h.small r (mem_queue_drainRound hr)⟩

end

/-! ## The loop of the session is made of these steps -/

section
variable {snap : Snap} {limit : Nat}

theorem drainRound_ended {s s' : Session} (hs : s.ended = none)
    (h : s.drainRound snap limit = .again s') : s'.ended = none := by
  unfold Session.drainRound Session.accept at h
  split at h
  swap
  · cases h
  split at h
  · cases h
  split at h
  · cases h
  split at h
  · cases h
  · split at h
    · split at h
      · cases h
      · split at h <;> cases h
        exact hs
    · split at h <;> cases h
      exact hs

theorem drainLoop_run (snap limit fuel s) (hs : s.ended = none) :
    ∃ n, run (Session.next snap limit) s (List.replicate n .drain) =
      some (s.drainLoop snap limit fuel) := by
  induction fuel generalizing s with
  | zero => exact ⟨0, rfl⟩
  | succ fuel ih =>
    have hnext : s.next snap limit .drain = some (s.drainRound snap limit).session := by
      rw [Session.next, if_neg (by rw [hs]; simp)]
    unfold Session.drainLoop
    cases hround : s.drainRound snap limit with
    | done s' =>
      refine ⟨1, ?_⟩
      simp only [replicate_one, run, hnext, hround, Round.session]
    | again s' =>
      obtain ⟨n, hn⟩ := ih s' (drainRound_ended hs hround)
      refine ⟨n + 1, ?_⟩
      simp only [replicate_succ, run, hnext, hround, Round.session, hn]

theorem deliver_run (records : List (List UInt8)) (s : Session) (hs : s.ended = none) :
    run (Session.next snap limit) s (records.map .deliver) =
      some (records.foldl Session.deliver s) := by
  induction records generalizing s with
  | nil => rfl
  | cons record records ih =>
    have hnext : s.next snap limit (.deliver record) = some (s.deliver record) := by
      rw [Session.next, if_neg (by rw [hs]; simp)]
    simp only [map_cons, run, hnext, foldl_cons]
    exact ih _ hs

theorem foldl_deliver_ended (records : List (List UInt8)) (s : Session) :
    (records.foldl Session.deliver s).ended = s.ended := by
  induction records generalizing s with
  | nil => rfl
  | cons record records ih => exact ih (s.deliver record)

theorem arm_run (s) (hs : s.ended = none) (a) :
    ∃ events, run (Session.next snap limit) s events = some (s.arm snap limit a) := by
  have hdrain (s₁ : Session) (pre : List Event) (hs₁ : s₁.ended = none)
      (hpre : run (Session.next snap limit) s pre = some s₁) :
      ∃ events, run (Session.next snap limit) s events = some (s₁.drainKcp snap limit) := by
    obtain ⟨n, hn⟩ := drainLoop_run snap limit (s₁.queue.length + 1) s₁ hs₁
    refine ⟨pre ++ List.replicate n .drain, ?_⟩
    rw [run_append, hpre]
    exact hn
  cases a with
  | packet records =>
    exact hdrain _ _ ((foldl_deliver_ended records s).trans hs) (deliver_run records s hs)
  | written count =>
    refine hdrain (s.advance count) [.written count] hs ?_
    simp [run, Session.next, hs]
  | tick => exact hdrain s [] hs rfl

/-- **Every run of `pump_kcp_session` is a run of these steps.** -/
theorem pump_run (arms s) : ∃ events, run (Session.next snap limit) s events =
      some (s.pump snap limit arms) := by
  induction arms generalizing s with
  | nil => exact ⟨[], rfl⟩
  | cons a arms ih =>
    unfold Session.pump
    split
    · exact ⟨[], rfl⟩
    rename_i halive
    have hs : s.ended = none := by simpa using halive
    obtain ⟨first, hfirst⟩ := arm_run s hs a
    obtain ⟨rest, hrest⟩ := ih (s.arm snap limit a)
    refine ⟨first ++ rest, ?_⟩
    rw [run_append, hfirst]
    exact hrest

/-- At most `limit` bytes are pending. Without compression nothing comes twice or out of order. -/
structure InOrder (limit : Nat) (s : Session) : Prop where
  bound : s.pending.length ≤ limit
  delivered : s.delivered = s.taken ++ s.queue.flatten
  order : s.decoder = none → s.handed ++ s.pending <+ s.taken

variable {s s' : Session}

theorem InOrder.accept (h : InOrder limit s) (hqueue : s.queue = record :: queue) :
    InOrder limit ((s.recv record queue).accept snap limit record).session := by
  have hdelivered : s.delivered = s.taken ++ record ++ queue.flatten := by
    rw [h.delivered, hqueue, flatten_cons, append_assoc]
  -- A record that finds no room is taken and not handed over.
  have hlost : s.decoder = none → s.handed ++ s.pending <+ s.taken ++ record :=
    fun hd => (h.order hd).trans (sublist_append_left ..)
  unfold Session.accept
  split
  · split
    · exact ⟨h.bound, hdelivered, hlost⟩
    split
    · exact ⟨h.bound, hdelivered, hlost⟩
    next hroom => exact ⟨by simpa [Round.session] using hroom, hdelivered, fun hd => by cases hd⟩
  split
  · exact ⟨h.bound, hdelivered, hlost⟩
  next hroom =>
    refine ⟨by simpa [Round.session] using hroom, hdelivered, fun hd => ?_⟩
    exact append_assoc .. ▸ (h.order hd).append_right record

theorem InOrder.next (h : InOrder limit s) (hnext : s.next snap limit e = some s') :
    InOrder limit s' := by
  obtain ⟨-, hnext⟩ := Option.ite_none_left_eq_some.mp hnext
  cases e with
  | deliver record =>
    cases hnext
    exact ⟨h.bound, by simp [Session.deliver, h.delivered], h.order⟩
  | written count =>
    cases hnext
    refine ⟨(drop_sublist ..).length_le.trans h.bound, h.delivered, fun hd => ?_⟩
    simpa [Session.advance] using h.order hd
  | drain =>
    cases hnext
    unfold Session.drainRound
    split
    · split
      · exact h
      split
      · exact h
      split
      · exact ⟨h.bound, h.delivered, h.order⟩
      · exact h.accept ‹_›
    · exact h

/-- **In order and within the limit**, whatever comes and however slow the application is. -/
theorem pump_in_order (compression arms) :
    InOrder limit ((Session.new compression limit).pump snap limit arms) := by
  have hnew : InOrder limit (.new compression limit) := ⟨Nat.zero_le _, rfl, fun _ => .slnil⟩
  obtain ⟨events, hrun⟩ := @pump_run snap limit arms (.new compression limit)
  exact run_invariant (fun _ _ _ _ h => h.next) events _ _ (throughout_true ..) hnew hrun

end

/-- **Nothing is lost while there is room.** In a run in which every record finds room when it is
taken out of KCP, the session does not end, and all that KCP has delivered has been handed over, is
pending, or is still in KCP's queue; with compression the same holds of what the stream says, and
what the decoder holds is an unfinished frame. -/
theorem kcptun_conserves_with_room (snap : Snap) (limit : Nat) (compression : Bool)
    (events : List Event) (s : Session)
    (hfits : Lib.Machine.Throughout (Session.next snap limit) (Fits snap limit)
      (.new compression limit) events)
    (hrun : run (Session.next snap limit) (.new compression limit) events = some s) :
    s.ended = none ∧ s.delivered = s.taken ++ s.queue.flatten ∧
      (s.decoder = none → s.handed ++ s.pending = s.taken ∧ s.handed <+: s.delivered) ∧
      (∀ d, s.decoder = some d → Framed snap limit s.taken (s.handed ++ s.pending) d.input) := by
  have hnew : Kept snap limit (.new compression limit) :=
    ⟨.new compression, nofun⟩
  obtain ⟨h, -⟩ := run_invariant (fun _ _ _ hok hk hn => Kept.next hok hk hn) events _ _
    hfits hnew hrun
  refine ⟨h.alive, h.delivered, ?_, ?_⟩
  · intro hd
    refine ⟨(h.plain hd).symm, s.pending ++ s.queue.flatten, ?_⟩
    rw [h.delivered, h.plain hd, append_assoc]
  intro d hd
  obtain ⟨_, hholds, _⟩ := h.framed d hd
  rwa [hholds.input]

def plainRun : List Event := [.deliver [1, 2], .deliver [3, 4], .drain, .written 2, .drain]

/-- The record that completes the first frame starts the next one. -/
def framedRun : List Event :=
  [.deliver (snappyStreamIdentifier ++ [0, 0]), .drain, .deliver [0, 0, 9], .drain]

/-- Two records, the second taken out when the application has accepted the first; and with
compression, where the records do not end where the frames do. -/
theorem kcptun_conserves_with_room_two :
    (∃ s, run (Session.next (fun _ => .ok []) 3) (.new false 3) plainRun = some s ∧
      s.handed ++ s.pending = s.taken) ∧
    ∃ s, run (Session.next (fun _ => .ok [7]) 14) (.new true 14) framedRun = some s ∧
      s.pending = [7] ∧ Framed (fun _ => .ok [7]) 14 s.taken (s.handed ++ s.pending) [9] := by
  refine ⟨⟨_, rfl, ?_⟩, ⟨_, rfl, rfl, ?_⟩⟩
  · refine ((kcptun_conserves_with_room (fun _ => .ok []) 3 false plainRun _ ?_ rfl).2.2.1 rfl).1
    refine ⟨show 2 ≤ 3 by decide, fun s h => ?_⟩
    cases h
    refine ⟨show 2 ≤ 3 by decide, fun s h => ?_⟩
    cases h
    refine ⟨?_, fun s h => ?_⟩
    · intro record queue hqueue _ _
      cases hqueue
      exact show 0 + 2 ≤ 3 by decide
    cases h
    refine ⟨show 2 ≤ 2 by decide, fun s h => ?_⟩
    cases h
    refine ⟨?_, fun s h => trivial⟩
    intro record queue hqueue _ _
    cases hqueue
    exact show 0 + 2 ≤ 3 by decide
  refine (kcptun_conserves_with_room (fun _ => .ok [7]) 14 true framedRun _ ?_ rfl).2.2.2 _ rfl
  refine ⟨show 12 ≤ 14 by decide, fun s h => ?_⟩
  cases h
  refine ⟨?_, fun s h => ?_⟩
  · intro record queue hqueue _ _
    cases hqueue
    exact ⟨show 0 + 12 ≤ 14 by decide, [], [0, 0], .frames (.stop (.inl (by decide))),
      show 0 ≤ 0 + 14 by decide⟩
  cases h
  refine ⟨show 3 ≤ 14 by decide, fun s h => ?_⟩
  cases h
  refine ⟨?_, fun s h => trivial⟩
  intro record queue hqueue _ _
  cases hqueue
  have hframes : Frames (fun _ => .ok [7]) 14 ([0, 0, 0, 0] ++ [9]) ([7] ++ []) [9] :=
    .frame (by decide) rfl (by decide) rfl (.stop (.inl (by decide)))
  exact ⟨show 2 + 3 ≤ 14 by decide, [7], [9], .frames hframes, show 1 ≤ 0 + 14 by decide⟩

/-- A record that comes while the application is slow is taken out of KCP and lost, and with
compression it ends the session. -/
theorem slow_application_loses_a_record : (∃ s, s = (Session.new false 3).pump (fun _ => .ok []) 3
        [.packet [[1, 2], [3, 4]], .written 2, .packet [[5]], .written 1] ∧
      s.ended = none ∧ s.delivered = [1, 2, 3, 4, 5] ∧ s.queue = [] ∧ s.pending = [] ∧
      s.handed = [1, 2, 5]) ∧
    (∃ s, s = (Session.new true 14).pump (fun _ => .ok (List.replicate 8 7)) 14
        [.packet [snappyStreamIdentifier], .packet [[0, 0, 0, 0]], .packet [[0, 0, 0, 0]]] ∧
      s.ended = some ⟨.invalidData, "Kcptun decompressed data exceeds the stream buffer"⟩ ∧
      s.handed = [] ∧ s.pending = List.replicate 8 7) :=
  ⟨⟨_, rfl, by decide⟩, ⟨_, rfl, by decide⟩⟩

end Shoes.Kcptun.Pump
