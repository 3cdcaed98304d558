import Shoes.Lib.Assoc
import Shoes.Lib.Machine

/-! # AnyTLS sessions

An `AnyTlsSession` of the server: the receive loop, the task that sends what the streams have
written, and a handler for each stream. A client may use the id of a closed stream again while its
handler still runs. -/
namespace Shoes.AnyTls.ServerSession
open Lib.Assoc Lib.Machine List

def maxConcurrentStreams : Nat := 1024

/-- A stream that was opened. The channel made for it tells it from others with its id, and names
the handle of its handler too. -/
structure Stream where
  id : UInt32
  channel : Nat
  deriving DecidableEq

/-- Where `process_outgoing` is. It waits for the lock of the writer, and after a FIN for that of
`streams`. -/
inductive Sending
  | idle
  | writing (stream : Stream) (data : List UInt8)
  | removing (stream : Stream)
  deriving DecidableEq

structure Session where
  streams : Map UInt32 Nat
  streamTasks : Map UInt32 Nat
  /-- What the streams have written and `process_outgoing` has not taken. -/
  outgoing : List (Stream × List UInt8)
  sending : Sending
  /-- A stream that is in `streams` and whose handler is about to be spawned. -/
  opening : Option Stream
  alive : List Stream
  /-- Handlers that have left `stream_tasks` and not yet looked at `streams`. -/
  ending : List Stream
  opened : Nat
  receivedClientSettings : Bool
  isClosed : Bool

def Session.new : Session := ⟨.empty, .empty, [], .idle, none, [], [], 0, false, false⟩

/-- What one task does between two points at which it waits. -/
inductive Event
  | settings
  | syn (id : UInt32)
  | spawn
  | psh (id : UInt32) (data : List UInt8)
  | fin (id : UInt32)
  | write (stream : Stream) (data : List UInt8)
  | processOutgoing
  | finish (stream : Stream)
  | cleanup (stream : Stream)
  | close
  deriving DecidableEq

inductive Effect
  | alert
  | refused (id : UInt32)
  /-- Bytes for a stream; none is the end. -/
  | data (channel : Nat) (bytes : List UInt8)
  /-- A frame for the client, a FIN if it has no bytes. -/
  | frame (id : UInt32) (bytes : List UInt8)
  deriving DecidableEq

namespace Session

def step (s : Session) : Event → List Effect × Session
  | .settings => ([], { s with receivedClientSettings := true })
  | .syn id =>
    -- the receive loop takes the next frame when it is done with the last
    if s.opening.isSome then ([], s)
    else if ¬s.receivedClientSettings then ([.alert], s)
    else if s.streams.size ≥ maxConcurrentStreams then ([.refused id], s)
    else if s.streams.contains id then ([], s)
    else ([], { s with
      streams := s.streams.insert id s.opened
      opening := some ⟨id, s.opened⟩
      opened := s.opened + 1 })
  | .spawn =>
    match s.opening with
    | none => ([], s)
    | some st => ([], { s with
        opening := none
        alive := st :: s.alive
        streamTasks := s.streamTasks.insert st.id st.channel })
  | .psh id data =>
    match s.streams.get id with
    | some channel => (if data = [] then [] else [.data channel data], s)
    | none => ([], s)
  | .fin id =>
    match s.streams.get id with
    | some channel => ([.data channel []], { s with streams := s.streams.remove id })
    | none => ([], s)
  | .write st data =>
    if st ∈ s.alive then ([], { s with outgoing := s.outgoing ++ [(st, data)] }) else ([], s)
  | .processOutgoing =>
    match s.sending with
    | .idle =>
      match s.outgoing with
      | [] => ([], s)
      | (st, data) :: outgoing =>
        ([], { s with outgoing, sending := if s.isClosed then .idle else .writing st data })
    | .writing st data =>
      ([.frame st.id data], { s with sending := if data = [] then .removing st else .idle })
    | .removing st => ([], { s with streams := s.streams.remove st.id, sending := .idle })
  | .finish st =>
    if st ∈ s.alive then ([], { s with
      alive := s.alive.erase st
      ending := st :: s.ending
      streamTasks := s.streamTasks.remove st.id })
    else ([], s)
  | .cleanup st =>
    if st ∈ s.ending then ([], { s with
      ending := s.ending.erase st
      -- `same_channel`
      streams := if s.streams.get st.id = some st.channel then s.streams.remove st.id
        else s.streams })
    else ([], s)
  | .close =>
    if s.isClosed then ([], s)
    else ([], { s with
      isClosed := true
      alive := s.alive.filter fun st => decide (s.streamTasks.get st.id ≠ some st.channel)
      streamTasks := .empty
      streams := .empty })

/-! ## Handlers -/

structure Tracked (s : Session) : Prop where
  bound : s.alive.length ≤ maxConcurrentStreams
  own : ∀ st ∈ s.alive, s.streamTasks.get st.id = some st.channel
  closed : s.isClosed = true → s.alive = []

/-- A handler is spawned in an open session, and while every handler that runs has its stream in
`streams`. -/
def isSeen (s : Session) : Event → Bool
  | .spawn => !s.isClosed && s.alive.all fun o => decide (s.streams.get o.id = some o.channel)
  | _ => true

variable {s s' : Session} {st : Stream} {e : Event}

theorem step_handlers (s : Session) (e) :
    (e = .spawn ∨ (∃ st, e = .finish st) ∨ e = .close) ∨ (step s e).2.alive = s.alive ∧
      (step s e).2.streamTasks = s.streamTasks ∧ (step s e).2.isClosed = s.isClosed := by
  cases e with
  | spawn => exact .inl (.inl rfl)
  | finish st => exact .inl (.inr (.inl ⟨st, rfl⟩))
  | close => exact .inl (.inr (.inr rfl))
  | settings => exact .inr ⟨rfl, rfl, rfl⟩
  | _ =>
    right
    simp only [step]
    repeat' split
    all_goals exact ⟨rfl, rfl, rfl⟩

/-- While a stream is opened `streams` has room for it, and nothing else stands under its id. -/
structure Opening (s : Session) (st : Stream) : Prop where
  opened : st.channel < s.opened
  fresh : ∀ o ∈ s.alive, o.channel ≠ st.channel
  own : ∀ channel, s.streams.get st.id = some channel → channel = st.channel
  room : ∀ ids : List UInt32, ids.Nodup →
    (∀ id ∈ ids, id ≠ st.id ∧ s.streams.contains id = true) → ids.length < maxConcurrentStreams

structure Fresh (s : Session) : Prop where
  older : ∀ o ∈ s.alive, o.channel < s.opened
  opening : ∀ st, s.opening = some st → Opening s st

/-- A stream leaves `streams` in these steps, and none comes. -/
structure Shrinks (s s' : Session) : Prop where
  opened : s'.opened = s.opened
  opening : s'.opening = s.opening
  alive : s'.alive ⊆ s.alive
  streams : ∀ id channel, s'.streams.get id = some channel → s.streams.get id = some channel

theorem step_shrinks (hspawn : e ≠ .spawn) (hsyn : ∀ id, e ≠ .syn id) : Shrinks s (step s e).2 := by
  cases e with
  | spawn => exact absurd rfl hspawn
  | syn id => exact absurd rfl (hsyn id)
  | _ =>
    simp only [step]
    repeat' split
    all_goals first
      | exact ⟨rfl, rfl, Subset.refl _, fun _ _ h => h⟩
      | exact ⟨rfl, rfl, Subset.refl _, fun _ _ h => (s.streams.get_of_remove h).2⟩
      | exact ⟨rfl, rfl, erase_subset, fun _ _ h => h⟩
      | exact ⟨rfl, rfl, filter_subset_self _, fun _ _ h => by cases h⟩

theorem Fresh.shrinks (h : Fresh s) (hs : Shrinks s s') : Fresh s' := by
  refine ⟨fun o ho => hs.opened ▸ h.older o (hs.alive ho), fun st hst => ?_⟩
  have ho := h.opening st (hs.opening ▸ hst)
  refine ⟨hs.opened ▸ ho.opened, fun o hmem => ho.fresh o (hs.alive hmem),
    fun c hc => ho.own c (hs.streams _ c hc), fun ids hn hids => ho.room ids hn fun id hid => ?_⟩
  obtain ⟨c, hc⟩ := Option.isSome_iff_exists.mp (hids id hid).2
  exact ⟨(hids id hid).1, Option.isSome_iff_exists.mpr ⟨c, hs.streams id c hc⟩⟩

theorem Fresh.spawn (h : Fresh s) : Fresh (step s .spawn).2 := by
  rw [step]
  split
  · exact h
  rename_i st hst
  exact ⟨forall_mem_cons.mpr ⟨(h.opening st hst).opened, h.older⟩, nofun⟩

theorem Fresh.syn (h : Fresh s) (id) : Fresh (step s (.syn id)).2 := by
  rw [step]
  iterate 4
    split
    · exact h
  rename_i hsize _
  refine ⟨fun o ho => Nat.lt_succ_of_lt (h.older o ho), fun st hst => ?_⟩
  cases hst
  refine ⟨Nat.lt_succ_self _, fun o ho => (h.older o ho).ne, fun c hc => ?_, fun ids hn hids => ?_⟩
  · rw [Map.get_insert_self] at hc
    exact (Option.some.inj hc).symm
  · refine (s.streams.length_le_size hn fun id hid => ?_).trans_lt (not_le.mp hsize)
    have hin := (hids id hid).2
    rwa [Map.contains, Map.get_insert_ne _ (hids id hid).1] at hin

theorem Fresh.step (h : Fresh s) (e) : Fresh (s.step e).2 := by
  cases e with
  | spawn => exact h.spawn
  | syn id => exact h.syn id
  | _ => exact h.shrinks (step_shrinks nofun nofun)

structure Sound (s : Session) : Prop extends Tracked s where
  nodup : (s.alive.map Stream.id).Nodup

/-- The streams of all handlers that run are in `streams`, where there was room for one more. -/
theorem Sound.spawn (h : Sound s) (hfresh : Fresh s) (hseen : s.isSeen .spawn = true) :
    Sound (step s .spawn).2 := by
  cases hopening : s.opening with
  | none => simpa only [step, hopening] using h
  | some st =>
    simp only [isSeen, Bool.and_eq_true, Bool.not_eq_true', all_eq_true, decide_eq_true_eq] at hseen
    obtain ⟨hopen, hin⟩ := hseen
    have ho := hfresh.opening st hopening
    have hids : ∀ o ∈ s.alive, o.id ≠ st.id := fun o hmem hid =>
      ho.fresh o hmem (ho.own _ (hid ▸ hin o hmem))
    have hbound : (s.alive.map Stream.id).length < maxConcurrentStreams := by
      refine ho.room _ h.nodup fun id hid => ?_
      obtain ⟨o, hmem, rfl⟩ := mem_map.mp hid
      exact ⟨hids o hmem, Option.isSome_iff_exists.mpr ⟨_, hin o hmem⟩⟩
    simp only [step, hopening]
    refine ⟨⟨(length_map Stream.id).symm.trans_lt hbound, ?_, fun hclosed => ?_⟩, ?_⟩
    · refine forall_mem_cons.mpr ⟨s.streamTasks.get_insert_self _ _, fun o hmem => ?_⟩
      exact (s.streamTasks.get_insert_ne (hids o hmem) _).trans (h.own o hmem)
    · cases hopen.symm.trans hclosed
    · refine nodup_cons.mpr ⟨fun hmem => ?_, h.nodup⟩
      obtain ⟨o, hmem, hid⟩ := mem_map.mp hmem
      exact hids o hmem hid

theorem Sound.finish (h : Sound s) (st) : Sound (step s (.finish st)).2 := by
  rw [step]
  split
  swap
  · exact h
  rename_i hst
  have hsub : s.alive.erase st <+ s.alive := erase_sublist
  refine ⟨⟨hsub.length_le.trans h.bound, fun o ho => ?_, fun hclosed => ?_⟩,
    h.nodup.sublist (hsub.map _)⟩
  · have hne : o ≠ st := ((h.nodup.of_map _).mem_erase_iff.mp ho).1
    have hid : o.id ≠ st.id := fun hid =>
      hne (inj_on_of_nodup_map h.nodup (hsub.subset ho) hst hid)
    exact (s.streamTasks.get_remove_ne hid).trans (h.own o (hsub.subset ho))
  · exact eq_nil_of_subset_nil (h.closed hclosed ▸ hsub.subset)

theorem Sound.close (h : Sound s) : Sound (step s .close).2 := by
  rw [step]
  split
  · exact h
  have hnone : s.alive.filter (fun st => decide (s.streamTasks.get st.id ≠ some st.channel)) =
      [] := filter_eq_nil_iff.mpr fun st hst => by simp [h.own st hst]
  simp only [hnone]
  exact ⟨⟨Nat.zero_le _, fun _ hst => (by cases hst), fun _ => rfl⟩, nodup_nil⟩

theorem Sound.step (h : Sound s) (hfresh : Fresh s) (hseen : s.isSeen e = true) :
    Sound (s.step e).2 := by
  obtain (rfl | ⟨st, rfl⟩ | rfl) | ⟨halive, htasks, hclosed⟩ := step_handlers s e
  · exact h.spawn hfresh hseen
  · exact h.finish st
  · exact h.close
  exact ⟨⟨halive ▸ h.bound, halive ▸ htasks ▸ h.own, halive ▸ hclosed ▸ h.closed⟩, halive ▸ h.nodup⟩

/-- **Handlers are bounded and tracked** in every run in which each is spawned into an open session
whose other handlers have their streams in `streams`: they are at most `MAX_CONCURRENT_STREAMS`,
each is in `stream_tasks` under its own handle, and `close` leaves none. -/
theorem handlers_tracked (es : List Event) (h : Along step (fun s e => s.isSeen e = true) .new es) :
    Tracked (after step .new es) := by
  have hnew : Sound .new ∧ Fresh .new :=
    ⟨⟨⟨Nat.zero_le _, fun _ hst => (nomatch hst), fun _ => rfl⟩, nodup_nil⟩, nofun, nofun⟩
  have hstep : ∀ s e, s.isSeen e = true → Sound s ∧ Fresh s →
      Sound (step s e).2 ∧ Fresh (step s e).2 :=
    fun s e hseen hs => ⟨hs.1.step hs.2 hseen, hs.2.step e⟩
  exact (h.invariant hstep hnew).1.toTracked

theorem handlers_tracked_two : Tracked (after step .new
      [.settings, .syn 1, .spawn, .syn 2, .spawn, .fin 1, .finish ⟨1, 0⟩, .syn 1, .spawn, .syn 3,
        .spawn, .close]) :=
  handlers_tracked _ (by decide +kernel)

/-- An id used again while the handler of the first stream runs: that handler has lost its handle,
and `close` leaves it running. -/
theorem handler_lost :
    let s := after step .new [.settings, .syn 1, .spawn, .psh 1 [1], .fin 1, .syn 1, .spawn]
    s.alive = [⟨1, 1⟩, ⟨1, 0⟩] ∧ s.streamTasks.get 1 = some 1 ∧
    (step s .close).2.alive = [⟨1, 0⟩] := by
  decide +kernel

/-! ## Streams -/

/-- The stream comes to its own end. -/
def ends (st : Stream) (s : Session) : Event → Bool
  | .fin id => id = st.id
  | .close => true
  | .cleanup st' => st' = st
  | .processOutgoing => s.sending = .writing st [] ∨ s.sending = .removing st
  | _ => false

/-- A stream whose end is sent, or that is removed for it, has not been followed by another with its
id. -/
def finIsOwn (s : Session) : Event → Bool
  | .processOutgoing =>
    match s.sending with
    | .writing st [] | .removing st =>
      s.streams.get st.id = none ∨ s.streams.get st.id = some st.channel
    | _ => true
  | _ => true

/-- What a stream that stays open may expect of a step. -/
def Keeps (st : Stream) (e : Event) (effects : List Effect) : Prop :=
  .frame st.id [] ∉ effects ∧
  ∀ data, e = .psh st.id data → data ≠ [] → effects = [.data st.channel data]

theorem kept_step (hopen : s.streams.get st.id = some st.channel) (hown : s.finIsOwn e = true)
    (hends : ends st s e = false) :
    (s.step e).2.streams.get st.id = some st.channel ∧ Keeps st e (s.step e).1 := by
  cases e with
  | settings => exact ⟨hopen, nofun, nofun⟩
  | close => cases hends
  | write | finish | spawn =>
    rw [step]
    split <;> exact ⟨hopen, by simp, by simp⟩
  | syn =>
    rw [step]
    iterate 4
      split
      · exact ⟨hopen, by simp, by simp⟩
    rename_i hid
    refine ⟨(s.streams.get_insert_ne (fun heq => hid ?_) _).trans hopen, by simp, by simp⟩
    rw [Map.contains, ← heq, hopen]
    rfl
  | psh =>
    rw [step]
    split
    · next channel hget =>
      refine ⟨hopen, by split <;> simp, fun data' heq hdata => ?_⟩
      cases heq
      cases hopen.symm.trans hget
      rw [if_neg hdata]
    rename_i hget
    refine ⟨hopen, by simp, fun data' heq => ?_⟩
    cases heq
    cases hopen.symm.trans hget
  | fin id =>
    have hid : ¬id = st.id := of_decide_eq_false hends
    rw [step]
    split
    · exact ⟨(s.streams.get_remove_ne (Ne.symm hid)).trans hopen, by simp, by simp⟩
    · exact ⟨hopen, by simp, by simp⟩
  | cleanup st' =>
    rw [step]
    split
    swap
    · exact ⟨hopen, by simp, by simp⟩
    refine ⟨?_, by simp, by simp⟩
    dsimp only
    split
    swap
    · exact hopen
    rename_i hsame
    refine (s.streams.get_remove_ne fun hid => ?_).trans hopen
    -- with the same id it would have the same channel
    have hne : ¬st' = st := of_decide_eq_false hends
    obtain ⟨id, channel⟩ := st
    obtain ⟨_, _⟩ := st'
    cases hid
    cases hopen.symm.trans hsame
    exact hne rfl
  | processOutgoing =>
    have hne : ¬(s.sending = .writing st [] ∨ s.sending = .removing st) := of_decide_eq_false hends
    -- an end under the id of the stream would be its own
    have hother : ∀ st', (s.streams.get st'.id = none ∨ s.streams.get st'.id = some st'.channel) →
        st' ≠ st → st.id ≠ st'.id := by
      intro st' hst' hst hid
      rw [← hid, hopen] at hst'
      obtain ⟨_, _⟩ := st
      obtain ⟨_, _⟩ := st'
      cases hid
      rcases hst' with hst' | hst'
      · cases hst'
      · cases hst'
        exact hst rfl
    rw [step]
    cases hsending : s.sending with
    | idle =>
      dsimp only
      split <;> exact ⟨hopen, by simp, by simp⟩
    | writing st' data =>
      rw [finIsOwn, hsending] at hown
      cases data with
      | cons => exact ⟨hopen, by simp, by simp⟩
      | nil =>
        have hid := hother st' (of_decide_eq_true hown) fun hst => hne (.inl (hst ▸ hsending))
        exact ⟨hopen, by simpa using hid, by simp⟩
    | removing st' =>
      rw [finIsOwn, hsending] at hown
      have hid := hother st' (of_decide_eq_true hown) fun hst => hne (.inr (hst ▸ hsending))
      exact ⟨(s.streams.get_remove_ne hid).trans hopen, by simp, by simp⟩

/-- **A stream is kept until its own end** in every run in which, when an end of stream is sent and
when the stream is then removed, it is that of the stream under its id: it stays in `streams`, no
FIN is sent under its id, and all data for it comes to its channel. -/
theorem stream_kept (s : Session) (st : Stream) (es : List Event)
    (hopen : s.streams.get st.id = some st.channel)
    (h : Along step (fun s e => s.finIsOwn e = true ∧ ends st s e = false) s es) :
    (after step s es).streams.get st.id = some st.channel ∧
    ∀ o ∈ outputs step s es, Keeps st o.1 o.2 := by
  induction es generalizing s with
  | nil => exact ⟨hopen, nofun⟩
  | cons e es ih =>
    obtain ⟨hstep, hkeeps⟩ := kept_step hopen h.1.1 h.1.2
    obtain ⟨hrest, hall⟩ := ih _ hstep h.2
    exact ⟨hrest, forall_mem_cons.mpr ⟨hkeeps, hall⟩⟩

theorem stream_kept_reused :
    let s := after step .new
      [.settings, .syn 1, .spawn, .write ⟨1, 0⟩ [], .fin 1, .processOutgoing,
        .processOutgoing, .processOutgoing, .syn 1, .spawn]
    let es := [Event.finish ⟨1, 0⟩, .cleanup ⟨1, 0⟩, .psh 1 [7]]
    s.streams.get 1 = some 1 ∧ (after step s es).streams.get 1 = some 1 :=
  ⟨by decide +kernel, (stream_kept _ ⟨1, 1⟩ _ (by decide +kernel) (by decide +kernel)).1⟩

/-- The first stream's end is sent after its id is used again: the client gets a FIN, and data for
the second stream is lost. -/
theorem late_fin_removes_stream :
    let es := [Event.settings, .syn 1, .spawn, .write ⟨1, 0⟩ [], .fin 1, .syn 1, .spawn]
    (after step .new es).streams.get 1 = some 1 ∧
    (outputs step (after step .new es) [.processOutgoing, .processOutgoing, .processOutgoing,
      .psh 1 [7]]).map Prod.snd = [[], [.frame 1 []], [], []] := by
  decide +kernel

end Session
end Shoes.AnyTls.ServerSession
