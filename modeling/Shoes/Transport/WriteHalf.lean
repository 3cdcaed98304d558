import Shoes.Transport.VirtualStream
import Shoes.Lib.Io
import Shoes.Lib.Machine

/-! # The writing side of a logical stream

A `VirtualStream` queues commands for the session writer. A flush queues a barrier and waits for the
answer; the stream remembers whether there is anything to flush. The close is queued by
`poll_shutdown`, or when the stream is dropped. -/
namespace Shoes.Transport.WriteHalf
open Lib.Io VirtualStream List Option Lib.Machine Bool

/-! ## The session -/

/-- A command in the queue of the session. `mine` tells the commands of one stream from those of
the others, whose id may be the same. -/
structure Queued where
  mine : Bool
  command : OutboundCommand
  deriving DecidableEq

/-- What becomes of the completion of a barrier. -/
inductive Answer
  | flushed
  | failed (e : IoError)
  | dropped
  deriving DecidableEq

/-- `log` is all that was ever queued; the writer has taken the first `taken` of it, and the first
`flushed` have been written and flushed. `closes` are closes on their way to the queue. -/
structure Session where
  log : List Queued
  taken : Nat
  flushed : Nat
  answers : List (Nat × Answer)
  ended : Bool
  closes : Nat
  deriving DecidableEq

inductive WriterStep
  | take
  | fail (e : IoError)
  | flush
  | abandon (barrier : Nat) (reported : Option IoError)
  deriving DecidableEq

namespace Session

def new : Session := ⟨[], 0, 0, [], false, 0⟩

def enqueue (s : Session) (mine : Bool) (command : OutboundCommand) : Session :=
  { s with log := s.log ++ [⟨mine, command⟩] }

def answer (s : Session) (barrier : Nat) : Option Answer := s.answers.lookup barrier

/-- What the session writer does. It writes a command, or flushes and answers a barrier; fails at
either; flushes what it has written; and, when it has failed, leaves barriers without an answer or
answers them with the error. -/
def step (s : Session) : WriterStep → Session
  | .take =>
    if s.ended then s
    else match s.log[s.taken]? with
      | none => s
      | some ⟨_, .barrier⟩ =>
        { s with
          taken := s.taken + 1
          flushed := s.taken + 1
          answers := (s.taken, .flushed) :: s.answers }
      | some _ => { s with taken := s.taken + 1 }
  | .fail e =>
    if s.ended then s
    else match s.log[s.taken]? with
      | some ⟨_, .barrier⟩ =>
        { s with ended := true, answers := (s.taken, .failed e) :: s.answers }
      | _ => { s with ended := true }
  | .flush => if s.ended then s else { s with flushed := s.taken }
  | .abandon barrier reported =>
    if s.ended ∧ (s.answer barrier).isNone then
      { s with answers := (barrier, (reported.map .failed).getD .dropped) :: s.answers }
    else s

def run (s : Session) (steps : List WriterStep) : Session := steps.foldl step s

end Session

/-! ## The stream -/

inductive BarrierState
  | idle
  | reserving
  | waiting (barrier : Nat)
  deriving DecidableEq

structure WriteHalf where
  streamId : UInt32
  maxFramePayload : Nat
  smuxV2 : Bool
  writePermit : Bool
  finishPermit : Bool
  barrier : BarrierState
  writeDirty : Bool
  writeFinished : Bool
  dropClosePermit : Bool
  deriving DecidableEq

def WriteHalf.new (streamId : UInt32) (maxFramePayload : Nat) (smuxV2 : Bool) : WriteHalf :=
  ⟨streamId, maxFramePayload, smuxV2, false, false, .idle, false, false, true⟩

inductive TryReserve
  | permit
  | full
  | closed
  deriving DecidableEq

inductive Reserved
  | pending
  | permit
  | closed
  deriving DecidableEq

/-- What a poll meets: the flow control of smux version 2, the queue, the reservation of a data
command or a barrier, that of the close, whether the session has stalled, and what the writer does
before the answer to a barrier is looked at. -/
structure Meets where
  flow : Poll (Option IoError × Nat)
  tryReserve : TryReserve
  reserved : Reserved
  finish : Reserved
  stalled : Bool
  meanwhile : List WriterStep

def writerClosed : IoError := ⟨.brokenPipe, "multiplexed session writer closed"⟩

def usizeMax : Nat := 18446744073709551615

section
variable (v : WriteHalf) (m : Meets)

structure Written where
  result : Poll (Except IoError Nat)
  stream : WriteHalf
  command : Option OutboundCommand

def pollStalledWrite : Written :=
  if m.stalled then
    ⟨.ready (.error ⟨.timedOut, "multiplexed stream data write timed out"⟩),
      { v with writePermit := false }, none⟩
  else ⟨.pending, v, none⟩

def sendData (payload : List UInt8) : Written :=
  ⟨.ready (.ok payload.length), { v with writePermit := false, writeDirty := true },
    some (.data v.streamId (.copyFrom payload))⟩

def pollWritePermit (payload : List UInt8) : Written :=
  match m.reserved with
  | .pending => pollStalledWrite v m
  | .permit => sendData v payload
  | .closed => ⟨.ready (.error writerClosed), { v with writePermit := false }, none⟩

def writePayload (payload : List UInt8) : Written :=
  if payload = [] then pollStalledWrite v m
  else if v.writePermit then pollWritePermit v m payload
  else match m.tryReserve with
    | .permit => sendData v payload
    | .full => pollWritePermit { v with writePermit := true } m payload
    | .closed => ⟨.ready (.error writerClosed), v, none⟩

def pollWrite (buf : List UInt8) : Written :=
  if v.writeFinished then
    ⟨.ready (.error ⟨.brokenPipe, "multiplexed logical stream is shut down"⟩), v, none⟩
  else if buf = [] then ⟨.ready (.ok 0), v, none⟩
  else if v.smuxV2 then
    match m.flow with
    | .pending => pollStalledWrite v m
    | .ready (some e, _) => ⟨.ready (.error e), v, none⟩
    | .ready (none, capacity) => writePayload v m (buf.take (min v.maxFramePayload capacity))
  else writePayload v m (buf.take (min v.maxFramePayload usizeMax))

/-- What a flush or a shutdown returns. `refused` is set when the session writer has answered the
barrier with an error. -/
structure Flushed where
  result : Poll (Except IoError Unit)
  stream : WriteHalf
  session : Session
  refused : Bool

section
variable (s : Session)

def pollWaiting (barrier : Nat) : Flushed :=
  let s := s.run m.meanwhile
  match s.answer barrier with
  | some .flushed => ⟨.ready (.ok ()), { v with barrier := .idle, writeDirty := false }, s, false⟩
  | some (.failed e) =>
    ⟨.ready (.error e), { v with barrier := .idle, writeDirty := false }, s, true⟩
  | some .dropped =>
    ⟨.ready (.error ⟨.brokenPipe, "multiplexed session writer dropped a flush barrier"⟩),
      { v with barrier := .idle }, s, false⟩
  | none =>
    if m.stalled then
      ⟨.ready (.error ⟨.timedOut, "multiplexed stream flush barrier timed out"⟩),
        { v with barrier := .idle }, s, false⟩
    else ⟨.pending, { v with barrier := .waiting barrier }, s, false⟩

def sendBarrier : Flushed :=
  pollWaiting { v with barrier := .waiting s.log.length } m (s.enqueue true .barrier) s.log.length

def pollReserving : Flushed :=
  match m.reserved with
  | .pending =>
    if m.stalled then
      ⟨.ready (.error ⟨.timedOut, "multiplexed stream flush barrier queue timed out"⟩),
        { v with barrier := .idle }, s, false⟩
    else ⟨.pending, { v with barrier := .reserving }, s, false⟩
  | .permit => sendBarrier v m s
  | .closed => ⟨.ready (.error writerClosed), { v with barrier := .idle }, s, false⟩

def pollBarrier : Flushed :=
  match v.barrier with
  | .idle =>
    if !v.writeDirty then ⟨.ready (.ok ()), v, s, false⟩
    else match m.tryReserve with
      | .permit => sendBarrier v m s
      | .full => pollReserving v m s
      | .closed => ⟨.ready (.error writerClosed), v, s, false⟩
  | .reserving => pollReserving v m s
  | .waiting barrier => pollWaiting v m s barrier

def pollFlush : Flushed := pollBarrier v m s

def WriteHalf.finished : WriteHalf :=
  { v with
    finishPermit := false
    writeFinished := true
    dropClosePermit := false
    writeDirty := true }

def pollShutdown : Flushed :=
  if v.writeFinished then pollBarrier v m s
  else match m.finish with
    | .pending =>
      if m.stalled then
        ⟨.ready (.error ⟨.timedOut, "multiplexed stream close queue timed out"⟩),
          { v with finishPermit := false }, s, false⟩
      else ⟨.pending, { v with finishPermit := true }, s, false⟩
    | .closed => ⟨.ready (.error writerClosed), { v with finishPermit := false }, s, false⟩
    | .permit => pollBarrier v.finished m (s.enqueue true (.finished v.streamId))

def dropStream : Session :=
  if v.writeFinished then s
  else if v.dropClosePermit then { s with closes := s.closes + 1 }
  else match m.tryReserve with
    | .permit => s.enqueue true (.finished v.streamId)
    | _ => s

end

end

/-! ## Runs -/

/-- A stream and its session. `refused` says that a barrier was answered with an error, and
`covered` has the length of the queue at each flush that succeeded. -/
structure State where
  stream : WriteHalf
  session : Session
  dropped : Bool
  refused : Bool
  covered : List Nat
  deriving DecidableEq

def State.new (streamId : UInt32) (maxFramePayload : Nat) (smuxV2 : Bool) : State :=
  ⟨.new streamId maxFramePayload smuxV2, .new, false, false, []⟩

/-- The polls of the stream, its eviction and its end; the session writer, the task that forwards
closes, and the other streams of the session. -/
inductive Action
  | pollWrite (buf : List UInt8) (m : Meets)
  | pollFlush (m : Meets)
  | pollShutdown (m : Meets)
  | evict
  | drop (m : Meets)
  | writer (step : WriterStep)
  | forward
  | other (command : OutboundCommand)

def afterWrite (s : State) (w : Written) : State :=
  { s with
    stream := w.stream
    session := match w.command with
      | none => s.session
      | some command => s.session.enqueue true command }

def afterFlush (s : State) (f : Flushed) : State :=
  { s with stream := f.stream, session := f.session, refused := s.refused || f.refused }

/-- A flush that has succeeded is recorded. -/
def recordFlush (s : State) (f : Flushed) : State :=
  match f.result with
  | .ready (.ok ()) => { afterFlush s f with covered := s.session.log.length :: s.covered }
  | _ => afterFlush s f

/-- Nothing is polled after the drop. An eviction tells the reader and aborts the task of the
stream, and queues nothing. -/
def next (s : State) : Action → Option State
  | .pollWrite buf m => if s.dropped then none else some (afterWrite s (pollWrite s.stream m buf))
  | .pollFlush m =>
    if s.dropped then none else some (recordFlush s (pollFlush s.stream m s.session))
  | .pollShutdown m =>
    if s.dropped then none else some (afterFlush s (pollShutdown s.stream m s.session))
  | .evict => some s
  | .drop m =>
    if s.dropped then none
    else some { s with dropped := true, session := dropStream s.stream m s.session }
  | .writer step => some { s with session := s.session.step step }
  | .forward =>
    if s.session.closes = 0 then none
    else some { s with
      session := ({ s.session with closes := s.session.closes - 1 }).enqueue true
        (.finished s.stream.streamId) }
  | .other command => some { s with session := s.session.enqueue false command }

/-! ## What the session writer does -/

/-- A barrier that was answered well has been flushed with all in front of it. -/
structure Session.Sound (s : Session) : Prop where
  flushed : s.flushed ≤ s.taken
  answered : ∀ barrier, s.answer barrier = some .flushed → barrier < s.flushed

/-- The writer leaves the queue alone, and what is flushed stays so. -/
structure Session.Advances (s s' : Session) : Prop where
  log : s'.log = s.log
  closes : s'.closes = s.closes
  flushed : s.flushed ≤ s'.flushed

theorem Session.Advances.refl (s : Session) : s.Advances s := ⟨rfl, rfl, le_rfl⟩

theorem Session.Advances.trans {s s' s'' : Session} (h : s.Advances s') (h' : s'.Advances s'') :
    s.Advances s'' :=
  ⟨h'.log.trans h.log, h'.closes.trans h.closes, h.flushed.trans h'.flushed⟩

/-- One more answer; a good one is of a barrier in front of `n`. -/
theorem Session.Sound.answered_cons {s : Session} (h : s.Sound) {barrier a k n}
    (hn : s.flushed ≤ n) (ha : a = .flushed → barrier < n)
    (hk : ((barrier, a) :: s.answers).lookup k = some .flushed) : k < n := by
  rw [lookup_cons] at hk
  split at hk
  next heq =>
    rw [beq_iff_eq.mp heq]
    exact ha (Option.some.inj hk)
  · exact (h.answered k hk).trans_le hn

theorem Session.Sound.new : Session.new.Sound := ⟨le_rfl, nofun⟩

theorem Session.Sound.enqueue {s : Session} (h : s.Sound) (mine c) :
    (s.enqueue mine c).Sound := ⟨h.flushed, h.answered⟩

theorem Session.Sound.step {s : Session} (h : s.Sound) (st) :
    (s.step st).Sound ∧ s.Advances (s.step st) := by
  have hflushed := h.flushed
  have same : s.Sound ∧ s.Advances s := ⟨h, .refl s⟩
  cases st with
  | take =>
    rw [Session.step]
    split
    · exact same
    split
    · exact same
    · have hsucc := Nat.le_succ_of_le hflushed
      exact ⟨⟨le_rfl, fun k hk => h.answered_cons hsucc (fun _ => Nat.lt_succ_self _) hk⟩,
        rfl, rfl, hsucc⟩
    · exact ⟨⟨Nat.le_succ_of_le hflushed, h.answered⟩, rfl, rfl, le_rfl⟩
  | fail e =>
    rw [Session.step]
    split
    · exact same
    split
    · exact ⟨⟨hflushed, fun k hk => h.answered_cons le_rfl (fun ha => by cases ha) hk⟩, rfl, rfl,
        le_rfl⟩
    · exact ⟨⟨hflushed, h.answered⟩, rfl, rfl, le_rfl⟩
  | flush =>
    rw [Session.step]
    split
    · exact same
    refine ⟨⟨le_rfl, fun k hk => ?_⟩, rfl, rfl, hflushed⟩
    exact (h.answered k hk).trans_le hflushed
  | abandon barrier reported =>
    rw [Session.step]
    split
    · refine ⟨⟨hflushed, fun k hk => h.answered_cons le_rfl (fun ha => ?_) hk⟩, rfl, rfl, le_rfl⟩
      cases reported <;> cases ha
    · exact same

theorem Session.Sound.run {s : Session} (h : s.Sound) (steps) :
    (s.run steps).Sound ∧ s.Advances (s.run steps) := by
  induction steps generalizing s with
  | nil => exact ⟨h, .refl s⟩
  | cons st steps ih =>
    obtain ⟨hstep, hadvances⟩ := h.step st
    obtain ⟨hrun, hadvances'⟩ := ih hstep
    exact ⟨hrun, hadvances.trans hadvances'⟩

/-! ## What a poll can do -/

/-- Two states of a stream that differ in its reservations at most. -/
structure Agree (v v' : WriteHalf) : Prop where
  streamId : v'.streamId = v.streamId
  barrier : v'.barrier = v.barrier
  writeDirty : v'.writeDirty = v.writeDirty
  writeFinished : v'.writeFinished = v.writeFinished
  dropClosePermit : v'.dropClosePermit = v.dropClosePermit

/-- A write queues nothing and changes nothing, or it queues one data command. -/
inductive Wrote (v : WriteHalf) (w : Written) : Prop
  | nothing (command : w.command = none) (stream : Agree v w.stream)
  | data (payload : List UInt8) (opened : v.writeFinished = false)
      (command : w.command = some (.data v.streamId (.copyFrom payload)))
      (stream : w.stream = { v with writePermit := false, writeDirty := true })

section
variable {v : WriteHalf} {m : Meets} {s : Session}

theorem pollStalledWrite_wrote (v m) : Wrote v (pollStalledWrite v m) := by
  unfold pollStalledWrite
  split <;> exact .nothing rfl ⟨rfl, rfl, rfl, rfl, rfl⟩

theorem Wrote.reserved (h : Wrote { v with writePermit := true } w) : Wrote v w := by
  cases h with
  | nothing command stream =>
    exact .nothing command ⟨stream.streamId, stream.barrier, stream.writeDirty,
      stream.writeFinished, stream.dropClosePermit⟩
  | data payload opened command stream => exact .data payload opened command stream

theorem pollWritePermit_wrote (hopen : v.writeFinished = false) (payload) :
    Wrote v (pollWritePermit v m payload) := by
  unfold pollWritePermit
  split
  · exact pollStalledWrite_wrote v m
  · exact .data payload hopen rfl rfl
  · exact .nothing rfl ⟨rfl, rfl, rfl, rfl, rfl⟩

theorem writePayload_wrote (hopen : v.writeFinished = false) (payload) :
    Wrote v (writePayload v m payload) := by
  unfold writePayload
  split
  · exact pollStalledWrite_wrote v m
  split
  · exact pollWritePermit_wrote hopen payload
  split
  · exact .data payload hopen rfl rfl
  · refine Wrote.reserved ?_
    exact pollWritePermit_wrote (v := { v with writePermit := true }) hopen payload
  · exact .nothing rfl ⟨rfl, rfl, rfl, rfl, rfl⟩

theorem pollWrite_wrote (buf) : Wrote v (pollWrite v m buf) := by
  have same {result : Poll (Except IoError Nat)} : Wrote v ⟨result, v, none⟩ :=
    .nothing rfl ⟨rfl, rfl, rfl, rfl, rfl⟩
  unfold pollWrite
  split
  · exact same
  rename_i hopen
  rw [not_eq_true] at hopen
  split
  · exact same
  split
  · split
    · exact pollStalledWrite_wrote v m
    · exact same
    · exact writePayload_wrote hopen _
  · exact writePayload_wrote hopen _

/-- A barrier poll finds nothing to flush; it ends or waits without a barrier in the queue; or it
looks for the answer to a barrier that was in the queue or is now. -/
inductive Barriered (v : WriteHalf) (m : Meets) (s : Session) : Flushed → Prop
  | clean (idle : v.barrier = .idle) (dirty : v.writeDirty = false) :
      Barriered v m s ⟨.ready (.ok ()), v, s, false⟩
  | away {result : Poll (Except IoError Unit)} {b : BarrierState}
      (failed : result ≠ .ready (.ok ())) (queued : ∀ k, b ≠ .waiting k) :
      Barriered v m s ⟨result, { v with barrier := b }, s, false⟩
  | sent : (∀ k, v.barrier ≠ .waiting k) →
      Barriered v m s (pollWaiting v m (s.enqueue true .barrier) s.log.length)
  | waiting {k : Nat} (barrier : v.barrier = .waiting k) : Barriered v m s (pollWaiting v m s k)

theorem pollWaiting_barrier (b k) :
    pollWaiting { v with barrier := b } m s k = pollWaiting v m s k := by
  rfl

theorem pollReserving_barriered (h : ∀ k, v.barrier ≠ .waiting k) :
    Barriered v m s (pollReserving v m s) := by
  unfold pollReserving
  split
  · split <;> exact .away nofun nofun
  · rw [sendBarrier, pollWaiting_barrier]
    exact .sent h
  · exact .away nofun nofun

theorem pollBarrier_barriered : Barriered v m s (pollBarrier v m s) := by
  unfold pollBarrier
  split
  next hidle =>
    have hqueued : ∀ k, v.barrier ≠ .waiting k := by
      intro k hk
      cases hidle.symm.trans hk
    split
    next hdirty => exact .clean hidle (by simpa using hdirty)
    split
    · rw [sendBarrier, pollWaiting_barrier]
      exact .sent hqueued
    · exact pollReserving_barriered hqueued
    have hv : v = { v with barrier := .idle } := by rw [← hidle]
    rw [hv]
    exact .away nofun nofun
  next hreserving =>
    refine pollReserving_barriered fun k hk => ?_
    cases hreserving.symm.trans hk
  next k hwaiting => exact .waiting hwaiting

/-- What no barrier poll changes of the stream. -/
structure Keeps (v v' : WriteHalf) : Prop where
  streamId : v'.streamId = v.streamId
  writeFinished : v'.writeFinished = v.writeFinished
  dropClosePermit : v'.dropClosePermit = v.dropClosePermit

/-- What a barrier poll leaves of the stream and its session. -/
structure Flushes (v : WriteHalf) (s : Session) (f : Flushed) : Prop where
  stream : Keeps v f.stream
  sound : f.session.Sound
  closes : f.session.closes = s.closes
  flushed : s.flushed ≤ f.session.flushed
  log : f.session.log = s.log ∨ f.session.log = s.log ++ [⟨true, .barrier⟩]

theorem pollWaiting_spec (h : s.Sound) (v m k) : Keeps v (pollWaiting v m s k).stream ∧
    (pollWaiting v m s k).session.Sound ∧ s.Advances (pollWaiting v m s k).session := by
  have hrun := h.run m.meanwhile
  unfold pollWaiting
  dsimp only
  split
  on_goal 4 => split
  all_goals exact ⟨⟨rfl, rfl, rfl⟩, hrun⟩

theorem Barriered.flushes (hb : Barriered v m s f) (h : s.Sound) : Flushes v s f := by
  cases hb with
  | clean | away => exact ⟨⟨rfl, rfl, rfl⟩, h, rfl, le_rfl, .inl rfl⟩
  | sent =>
    obtain ⟨hkeeps, hsound, hlog, hcloses, hflushed⟩ :=
      pollWaiting_spec (h.enqueue true .barrier) v m s.log.length
    exact ⟨hkeeps, hsound, hcloses, hflushed, .inr hlog⟩
  | @waiting k =>
    obtain ⟨hkeeps, hsound, hlog, hcloses, hflushed⟩ := pollWaiting_spec h v m k
    exact ⟨hkeeps, hsound, hcloses, hflushed, .inl hlog⟩

theorem Barriered.accepted (hb : Barriered v m s f)
    (hok : f.result = .ready (.ok ())) : f.refused = false := by
  have hwaiting (s : Session) (k : Nat) (hok : (pollWaiting v m s k).result = .ready (.ok ())) :
      (pollWaiting v m s k).refused = false := by
    unfold pollWaiting at hok ⊢
    dsimp only at hok ⊢
    split at hok
    · rfl
    · cases hok
    · rfl
    · split <;> rfl
  cases hb with
  | clean | away => rfl
  | sent | waiting => exact hwaiting _ _ hok

/-- A shutdown closes nothing, polls the barrier of a stream that is closed, or closes the stream
and polls its barrier. -/
inductive ShutDown (v : WriteHalf) (m : Meets) (s : Session) : Flushed → Prop
  | nothing {result : Poll (Except IoError Unit)} {permit : Bool} (opened : v.writeFinished = false)
      (failed : result ≠ .ready (.ok ())) :
      ShutDown v m s ⟨result, { v with finishPermit := permit }, s, false⟩
  | again {f : Flushed} (closed : v.writeFinished = true) (barrier : Barriered v m s f) :
      ShutDown v m s f
  | close {f : Flushed} (opened : v.writeFinished = false)
      (barrier : Barriered v.finished m (s.enqueue true (.finished v.streamId)) f) :
      ShutDown v m s f

theorem pollShutdown_shutDown : ShutDown v m s (pollShutdown v m s) := by
  unfold pollShutdown
  split
  next hclosed => exact .again hclosed pollBarrier_barriered
  rename_i hopen
  rw [not_eq_true] at hopen
  split
  · split <;> exact .nothing hopen nofun
  · exact .nothing hopen nofun
  · exact .close hopen pollBarrier_barriered

end

/-! ## One close -/

def closeOf (streamId : UInt32) : Queued := ⟨true, .finished streamId⟩

/-- A data command of the stream itself. -/
def Queued.isOwnData : Queued → Bool
  | ⟨true, .data _ _⟩ => true
  | _ => false

/-- No data command of the stream stands behind its close. -/
def DataFirst (streamId : UInt32) (log : List Queued) : Prop :=
  log.Pairwise fun q q' => q = closeOf streamId → q'.isOwnData = false

/-- The close of a stream is queued, or on its way there, once the stream is finished or dropped,
and not before. -/
structure Once (streamId : UInt32) (v : WriteHalf) (s : Session) (dropped : Bool) : Prop where
  ids : v.streamId = streamId
  permit : v.writeFinished = false → v.dropClosePermit = true
  closes : s.log.count (closeOf streamId) + s.closes = if v.writeFinished || dropped then 1 else 0
  ordered : DataFirst streamId s.log

section
variable {streamId : UInt32} {v v' : WriteHalf} {m : Meets} {s s' : Session} {dropped : Bool}

theorem DataFirst.append (h : DataFirst streamId log)
    (hq : q.isOwnData = false ∨ log.count (closeOf streamId) = 0) :
    DataFirst streamId (log ++ [q]) := by
  refine pairwise_append.mpr ⟨h, pairwise_singleton _ _, ?_⟩
  intro q₁ hmem q₂ hq₂ hclose
  rw [mem_singleton] at hq₂
  subst hq₂
  rcases hq with hdata | hcount
  · exact hdata
  · exact absurd (hclose ▸ hmem) (count_eq_zero.mp hcount)

theorem Once.quiet (h : Once streamId v s dropped) (hkeeps : Keeps v v')
    (hcloses : s'.closes = s.closes) (hlog : s'.log = s.log ∨
      ∃ q, s'.log = s.log ++ [q] ∧ q ≠ closeOf streamId ∧
        (q.isOwnData = false ∨ s.log.count (closeOf streamId) = 0)) :
    Once streamId v' s' dropped := by
  refine ⟨hkeeps.streamId.trans h.ids, ?_, ?_, ?_⟩
  · rw [hkeeps.writeFinished, hkeeps.dropClosePermit]
    exact h.permit
  · rw [hkeeps.writeFinished, hcloses, ← h.closes]
    rcases hlog with hlog | ⟨q, hlog, hne, -⟩
    · rw [hlog]
    rw [hlog, count_append, count_singleton]
    simp [hne]
  rcases hlog with hlog | ⟨q, hlog, -, hdata⟩
  · rw [hlog]
    exact h.ordered
  rw [hlog]
  exact h.ordered.append hdata

theorem Once.barriered (h : Once streamId v s dropped) (hsound : s.Sound)
    (hb : Barriered v m s f) : Once streamId f.stream f.session dropped := by
  have hflushes := hb.flushes hsound
  refine h.quiet hflushes.stream hflushes.closes ?_
  rcases hflushes.log with hlog | hlog
  · exact .inl hlog
  · exact .inr ⟨_, hlog, by simp [closeOf], .inl rfl⟩

section
variable (h : Once streamId v s false)
include h

theorem Once.none_yet (hopen : v.writeFinished = false) :
    s.log.count (closeOf streamId) + s.closes = 0 := by
  simpa [hopen] using h.closes

theorem Once.finished (hopen : v.writeFinished = false) :
    Once streamId v.finished (s.enqueue true (.finished v.streamId)) false := by
  have hnone := h.none_yet hopen
  refine ⟨h.ids, nofun, ?_, ?_⟩
  · show (s.log ++ [closeOf v.streamId]).count (closeOf streamId) + s.closes = 1
    rw [h.ids, count_append, count_singleton_self]
    omega
  · exact h.ordered.append (.inl rfl)

theorem Once.shutDown (hsound : s.Sound) (hshut : ShutDown v m s f) :
    Once streamId f.stream f.session false ∧ f.session.Sound := by
  cases hshut with
  | nothing => exact ⟨h.quiet ⟨rfl, rfl, rfl⟩ rfl (.inl rfl), hsound⟩
  | again closed barrier => exact ⟨h.barriered hsound barrier, (barrier.flushes hsound).sound⟩
  | close opened barrier =>
    have hsound' := hsound.enqueue true (.finished v.streamId)
    exact ⟨(h.finished opened).barriered hsound' barrier, (barrier.flushes hsound').sound⟩

theorem Once.drop : Once streamId v (dropStream v m s) true := by
  unfold dropStream
  split
  next hclosed =>
    refine { h with closes := ?_ }
    simpa [hclosed] using h.closes
  rename_i hopen
  rw [Bool.not_eq_true] at hopen
  rw [if_pos (h.permit hopen)]
  refine { h with closes := ?_ }
  rw [hopen]
  exact congrArg (· + 1) (h.none_yet hopen)

end

theorem Once.forward (h : Once streamId v s dropped) (hpos : s.closes ≠ 0) :
    Once streamId v (({ s with closes := s.closes - 1 }).enqueue true (.finished v.streamId))
      dropped := by
  refine { h with closes := ?_, ordered := h.ordered.append (.inl rfl) }
  rw [← h.closes]
  show (s.log ++ [closeOf v.streamId]).count (closeOf streamId) + (s.closes - 1) = _
  rw [h.ids, count_append, count_singleton_self]
  omega

theorem Once.wrote (h : Once streamId v s false) (hw : Wrote v w) : Once streamId w.stream
      (match w.command with
        | none => s
        | some command => s.enqueue true command) false := by
  cases hw with
  | nothing command stream =>
    rw [command]
    exact h.quiet ⟨stream.streamId, stream.writeFinished, stream.dropClosePermit⟩ rfl (.inl rfl)
  | data payload opened command stream =>
    rw [command, stream]
    have hnone := h.none_yet opened
    exact h.quiet ⟨rfl, rfl, rfl⟩ rfl (.inr ⟨_, rfl, by simp [closeOf], .inr (by omega)⟩)

theorem Once.next {s s' a} (h : Once streamId s.stream s.session s.dropped)
    (hsound : s.session.Sound) (hnext : next s a = some s') :
    Once streamId s'.stream s'.session s'.dropped ∧ s'.session.Sound := by
  cases a with
  | pollWrite buf m =>
    obtain ⟨hlive, ⟨⟩⟩ := ite_none_left_eq_some.mp hnext
    rw [not_eq_true] at hlive
    rw [hlive] at h
    have hwrote := pollWrite_wrote (v := s.stream) (m := m) buf
    refine ⟨?_, ?_⟩
    · show Once _ _ _ s.dropped
      rw [hlive]
      exact h.wrote hwrote
    unfold afterWrite
    split
    · exact hsound
    · exact hsound.enqueue true _
  | pollFlush m =>
    obtain ⟨-, ⟨⟩⟩ := ite_none_left_eq_some.mp hnext
    have hb := pollBarrier_barriered (v := s.stream) (m := m) (s := s.session)
    have hflush := And.intro (h.barriered hsound hb) (hb.flushes hsound).sound
    unfold recordFlush
    split <;> exact hflush
  | pollShutdown =>
    obtain ⟨hlive, ⟨⟩⟩ := ite_none_left_eq_some.mp hnext
    rw [not_eq_true] at hlive
    rw [hlive] at h
    show Once _ _ _ s.dropped ∧ _
    rw [hlive]
    exact h.shutDown hsound pollShutdown_shutDown
  | evict =>
    cases hnext
    exact ⟨h, hsound⟩
  | drop =>
    obtain ⟨hlive, ⟨⟩⟩ := ite_none_left_eq_some.mp hnext
    rw [not_eq_true] at hlive
    rw [hlive] at h
    refine ⟨h.drop, ?_⟩
    show (dropStream _ _ _).Sound
    unfold dropStream
    split
    · exact hsound
    split
    · exact ⟨hsound.flushed, hsound.answered⟩
    split
    · exact hsound.enqueue true _
    · exact hsound
  | writer step =>
    cases hnext
    obtain ⟨hstep, hadvances⟩ := hsound.step step
    exact ⟨h.quiet ⟨rfl, rfl, rfl⟩ hadvances.closes (.inl hadvances.log), hstep⟩
  | forward =>
    obtain ⟨hpos, ⟨⟩⟩ := ite_none_left_eq_some.mp hnext
    exact ⟨h.forward hpos, hsound.flushed, hsound.answered⟩
  | other command =>
    cases hnext
    refine ⟨h.quiet ⟨rfl, rfl, rfl⟩ rfl (.inr ⟨_, rfl, ?_, .inl rfl⟩), hsound.enqueue false command⟩
    simp [closeOf]

end

/-- **One close for every stream.** Whatever is polled, whoever evicts the stream and whenever it
is dropped: there is never more than one close of the stream, in the queue or on its way there; no
data of the stream stands behind it; and when the stream has been dropped there is one. -/
theorem closed_exactly_once (streamId : UInt32) (maxFramePayload : Nat) (smuxV2 : Bool)
    (actions : List Action) (s : State)
    (hrun : run next (.new streamId maxFramePayload smuxV2) actions = some s) :
    s.session.log.count (closeOf streamId) + s.session.closes ≤ 1 ∧
      DataFirst streamId s.session.log ∧
      (s.dropped = true → s.session.log.count (closeOf streamId) + s.session.closes = 1) := by
  obtain ⟨honce, -⟩ := @run_invariant State _ next _
    (fun s => Once streamId s.stream s.session s.dropped ∧ s.session.Sound)
    (fun s a s' _ hi hnext => hi.1.next hi.2 hnext) actions (.new ..) s (throughout_true actions _)
    ⟨⟨rfl, fun _ => rfl, rfl, List.Pairwise.nil⟩, Session.Sound.new⟩ hrun
  have hcloses := honce.closes
  refine ⟨?_, honce.ordered, fun hdropped => ?_⟩
  · split at hcloses <;> omega
  rw [hdropped] at hcloses
  simpa using hcloses

def roomy : Meets := ⟨.pending, .permit, .permit, .permit, false, []⟩

/-- The close waits for room when the stream is evicted and dropped. -/
def droppedWaiting : List Action :=
  [.pollWrite [1, 2] roomy, .pollShutdown { roomy with finish := .pending }, .evict, .drop roomy,
    .forward]

theorem closed_exactly_once_dropped : ∃ s, run next (.new 3 100 false) droppedWaiting = some s ∧
      s.dropped = true ∧ s.session.closes = 0 ∧
      s.session.log.count (closeOf 3) + s.session.closes ≤ 1 ∧ DataFirst 3 s.session.log ∧
      (s.dropped = true → s.session.log.count (closeOf 3) + s.session.closes = 1) :=
  ⟨_, rfl, rfl, rfl, closed_exactly_once 3 100 false droppedWaiting _ rfl⟩

/-! ## What a flush covers -/

/-- The stream has queued data as command `p`. -/
def Session.OwnDataAt (s : Session) (p : Nat) : Prop := ∃ q, s.log[p]? = some q ∧ q.isOwnData = true

/-- Data that is not flushed yet will be: there is something to flush, and the barrier that is
waited for, if there is one, stands behind the data. -/
def Flushable (v : WriteHalf) (s : Session) : Prop :=
  ∀ p, s.OwnDataAt p →
    p < s.flushed ∨ (v.writeDirty = true ∧ ∀ k, v.barrier = .waiting k → p < k)

/-- The data among the first `n` commands has been written and flushed. -/
def Session.Covered (s : Session) (n : Nat) : Prop :=
  n ≤ s.log.length ∧ ∀ p < n, s.OwnDataAt p → p < s.flushed

/-- Commands are queued behind the others, and what is flushed stays so. -/
structure Session.Grows (s s' : Session) : Prop where
  log : ∃ more, s'.log = s.log ++ more
  flushed : s.flushed ≤ s'.flushed

section
variable {v v' : WriteHalf} {m : Meets} {s s' : Session}

theorem Session.Advances.grows (h : s.Advances s') : s.Grows s' :=
  ⟨⟨[], by rw [h.log, append_nil]⟩, h.flushed⟩

theorem Session.grows_enqueue (s : Session) (mine c) :
    s.Grows (s.enqueue mine c) := ⟨⟨_, rfl⟩, le_rfl⟩

theorem Session.Grows.trans (h : s.Grows s') (h' : s'.Grows s'') : s.Grows s'' := by
  obtain ⟨more, hlog⟩ := h.log
  obtain ⟨more', hlog'⟩ := h'.log
  exact ⟨⟨more ++ more', by rw [hlog', hlog, append_assoc]⟩, h.flushed.trans h'.flushed⟩

theorem Session.OwnDataAt.lt (h : s.OwnDataAt p) : p < s.log.length := by
  obtain ⟨q, hq, -⟩ := h
  exact (List.getElem?_eq_some_iff.mp hq).1

theorem Session.Grows.ownDataAt (h : s.Grows s') (hp : p < s.log.length) :
    s'.OwnDataAt p ↔ s.OwnDataAt p := by
  obtain ⟨_, hlog⟩ := h.log
  rw [Session.OwnDataAt, Session.OwnDataAt, hlog, List.getElem?_append_left hp]

theorem Session.Covered.grows (h : s.Covered n) (hgrows : s.Grows s') : s'.Covered n := by
  obtain ⟨_, hcovered⟩ := h
  obtain ⟨_, hlog⟩ := hgrows.log
  refine ⟨?_, fun p hp hdata => ?_⟩
  · rw [hlog, length_append]
    omega
  rw [hgrows.ownDataAt (by omega)] at hdata
  exact (hcovered p hp hdata).trans_le hgrows.flushed

theorem ownDataAt_enqueue (h : (s.enqueue mine c).OwnDataAt p) :
    s.OwnDataAt p ∨ (p = s.log.length ∧ (Queued.mk mine c).isOwnData = true) := by
  obtain ⟨q, hq, hown⟩ := h
  unfold Session.enqueue at hq
  by_cases hp : p < s.log.length
  · rw [List.getElem?_append_left hp] at hq
    exact .inl ⟨q, hq, hown⟩
  rw [List.getElem?_append_right (by omega)] at hq
  rw [List.getElem?_singleton] at hq
  split at hq <;> cases hq
  exact .inr ⟨by omega, hown⟩

theorem ownDataAt_advances (h : s.Advances s') (hdata : s'.OwnDataAt p) : s.OwnDataAt p := by
  unfold Session.OwnDataAt at hdata ⊢
  rw [h.log] at hdata
  exact hdata

theorem pollWaiting_covers (hsound : s.Sound)
    (h : ∀ p, s.OwnDataAt p → p < s.flushed ∨ (v.writeDirty = true ∧ p < k))
    (hrefused : (pollWaiting v m s k).refused = false) :
    Flushable (pollWaiting v m s k).stream (pollWaiting v m s k).session ∧
      ((pollWaiting v m s k).result = .ready (.ok ()) →
        ∀ p, s.OwnDataAt p → p < (pollWaiting v m s k).session.flushed) := by
  obtain ⟨hrun, hadvances⟩ := hsound.run m.meanwhile
  have hflushed := hadvances.flushed
  have hpending (b : BarrierState) (hb : ∀ j, b = .waiting j → j = k) :
      Flushable { v with barrier := b } (s.run m.meanwhile) := by
    intro p hp
    rcases h p (ownDataAt_advances hadvances hp) with hdone | ⟨hdirty, hk⟩
    · exact .inl (by omega)
    · exact .inr ⟨hdirty, fun j hj => by rw [hb j hj]; exact hk⟩
  unfold pollWaiting at hrefused ⊢
  dsimp only at hrefused ⊢
  split at hrefused
  next hanswer =>
    have hk := hrun.answered k hanswer
    have hall : ∀ p, s.OwnDataAt p → p < (s.run m.meanwhile).flushed := by
      intro p hp
      rcases h p hp with hdone | ⟨-, hlt⟩ <;> omega
    exact ⟨fun p hp => .inl (hall p (ownDataAt_advances hadvances hp)), fun _ => hall⟩
  · cases hrefused
  · exact ⟨hpending .idle nofun, nofun⟩
  split
  · exact ⟨hpending .idle nofun, nofun⟩
  · exact ⟨hpending (.waiting k) (fun j hj => by cases hj; rfl), nofun⟩

/-- **A flush that succeeds has flushed all the data that was queued.** -/
theorem Barriered.covers (hb : Barriered v m s f) (hsound : s.Sound) (h : Flushable v s)
    (hrefused : f.refused = false) : Flushable f.stream f.session ∧
      (f.result = .ready (.ok ()) → ∀ p, s.OwnDataAt p → p < f.session.flushed) := by
  cases hb with
  | clean idle dirty =>
    refine ⟨h, fun _ p hp => ?_⟩
    rcases h p hp with hdone | ⟨hdirty, -⟩
    · exact hdone
    · cases dirty.symm.trans hdirty
  | away failed queued =>
    refine ⟨fun p hp => ?_, fun hr => absurd hr failed⟩
    rcases h p hp with hdone | ⟨hdirty, -⟩
    · exact .inl hdone
    · exact .inr ⟨hdirty, fun k hk => absurd hk (queued k)⟩
  | sent =>
    have hdata : ∀ p, (s.enqueue true .barrier).OwnDataAt p → s.OwnDataAt p := by
      intro p hp
      rcases ownDataAt_enqueue hp with hp | ⟨-, hq⟩
      · exact hp
      · cases hq
    obtain ⟨hflushable, hok⟩ := pollWaiting_covers (hsound.enqueue true .barrier)
      (fun p hp => by
        rcases h p (hdata p hp) with hdone | ⟨hdirty, -⟩
        · exact .inl hdone
        · exact .inr ⟨hdirty, (hdata p hp).lt⟩) hrefused
    exact ⟨hflushable, fun hr p hp => hok hr p (((s.grows_enqueue _ _).ownDataAt hp.lt).mpr hp)⟩
  | waiting barrier =>
    refine pollWaiting_covers hsound (fun p hp => ?_) hrefused
    rcases h p hp with hdone | ⟨hdirty, hk⟩
    · exact .inl hdone
    · exact .inr ⟨hdirty, hk _ barrier⟩

/-- A command that is not data of the stream, and a stream that still has to flush. -/
theorem Flushable.enqueue (h : Flushable v s)
    (hq : (Queued.mk mine c).isOwnData = false) : Flushable v (s.enqueue mine c) := by
  intro p hp
  rcases ownDataAt_enqueue hp with hp | ⟨-, hown⟩
  · exact h p hp
  · cases hq.symm.trans hown

theorem Flushable.advances (h : Flushable v s) (hadvances : s.Advances s') : Flushable v s' := by
  intro p hp
  rcases h p (ownDataAt_advances hadvances hp) with hdone | hdirty
  · exact .inl (hdone.trans_le hadvances.flushed)
  · exact .inr hdirty

theorem Flushable.shutDown (h : Flushable v s) (hsound : s.Sound)
    (hshut : ShutDown v m s f) (hrefused : f.refused = false) : Flushable f.stream f.session := by
  cases hshut with
  | nothing => exact h
  | again closed barrier => exact (barrier.covers hsound h hrefused).1
  | close opened barrier =>
    refine (barrier.covers (hsound.enqueue true _) ?_ hrefused).1
    intro p hp
    rcases h.enqueue rfl p hp with hdone | ⟨-, hk⟩
    · exact .inl hdone
    · exact .inr ⟨rfl, hk⟩

theorem Flushes.grows (h : Flushes v s f) : s.Grows f.session := by
  refine ⟨?_, h.flushed⟩
  rcases h.log with hlog | hlog
  · exact ⟨[], by rw [hlog, append_nil]⟩
  · exact ⟨_, hlog⟩

theorem ShutDown.grows (h : ShutDown v m s f) (hsound : s.Sound) :
    f.session.Sound ∧ s.Grows f.session := by
  cases h with
  | nothing => exact ⟨hsound, (Session.Advances.refl s).grows⟩
  | again closed barrier =>
    have hflushes := barrier.flushes hsound
    exact ⟨hflushes.sound, hflushes.grows⟩
  | close opened barrier =>
    have hflushes := barrier.flushes (hsound.enqueue true _)
    exact ⟨hflushes.sound, (s.grows_enqueue true _).trans hflushes.grows⟩

end

def BarrierState.isWaiting : BarrierState → Bool
  | .waiting _ => true
  | _ => false

/-- No data is written while a barrier is waited for, and no flush is asked for after one that the
session writer has refused. -/
def Orderly (s : State) : Action → Prop
  | .pollWrite _ _ => s.stream.barrier.isWaiting = false
  | .pollFlush _ => s.refused = false
  | _ => True

instance Orderly.decidable (s : State) : ∀ a, Decidable (Orderly s a)
  | .pollWrite _ _ => inferInstanceAs (Decidable (_ = _))
  | .pollFlush _ => inferInstanceAs (Decidable (_ = _))
  | .pollShutdown _ | .evict | .drop _ | .writer _ | .forward | .other _ =>
    inferInstanceAs (Decidable True)

structure State.Flushing (s : State) : Prop where
  sound : s.session.Sound
  flushable : s.refused = false → Flushable s.stream s.session
  covered : ∀ n ∈ s.covered, s.session.Covered n

section
variable {s s' : State}

theorem State.Flushing.wrote (h : s.Flushing) (hw : Wrote s.stream w)
    (hwaiting : s.stream.barrier.isWaiting = false) : (afterWrite s w).Flushing := by
  cases hw with
  | nothing command stream =>
    rw [afterWrite, command]
    refine ⟨h.sound, fun hrefused p hp => ?_, h.covered⟩
    rw [stream.writeDirty, stream.barrier]
    exact h.flushable hrefused p hp
  | data payload opened command stream =>
    rw [afterWrite, command, stream]
    refine ⟨h.sound.enqueue true _, fun _ p hp => .inr ⟨rfl, fun k hk => ?_⟩, fun n hn => ?_⟩
    · have hk' : s.stream.barrier = .waiting k := hk
      rw [hk'] at hwaiting
      cases hwaiting
    · exact (h.covered n hn).grows (s.session.grows_enqueue true _)

theorem State.Flushing.flushed (h : s.Flushing) (hb : Barriered s.stream m s.session f)
    (hrefused : s.refused = false) : (recordFlush s f).Flushing := by
  have hflushes := hb.flushes h.sound
  have hold : ∀ n ∈ s.covered, f.session.Covered n := fun n hn =>
    (h.covered n hn).grows hflushes.grows
  have hcovers (hf : (s.refused || f.refused) = false) :=
    hb.covers h.sound (h.flushable hrefused) ((or_eq_false_iff.mp hf).2)
  unfold recordFlush
  split
  swap
  · exact ⟨hflushes.sound, fun hf => (hcovers hf).1, hold⟩
  rename_i hok
  -- a flush that has succeeded was not refused
  have haccepted := hb.accepted hok
  refine ⟨hflushes.sound, fun hf => (hcovers hf).1, fun n hn => ?_⟩
  rcases mem_cons.mp hn with rfl | hn
  swap
  · exact hold n hn
  obtain ⟨_, hlog⟩ := hflushes.grows.log
  refine ⟨?_, fun p hp hdata => ?_⟩
  · show _ ≤ f.session.log.length
    rw [hlog, length_append]
    omega
  have hown := (hflushes.grows.ownDataAt hp).mp hdata
  exact (hb.covers h.sound (h.flushable hrefused) haccepted).2 hok p hown

theorem State.Flushing.next (h : s.Flushing) (ha : Orderly s a)
    (hnext : next s a = some s') : s'.Flushing := by
  cases a with
  | pollWrite buf =>
    obtain ⟨-, ⟨⟩⟩ := ite_none_left_eq_some.mp hnext
    exact h.wrote (pollWrite_wrote buf) ha
  | pollFlush =>
    obtain ⟨-, ⟨⟩⟩ := ite_none_left_eq_some.mp hnext
    exact h.flushed pollBarrier_barriered ha
  | pollShutdown m =>
    obtain ⟨-, ⟨⟩⟩ := ite_none_left_eq_some.mp hnext
    have hshut := pollShutdown_shutDown (v := s.stream) (m := m) (s := s.session)
    obtain ⟨hsound, hgrows⟩ := hshut.grows h.sound
    refine ⟨hsound, fun hrefused => ?_, fun n hn => (h.covered n hn).grows hgrows⟩
    obtain ⟨hold, hnew⟩ := or_eq_false_iff.mp hrefused
    exact (h.flushable hold).shutDown h.sound hshut hnew
  | evict =>
    cases hnext
    exact h
  | drop =>
    obtain ⟨-, ⟨⟩⟩ := ite_none_left_eq_some.mp hnext
    unfold dropStream
    split
    · exact { h with }
    split
    · exact ⟨⟨h.sound.flushed, h.sound.answered⟩, h.flushable, h.covered⟩
    split
    · exact ⟨h.sound.enqueue true _, fun hrefused => (h.flushable hrefused).enqueue rfl,
        fun n hn => (h.covered n hn).grows (s.session.grows_enqueue true _)⟩
    · exact { h with }
  | writer step =>
    cases hnext
    obtain ⟨hstep, hadvances⟩ := h.sound.step step
    exact ⟨hstep, fun hrefused => (h.flushable hrefused).advances hadvances,
      fun n hn => (h.covered n hn).grows hadvances.grows⟩
  | forward =>
    obtain ⟨-, ⟨⟩⟩ := ite_none_left_eq_some.mp hnext
    exact ⟨⟨h.sound.flushed, h.sound.answered⟩, fun hrefused =>
      (h.flushable hrefused).enqueue (c := .finished s.stream.streamId) rfl,
      fun n hn => (h.covered n hn).grows ⟨⟨_, rfl⟩, le_rfl⟩⟩
  | other command =>
    cases hnext
    exact ⟨h.sound.enqueue false command, fun hrefused => (h.flushable hrefused).enqueue rfl,
      fun n hn => (h.covered n hn).grows (s.session.grows_enqueue false _)⟩

end

/-- **A flush that succeeds covers what was written before it.** In every run in which nothing is
written while a barrier is waited for, and nothing is flushed after the session writer has refused
a barrier, all that was queued when a flush was called that succeeds has been written and
flushed. -/
theorem flush_covers_writes (streamId : UInt32) (maxFramePayload : Nat) (smuxV2 : Bool)
    (actions : List Action) (s : State)
    (horderly : Lib.Machine.Throughout next Orderly (.new streamId maxFramePayload smuxV2) actions)
    (hrun : run next (.new streamId maxFramePayload smuxV2) actions = some s) :
    ∀ n ∈ s.covered, ∀ p < n, s.session.OwnDataAt p → p < s.session.flushed := by
  have hinv : s.Flushing := by
    refine run_invariant (fun s a s' ha hi hnext => hi.next ha hnext) actions _ s
      horderly ⟨.new, fun _ p hp => ?_, nofun⟩ hrun
    obtain ⟨q, hq, -⟩ := hp
    cases hq
  intro n hn
  exact (hinv.covered n hn).2

/-- A write, a flush that has to wait, and a flush that finds the barrier answered. -/
def writeThenFlush : List Action :=
  [.pollWrite [1] roomy, .pollFlush roomy, .writer .take, .writer .take, .pollFlush roomy]

theorem flush_covers_writes_run : ∃ s, run next (.new 3 100 false) writeThenFlush = some s ∧
      s.covered = [2] ∧ s.session.OwnDataAt 0 ∧
      ∀ n ∈ s.covered, ∀ p < n, s.session.OwnDataAt p → p < s.session.flushed :=
  ⟨_, rfl, rfl, ⟨_, rfl, rfl⟩,
    flush_covers_writes 3 100 false writeThenFlush _ (by decide +kernel) rfl⟩

/-- More data is written while a barrier is waited for. -/
def writeBehindBarrier : List Action :=
  [.pollWrite [1] roomy, .pollFlush roomy, .pollWrite [2] roomy, .writer .take, .writer .take,
    .pollFlush roomy, .pollFlush roomy]

/-- **Data behind a barrier is lost sight of.** The answer to the barrier clears the mark that the
later write has set: the flush that meets it, and every flush after that, succeeds while the writer
has not even taken the data. -/
theorem data_behind_barrier_unflushed :
    ∃ s, run next (.new 3 100 false) writeBehindBarrier = some s ∧
      s.covered = [3, 3] ∧ s.session.OwnDataAt 2 ∧ s.session.taken = 2 ∧ s.session.flushed = 2 ∧
      s.stream.writeDirty = false :=
  ⟨_, rfl, rfl, ⟨_, rfl, rfl⟩, rfl, rfl, rfl⟩

end Shoes.Transport.WriteHalf
