import Shoes.Transport.Smux
import Shoes.Transport.VirtualStream
import Shoes.Lib.Machine

/-! # The smux session writer

One task writes all frames of a session. It collects whatever waits in its two queues into a batch
and writes the batch at once. Whatever the batches are, the peer reads the frames that were
queued. -/
namespace Shoes.Transport.SmuxWriter
open Lib.Bytes Lib.Io Lib.AsyncRead Smux List Lib.Machine
open VirtualStream

def writeBatchBytes : Nat := 64 * 1024

/-- The bytes of a batch, and whether a barrier has ended it. -/
structure FrameBatch where
  bytes : List UInt8
  barrier : Bool
  deriving DecidableEq

namespace FrameBatch

def default : FrameBatch := ⟨[], false⟩

section
variable (b : FrameBatch)

def acceptsMore : Bool := !b.barrier && b.bytes.length < writeBatchBytes

def pushControl (version command : UInt8) (streamId : UInt32)
    (payload : List UInt8) : Except IoError FrameBatch := do
  let length ← frameLength payload.length
  pure { b with bytes := b.bytes ++ frameHeader version command streamId length ++ payload }

def pushData (version : UInt8) (streamId : UInt32) (frame : OutboundFrame) :
    Except IoError FrameBatch := do
  let length ← frameLength frame.payload.length
  let frame := frame.intoFrame (frameHeader version cmdPsh streamId length)
  pure { b with bytes := if b.bytes.isEmpty then frame else b.bytes ++ frame }

def pushUpdate (version : UInt8) (update : WindowUpdate) : Except IoError FrameBatch :=
  b.pushControl version cmdUpd update.streamId
    (u32ToLeBytes update.consumed ++ u32ToLeBytes update.window)

def pushCommand (version : UInt8) : OutboundCommand → Except IoError FrameBatch
  | .data streamId frame => b.pushData version streamId frame
  | .finished streamId => b.pushControl version cmdFin streamId []
  | .barrier => .ok { b with barrier := true }

end

end FrameBatch

/-- What the session writer takes up: a window update, a command, or a tick of its clock. -/
inductive Push
  | update (u : WindowUpdate)
  | command (c : OutboundCommand)
  | ping
  deriving DecidableEq

def FrameBatch.push (b : FrameBatch) (version : UInt8) : Push → Except IoError FrameBatch
  | .update u => b.pushUpdate version u
  | .command c => b.pushCommand version c
  | .ping => b.pushControl version cmdNop 0 []

/-- The session writer: its two queues, its batch, and whether it is draining the queues into the
batch. `wire` is what it has written. `written` and `batched` only record what it took up. -/
structure Writer where
  updates : List WindowUpdate
  commands : List OutboundCommand
  batch : FrameBatch
  draining : Bool
  wire : List UInt8
  written : List Push
  batched : List Push
  deriving DecidableEq

inductive Arm
  | update
  | command
  | ping
  | idle
  deriving DecidableEq

/-- Something is queued; the writer wakes up in an arm of its `select!`; or it goes once round the
loop that drains the queues. -/
inductive Event
  | arriveUpdate (u : WindowUpdate)
  | arriveCommand (c : OutboundCommand)
  | select (arm : Arm)
  | drain
  deriving DecidableEq

namespace Writer

def new : Writer := ⟨[], [], .default, false, [], [], []⟩

section
variable (version : UInt8) (w : Writer)

/-- A push that fails ends the writer, with its batch unwritten. -/
def push (p : Push) : Option Writer :=
  match w.batch.push version p with
  | .error _ => none
  | .ok batch => some { w with batch, draining := true, batched := w.batched ++ [p] }

def writeTo (w : Writer) : Writer :=
  { w with
    batch := .default
    draining := false
    wire := w.wire ++ w.batch.bytes
    written := w.written ++ w.batched
    batched := [] }

def select : Arm → Option Writer
  | .update =>
    match w.updates with
    | [] => none
    | u :: us => push version { w with updates := us } (.update u)
  | .command =>
    match w.commands with
    | [] => none
    | c :: cs => push version { w with commands := cs } (.command c)
  | .ping => push version w .ping
  | .idle => some { w with draining := true }

def drain : Option Writer :=
  if w.batch.acceptsMore then
    match w.updates, w.commands with
    | u :: us, _ => push version { w with updates := us } (.update u)
    | [], c :: cs => push version { w with commands := cs } (.command c)
    | [], [] => some w.writeTo
  else some w.writeTo

def next : Event → Option Writer
  | .arriveUpdate u => some { w with updates := w.updates ++ [u] }
  | .arriveCommand c => some { w with commands := w.commands ++ [c] }
  | .select arm => if w.draining then none else w.select version arm
  | .drain => if w.draining then w.drain version else none

end

end Writer

def Push.frame : Push → Option Frame
  | .update u => some ⟨cmdUpd, u.streamId, u32ToLeBytes u.consumed ++ u32ToLeBytes u.window⟩
  | .command (.data streamId f) => some ⟨cmdPsh, streamId, f.payload⟩
  | .command (.finished streamId) => some ⟨cmdFin, streamId, []⟩
  | .command .barrier => none
  | .ping => some ⟨cmdNop, 0, []⟩

def Push.updateOf : Push → Option WindowUpdate
  | .update u => some u
  | _ => none

def Push.commandOf : Push → Option OutboundCommand
  | .command c => some c
  | _ => none

/-- The frames of what was taken up. -/
def framesOf (pushes : List Push) : List Frame := pushes.filterMap Push.frame

variable {version : UInt8}

theorem pushControl_ok {b b' : FrameBatch} {payload : List UInt8}
    (h : b.pushControl version command streamId payload = .ok b') : payload.length < 65536 ∧
      b'.bytes = b.bytes ++ Frame.encode version ⟨command, streamId, payload⟩ := by
  obtain ⟨_, hlen, h⟩ := exists_of_bind_ok h
  cases h
  obtain ⟨hlt, rfl⟩ := frameLength_ok hlen
  exact ⟨hlt, append_assoc _ _ _⟩

theorem pushData_ok {b b' : FrameBatch} {frame : OutboundFrame}
    (h : b.pushData version streamId frame = .ok b') : frame.payload.length < 65536 ∧
      b'.bytes = b.bytes ++ Frame.encode version ⟨cmdPsh, streamId, frame.payload⟩ := by
  obtain ⟨_, hlen, h⟩ := exists_of_bind_ok h
  cases h
  obtain ⟨hlt, rfl⟩ := frameLength_ok hlen
  refine ⟨hlt, ?_⟩
  rw [OutboundFrame.intoFrame_eq frame (frameHeader_length _ _ _ _)]
  split
  next hempty =>
    rw [isEmpty_iff.mp hempty]
    rfl
  · rfl

theorem push_ok {b b' : FrameBatch} (h : b.push version p = .ok b') :
    b'.bytes = b.bytes ++ encodeAll version (framesOf [p]) ∧
      ∀ f ∈ framesOf [p], f.payload.length < 65536 := by
  have single (f : Frame) (hf : p.frame = some f) (hok : f.payload.length < 65536 ∧
      b'.bytes = b.bytes ++ Frame.encode version f) :
      b'.bytes = b.bytes ++ encodeAll version (framesOf [p]) ∧
        ∀ f ∈ framesOf [p], f.payload.length < 65536 := by
    have hframes : framesOf [p] = [f] := by simp [framesOf, hf]
    simpa [hframes, encodeAll] using hok.symm
  cases p with
  | update | ping => exact single _ rfl (pushControl_ok h)
  | command c =>
    cases c with
    | data => exact single _ rfl (pushData_ok h)
    | finished => exact single _ rfl (pushControl_ok h)
    | barrier =>
      cases h
      simp [framesOf, Push.frame, encodeAll]

/-! ## A run of the session writer -/

/-- What an event brings into a queue. -/
def Event.arrival : Event → Option Push
  | .arriveUpdate u => some (.update u)
  | .arriveCommand c => some (.command c)
  | _ => none

/-- What a step of the writer can do. -/
inductive Stepped (version : UInt8) (w : Writer) : Event → Writer → Prop
  | arriveUpdate (u : WindowUpdate) :
      Stepped version w (.arriveUpdate u) { w with updates := w.updates ++ [u] }
  | arriveCommand (c : OutboundCommand) :
      Stepped version w (.arriveCommand c) { w with commands := w.commands ++ [c] }
  | idle {e : Event} (own : e.arrival = none) : Stepped version w e { w with draining := true }
  | takeUpdate {e : Event} {u : WindowUpdate} {us : List WindowUpdate} {w' : Writer}
      (own : e.arrival = none) (queue : w.updates = u :: us)
      (push : Writer.push version { w with updates := us } (.update u) = some w') :
      Stepped version w e w'
  | takeCommand {e : Event} {c : OutboundCommand} {cs : List OutboundCommand} {w' : Writer}
      (own : e.arrival = none) (queue : w.commands = c :: cs)
      (push : Writer.push version { w with commands := cs } (.command c) = some w') :
      Stepped version w e w'
  | ping {e : Event} {w' : Writer} (own : e.arrival = none)
      (push : Writer.push version w .ping = some w') : Stepped version w e w'
  | write {e : Event} (own : e.arrival = none) : Stepped version w e w.writeTo

variable {w w' : Writer}

theorem select_stepped (h : w.select version arm = some w') : Stepped version w (.select arm) w' :=
    by
  unfold Writer.select at h
  split at h
  · split at h
    · cases h
    next hq => exact .takeUpdate rfl hq h
  · split at h
    · cases h
    next hq => exact .takeCommand rfl hq h
  · exact .ping rfl h
  cases h
  exact .idle rfl

theorem drain_stepped (h : w.drain version = some w') : Stepped version w .drain w' := by
  unfold Writer.drain at h
  split at h
  · split at h
    next hq => exact .takeUpdate rfl hq h
    next hq => exact .takeCommand rfl hq h
    · cases h
      exact .write rfl
  cases h
  exact .write rfl

theorem next_stepped (h : w.next version e = some w') : Stepped version w e w' := by
  cases e with
  | arriveUpdate u => cases h; exact .arriveUpdate u
  | arriveCommand c => cases h; exact .arriveCommand c
  | select =>
    unfold Writer.next at h
    dsimp only at h
    split at h
    · cases h
    · exact select_stepped h
  | drain =>
    unfold Writer.next at h
    dsimp only at h
    split at h
    · exact drain_stepped h
    · cases h

/-- The bytes written and those of the batch are the frames of what was taken up. -/
structure Writer.Sound (version : UInt8) (w : Writer) : Prop where
  wire : w.wire = encodeAll version (framesOf w.written)
  batch : w.batch.bytes = encodeAll version (framesOf w.batched)
  short : ∀ f ∈ framesOf (w.written ++ w.batched), f.payload.length < 65536

theorem framesOf_append (ps qs) : framesOf (ps ++ qs) = framesOf ps ++ framesOf qs :=
  filterMap_append

theorem Writer.push_eq (h : w.push version p = some w') :
    ∃ batch, w.batch.push version p = .ok batch ∧
      w' = { w with batch, draining := true, batched := w.batched ++ [p] } := by
  unfold Writer.push at h
  split at h <;> cases h
  rename_i batch hb
  exact ⟨batch, hb, rfl⟩

section
variable (hs : w.Sound version)
include hs

theorem Writer.Sound.push
    (h : w.push version p = some w') : w'.Sound version := by
  obtain ⟨_, hb, rfl⟩ := Writer.push_eq h
  obtain ⟨hbytes, hshort⟩ := push_ok hb
  refine ⟨hs.wire, ?_, ?_⟩
  · rw [hbytes, hs.batch, framesOf_append, encodeAll_append]
  intro f hf
  rw [← append_assoc, framesOf_append] at hf
  rcases mem_append.mp hf with hf | hf
  · exact hs.short f hf
  · exact hshort f hf

theorem Writer.Sound.writeTo : w.writeTo.Sound version := by
  refine ⟨?_, rfl, ?_⟩
  · change w.wire ++ w.batch.bytes = _
    rw [hs.wire, hs.batch, ← encodeAll_append, ← framesOf_append]
    rfl
  change ∀ f ∈ framesOf (w.written ++ w.batched ++ []), _
  rw [append_nil]
  exact hs.short

theorem Writer.Sound.next
    (h : w.next version e = some w') : w'.Sound version := by
  cases next_stepped h with
  | arriveUpdate | arriveCommand | idle => exact { hs with }
  | @takeUpdate _ u us _ own queue hp =>
    have hq : ({ w with updates := us } : Writer).Sound version := { hs with }
    exact hq.push hp
  | @takeCommand _ c cs _ own queue hp =>
    have hq : ({ w with commands := cs } : Writer).Sound version := { hs with }
    exact hq.push hp
  | ping own hp => exact hs.push hp
  | write => exact hs.writeTo

end

theorem run_sound (h : run (Writer.next version) .new events = some w) : w.Sound version := by
  have hnew : Writer.new.Sound version := ⟨rfl, rfl, by intro f hf; cases hf⟩
  have hstep (w : Writer) (e : Event) (w' : Writer) (_ : True) (hs : w.Sound version)
      (hnext : w.next version e = some w') : w'.Sound version := hs.next hnext
  exact run_invariant hstep events _ _ (throughout_true _ _) hnew h

/-- All that has come into the queues: what was taken up, and what still waits. -/
def Writer.updatesSeen (w : Writer) : List WindowUpdate :=
  (w.written ++ w.batched).filterMap Push.updateOf ++ w.updates

def Writer.commandsSeen (w : Writer) : List OutboundCommand :=
  (w.written ++ w.batched).filterMap Push.commandOf ++ w.commands

theorem next_seen (h : w.next version e = some w') :
    w'.updatesSeen = w.updatesSeen ++ (e.arrival.bind Push.updateOf).toList ∧
      w'.commandsSeen = w.commandsSeen ++ (e.arrival.bind Push.commandOf).toList := by
  cases next_stepped h with
  | arriveUpdate | arriveCommand =>
    simp [Writer.updatesSeen, Writer.commandsSeen, Event.arrival, Push.updateOf, Push.commandOf]
  | idle own => simp [Writer.updatesSeen, Writer.commandsSeen, own]
  | takeUpdate own queue hp | takeCommand own queue hp =>
    obtain ⟨batch, -, rfl⟩ := Writer.push_eq hp
    simp [Writer.updatesSeen, Writer.commandsSeen, own, queue, Push.updateOf, Push.commandOf]
  | ping own hp =>
    obtain ⟨_, -, rfl⟩ := Writer.push_eq hp
    simp [Writer.updatesSeen, Writer.commandsSeen, own, Push.updateOf, Push.commandOf]
  | write own => simp [Writer.updatesSeen, Writer.commandsSeen, Writer.writeTo, own]

theorem run_seen (events w w') (h : run (Writer.next version) w events = some w') :
    w'.updatesSeen = w.updatesSeen ++ (events.filterMap Event.arrival).filterMap Push.updateOf ∧
      w'.commandsSeen =
        w.commandsSeen ++ (events.filterMap Event.arrival).filterMap Push.commandOf := by
  induction events generalizing w with
  | nil => cases h; simp
  | cons e es ih =>
    unfold run at h
    split at h
    · cases h
    rename_i w₁ hnext
    obtain ⟨hu, hc⟩ := next_seen hnext
    obtain ⟨hu', hc'⟩ := ih w₁ h
    rw [hu', hc', hu, hc]
    cases e <;> simp [Event.arrival, filterMap_cons, Push.updateOf, Push.commandOf]

theorem mem_filterMap_updateOf {ps : List Push} :
    u ∈ ps.filterMap Push.updateOf ↔ Push.update u ∈ ps := by
  rw [mem_filterMap]
  constructor
  · rintro ⟨p, hp, hu⟩
    cases p with
    | update => cases hu; exact hp
    | command | ping => cases hu
  intro h
  exact ⟨_, h, rfl⟩

theorem mem_filterMap_commandOf {ps : List Push} :
    c ∈ ps.filterMap Push.commandOf ↔ Push.command c ∈ ps := by
  rw [mem_filterMap]
  constructor
  · rintro ⟨p, hp, hc⟩
    cases p with
    | update | ping => cases hc
    | command => cases hc; exact hp
  intro h
  exact ⟨_, h, rfl⟩

theorem run_written (h : run (Writer.next version) .new events = some w) (hp : p ∈ w.written) : p =
    .ping ∨ p ∈ events.filterMap Event.arrival := by
  obtain ⟨hu, hc⟩ := run_seen events _ _ h
  cases p with
  | ping => exact .inl rfl
  | update u =>
    have hseen : u ∈ w.updatesSeen := by
      rw [Writer.updatesSeen, mem_append, mem_filterMap_updateOf]
      exact .inl (mem_append_left _ hp)
    rw [hu] at hseen
    exact .inr (mem_filterMap_updateOf.mp hseen)
  | command c =>
    have hseen : c ∈ w.commandsSeen := by
      rw [Writer.commandsSeen, mem_append, mem_filterMap_commandOf]
      exact .inl (mem_append_left _ hp)
    rw [hc] at hseen
    exact .inr (mem_filterMap_commandOf.mp hseen)

/-! ## The two ends of a session -/

theorem ping_wellFormed (version maxPayload) :
    Frame.WellFormed version maxPayload ⟨cmdNop, 0, []⟩ where
  known := by simp [knownCommand]
  limit := Nat.zero_le _
  control := fun _ => rfl
  update := fun h => absurd h (by decide)
  stream := ⟨fun _ => rfl, fun _ => rfl⟩

/-- **Cancellation-safe smux framing.** Wherever the stream is cut and the read is dropped, the
frames and the error after them are those of one uninterrupted read; and the frames that
`write_frame` writes, or the session writer in its batches, are read back as they were. The session
writer takes up each of its queues in order. -/
theorem smux_frames_survive_cancellation (cfg : Session) (script : List Item) (close : Close) :
    readFrames cfg script close = readFrames cfg (whole (scriptBytes script)) close ∧
    (∀ (frames : List Frame) (pieces : List (List UInt8)),
      (∀ f ∈ frames, f.WellFormed cfg.version cfg.maxPayload) →
      frames.mapM (fun f => writeFrame cfg.version f.command f.streamId f.payload) = .ok pieces →
      scriptBytes script = pieces.flatten → readFrames cfg script close = (frames, close.result)) ∧
    (∀ (events : List Event) (w : Writer),
      run (Writer.next cfg.version) .new events = some w →
      (∀ f ∈ framesOf (events.filterMap Event.arrival), f.WellFormed cfg.version cfg.maxPayload) →
      scriptBytes script = w.wire →
      readFrames cfg script close = (framesOf w.written, close.result) ∧
      (w.written ++ w.batched).filterMap Push.updateOf ++ w.updates =
        (events.filterMap Event.arrival).filterMap Push.updateOf ∧
      (w.written ++ w.batched).filterMap Push.commandOf ++ w.commands =
        (events.filterMap Event.arrival).filterMap Push.commandOf) := by
  have hwhole : readFrames cfg script close = session cfg close .default (scriptBytes script) := by
    have hok : Point.Ok ((FrameReader.read cfg).start .default) := by
      rw [default_fresh.start]
      exact default_fresh.ok
    exact (read_steady cfg).outcome_whole hok script
  refine ⟨hwhole, ?_, ?_⟩
  · intro frames pieces hwf hwrite hbytes
    obtain ⟨hlen, hpieces⟩ := writeFrames_ok hwrite
    rw [hwhole, hbytes, hpieces]
    exact session_frames frames hwf hlen _ default_fresh
  intro events w hrun hwf hbytes
  obtain ⟨hwire, -, hshort⟩ := run_sound hrun
  obtain ⟨hu, hc⟩ := run_seen events _ _ hrun
  refine ⟨?_, hu, hc⟩
  rw [hwhole, hbytes, hwire]
  refine session_frames _ ?_ ?_ _ default_fresh
  · intro f hf
    obtain ⟨p, hp, hframe⟩ := mem_filterMap.mp hf
    rcases run_written hrun hp with rfl | harrived
    · cases hframe
      exact ping_wellFormed cfg.version cfg.maxPayload
    · exact hwf f (mem_filterMap.mpr ⟨p, harrived, hframe⟩)
  intro f hf
  refine hshort f ?_
  rw [framesOf_append]
  exact mem_append_left _ hf

/-- A version 2 session on zeroed memory. -/
def zeroedSession : Session := ⟨2, 100, fun n => List.replicate n 0, fun _ => List.length_replicate⟩

/-- A window update and a payload, cut inside the header and inside the payload, with both reads
dropped there. -/
theorem smux_frames_survive_cancellation_cut : ∃ w, run (Writer.next 2) .new
        [.arriveCommand (.data 7 (.copyFrom [10, 20, 30])), .arriveUpdate ⟨7, 1, 2⟩,
          .select .update, .drain, .drain] = some w ∧
      readFrames zeroedSession
        [.bytes 2 [4, 8], .pending true,
          .bytes 0 [7, 0, 0, 0, 1, 0, 0, 0, 2, 0, 0, 0, 2, 2, 3, 0, 7], .pending true,
          .bytes 0 [0, 0, 10], .pending true, .bytes 20 [30]] .eof =
        (framesOf w.written, .ok ()) := by
  refine ⟨_, rfl, ?_⟩
  refine ((smux_frames_survive_cancellation zeroedSession _ .eof).2.2
    [.arriveCommand (.data 7 (.copyFrom [10, 20, 30])), .arriveUpdate ⟨7, 1, 2⟩,
      .select .update, .drain, .drain] _ rfl ?_ (by decide)).1
  intro f hf
  rcases mem_cons.mp hf with rfl | hf
  · exact ⟨by decide, by decide, by decide, by decide, by decide⟩
  obtain rfl := mem_singleton.mp hf
  exact ⟨by decide, by decide, by decide, by decide, by decide⟩

end Shoes.Transport.SmuxWriter
