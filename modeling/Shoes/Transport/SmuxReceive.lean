import Shoes.Transport.BudgetBooks
import Shoes.Lib.Assoc
import Shoes.Lib.Io

/-! # The receiving side of a smux session

The payload of each frame goes into the queue of its logical stream, which a reader empties. What is
not read yet is charged to the budgets of the stream, the session and the listener; without room the
session reads no further frame. What waits too long evicts a stream, of which the session hears
through a queue of notices. A logical stream is known by the number of its budget: its id is chosen
by the peer and used again. -/
namespace Shoes.Transport.SmuxReceive
open Lib.Io Lib.Assoc ReceiveBudget BudgetBooks List

/-! ## State -/

/-- What does not change while the session runs. -/
structure Setup where
  tree : Tree
  session : Nat
  version : Nat
  maxConcurrentStreams : Nat
  stalledStreamGrace : Nat

/-- `InboundData` with what has not been read of it. It is `queued` once it is in the queue of its
stream. -/
structure Data where
  permit : Permit
  bytes : List UInt8
  queued : Bool
  deriving DecidableEq

inductive InboundTerminal
  | finished
  | failed (e : IoError)
  deriving DecidableEq

/-- The reading side of a `VirtualStream`, and what came through its terminal channel. `looked` says
that a poll has found the queue empty and has not looked at the terminal yet. -/
structure Reader where
  opened : Bool
  readFinished : Bool
  looked : Bool
  terminal : Option InboundTerminal
  delivered : List UInt8
  result : Option (Except IoError Unit)

def Reader.unborn : Reader := ⟨false, false, false, none, [], none⟩

structure StreamState where
  budget : Nat
  inbound : Bool
  deriving DecidableEq

/-- Where the session is: in front of its next frame, or in `deliver_payload`. There it tries to
charge a payload, once and again; it waits for a refund; or it has charged the payload and waits
for room in the queue of frames. -/
inductive Phase
  | idle
  | delivering (streamId : UInt32) (payload : List UInt8)
  | refused (streamId : UInt32) (budget : Nat) (payload : List UInt8) (blocked : Nat)
      (scope : Scope)
  | parked (streamId : UInt32) (budget : Nat) (payload : List UInt8) (blocked : Nat) (scope : Scope)
  | charged (streamId : UInt32)
  | full (streamId : UInt32)
  | ended
  deriving DecidableEq

/-- `others` are permits of the listener's other sessions. `heard` counts the notices that the
session has taken, `opened` has its streams, `sent` the payload that came for each stream in the
table, and `terminated` what each notice has ended. -/
structure State where
  levels : Levels
  data : List Data
  others : List Permit
  streams : Map UInt32 StreamState
  reader : Nat → Reader
  phase : Phase
  heard : Nat
  opened : List Nat
  sent : Nat → List UInt8
  terminated : List (Nat × Nat)

def State.new : State :=
  ⟨.new, [], [], .empty, fun _ => .unborn, .idle, 0, [], fun _ => [], []⟩

def State.permits (s : State) : List Permit := s.data.map Data.permit ++ s.others

/-! ## Data -/

section
variable (T : Tree)

/-- Data that goes gives back what its permit has left. -/
def dropData (gone : Data → Bool) : Levels → List Data → Levels × List Data
  | l, [] => (l, [])
  | l, d :: ds =>
    if gone d then
      dropData gone (refundPermit T l d.permit.budget d.permit.remaining d.permit.generation) ds
    else
      let (l, ds) := dropData gone l ds
      (l, d :: ds)

/-- `release` of as many bytes as have been copied. -/
def Data.release (d : Data) (count : Nat) : Data :=
  { d with
    permit := { d.permit with remaining := d.permit.remaining - count }
    bytes := d.bytes.drop count }

/-- The first `count` bytes of the first data of a stream in its queue are read. -/
def readData (budget count : Nat) : Levels → List Data → Option (List UInt8 × Levels × List Data)
  | _, [] => none
  | l, d :: ds =>
    if d.queued && d.permit.budget == budget then
      let n := min count d.bytes.length
      let l := refundPermit T l budget n d.permit.generation
      let d' := d.release n
      if d'.bytes.isEmpty then
        some (d.bytes.take n, refundPermit T l budget d'.permit.remaining d'.permit.generation, ds)
      else some (d.bytes.take n, l, d' :: ds)
    else
      match readData budget count l ds with
      | none => none
      | some (read, l, ds) => some (read, l, d :: ds)

end

def hasQueued (data : List Data) (budget : Nat) : Bool :=
  data.any fun d => d.queued && d.permit.budget == budget

/-! ## Ends of streams -/

inductive BackpressureCause
  | bytes (scope : Scope)
  | frameQueue

def BackpressureCause.display : BackpressureCause → String
  | .bytes .stream => "stream receive budget exhausted"
  | .bytes scope => s!"{scope.display} receive budget exhausted, this stream held the most"
  | .frameQueue => "logical inbound frame queue is full"

def stalledError (cfg : Setup) (cause : BackpressureCause) : IoError :=
  ⟨.outOfMemory, s!"smux v{cfg.version} {cause.display} and nothing drained for " ++
    s!"{cfg.stalledStreamGrace}s"⟩

namespace State

def setReader (s : State) (b : Nat) (f : Reader → Reader) : State :=
  { s with reader := Function.update s.reader b (f (s.reader b)) }

def sendTerminal (s : State) (b : Nat) (t : InboundTerminal) : State :=
  s.setReader b fun r => { r with terminal := some t }

def evictStream (cfg : Setup) (s : State) (streamId : UInt32) (cause : BackpressureCause) : State :=
  match s.streams.get streamId with
  | none => s
  | some e =>
    ({ s with streams := s.streams.remove streamId }).sendTerminal e.budget
      (.failed (stalledError cfg cause))

def notices (cfg : Setup) (s : State) : List (Nat × Scope) :=
  s.levels.notices.filter fun n => cfg.tree.parent n.1 == some cfg.session

/-- A notice is taken from the queue. It has only the id of the stream. -/
def hear (cfg : Setup) (s : State) : Option State :=
  match (s.notices cfg)[s.heard]? with
  | none => none
  | some (b, scope) =>
    match cfg.tree.eviction b with
    | none => none
    | some streamId =>
      let s := { s with
        heard := s.heard + 1
        terminated := match s.streams.get streamId with
          | none => s.terminated
          | some e => (b, e.budget) :: s.terminated }
      some (s.evictStream cfg streamId (.bytes scope))

/-- Every stream in the table hears that the session has ended. -/
def endSession (s : State) (e : IoError) : State :=
  let s' := s.streams.entries.foldl (fun s entry => s.sendTerminal entry.2.budget (.failed e)) s
  { s' with streams := .empty, phase := .ended }

/-! ## Frames -/

/-- Opens stream `b`, unless the id is in use or there are too many. -/
def syn (cfg : Setup) (s : State) (streamId : UInt32) (b : Nat) : State :=
  let streams := s.streams.retain fun _ e => e.inbound && (s.reader e.budget).opened
  let s := { s with streams }
  if streams.contains streamId then
    s.endSession ⟨.invalidData, "smux v1 SYN reused an active stream ID"⟩
  else if cfg.maxConcurrentStreams ≤ streams.size then
    s.endSession ⟨.invalidData, s!"smux v{cfg.version} concurrent stream limit exceeded"⟩
  else
    ({ s with
      streams := streams.insert streamId ⟨b, true⟩
      opened := b :: s.opened }).setReader b fun _ => ⟨true, false, false, none, [], none⟩

def psh (s : State) (streamId : UInt32) (payload : List UInt8) : State :=
  if payload.isEmpty then s
  else
    { s with
      phase := .delivering streamId payload
      sent := match s.streams.get streamId with
        | none => s.sent
        | some e => Function.update s.sent e.budget (s.sent e.budget ++ payload) }

def fin (s : State) (streamId : UInt32) : State :=
  match s.streams.get streamId with
  | none => s
  | some e => ({ s with streams := s.streams.remove streamId }).sendTerminal e.budget .finished

/-! ## `deliver_payload` -/

/-- A stream whose reader is gone takes no more. -/
def closeInbound (s : State) (streamId : UInt32) : State :=
  match s.streams.get streamId with
  | none => s
  | some e => { s with streams := s.streams.insert streamId { e with inbound := false } }

section
variable (cfg : Setup) (s : State)

/-- The payload that was charged and is in no queue is dropped. -/
def dropCharged : State :=
  let (levels, data) := dropData cfg.tree (fun d => !d.queued) s.levels s.data
  { s with levels, data, phase := .idle }

def keepCharged (s : State) (levels : Levels) (permit : Permit) (streamId : UInt32)
    (payload : List UInt8) : State :=
  { s with levels, data := s.data ++ [⟨permit, payload, false⟩], phase := .charged streamId }

/-- The stream of a payload, if its reader takes it. -/
def lookup (s : State) (streamId : UInt32) : Option StreamState × State :=
  match s.streams.get streamId with
  | none => (none, s)
  | some e =>
    if !e.inbound then (none, s)
    else if (s.reader e.budget).opened then (some e, s)
    else (none, s.closeInbound streamId)

/-- The first attempt to charge a payload. -/
def deliver (streamId : UInt32) (payload : List UInt8) : State :=
  match s.lookup streamId with
  | (none, s) => { s with phase := .idle }
  | (some e, s) =>
    match tryTrack cfg.tree s.levels e.budget payload.length with
    | (.ok permit, l) => s.keepCharged l permit streamId payload
    | (.error refused, l) =>
      if refused.streamEvicted then { s with levels := l, phase := .idle }
      else { s with
        levels := l
        phase := .refused streamId e.budget payload refused.blocked refused.scope }

/-- The second, made when a refund can no longer be missed. -/
def deliverAgain (streamId : UInt32) (budget : Nat) (payload : List UInt8)
    (blocked : Nat) (scope : Scope) : State :=
  match tryTrack cfg.tree s.levels budget payload.length with
  | (.ok permit, l) => s.keepCharged l permit streamId payload
  | (.error again, l) =>
    if again.streamEvicted then { s with levels := l, phase := .idle }
    else if again.blocked ≠ blocked then
      { s with levels := l, phase := .delivering streamId payload }
    else { s with levels := l, phase := .parked streamId budget payload blocked scope }

def queueCharged (s : State) : State :=
  { s with data := s.data.map fun d => { d with queued := true }, phase := .idle }

def reserve (streamId : UInt32) (room : Bool) : State :=
  match s.lookup streamId with
  | (none, s) => s.dropCharged cfg
  | (some _, s) => if room then s.queueCharged else { s with phase := .full streamId }

end

end State

/-! ## Steps -/

/-- The session takes a frame or a notice, or goes on with its payload; a wait ends with a refund,
the end of the reader or a timeout; a reader reads, looks whether there is anything to read and then
whether that is the end, or goes. Another session uses the listener's budgets, and a budget is
dropped that nothing holds. -/
inductive Action
  | syn (streamId : UInt32) (budget : Nat)
  | psh (streamId : UInt32) (payload : List UInt8)
  | fin (streamId : UInt32)
  | endSession (e : IoError)
  | notice
  | deliver
  | reserve (room : Bool)
  | wake
  | grace
  | read (budget count : Nat)
  | look (budget : Nat)
  | lookTerminal (budget : Nat)
  | closed (budget : Nat)
  | dropReader (budget : Nat)
  | elsewhere (a : BudgetBooks.Action)
  | dropBudget (budget : Nat)

/-- A stream that may be opened now. -/
def fresh (cfg : Setup) (s : State) (streamId : UInt32) (b : Nat) : Bool :=
  decide (b < cfg.tree.size) && cfg.tree.parent b == some cfg.session &&
    cfg.tree.eviction b == some streamId && !s.opened.contains b && !s.levels.dropped b

def Phase.charges : Phase → Nat → Bool
  | .refused _ budget _ _ _, b => budget == b
  | .parked _ budget _ _ _, b => budget == b
  | _, _ => false

/-- Something can still be put into the queue of the stream. -/
def hasSender (s : State) (b : Nat) : Bool :=
  s.streams.entries.any (fun e => e.2.budget == b && e.2.inbound) || s.phase.charges b

/-- A budget that is not of this session. -/
def isForeign (cfg : Setup) (b : Nat) : Bool :=
  b != cfg.session && cfg.tree.parent b != some cfg.session

/-- Another session charges its own streams, and handles its own permits. -/
def isElsewhere (cfg : Setup) (s : State) : BudgetBooks.Action → Bool
  | .tryTrack i _ => isForeign cfg i && cfg.tree.isStream i
  | .track _ _ => false
  | .evictStalled i _ _ _ => isForeign cfg i && cfg.tree.isStream i
  | .release k _ => decide (s.data.length ≤ k)
  | .dropPermit k => decide (s.data.length ≤ k)
  | .dropBudget i => isForeign cfg i

/-- The session holds the budget: in its table, or while it charges a payload. -/
def holdsBudget (s : State) (b : Nat) : Bool :=
  s.streams.entries.any (fun e => e.2.budget == b) || s.phase.charges b

/-- The reader of the stream is there. -/
def takes (s : State) (streamId : UInt32) : Bool :=
  (s.streams.get streamId).any fun e => (s.reader e.budget).opened

def isReading (r : Reader) : Bool := r.opened && !r.readFinished

def finishRead (r : Reader) (t : InboundTerminal) : Reader :=
  { r with
    readFinished := true
    looked := false
    result := some (match t with
      | .finished => .ok ()
      | .failed e => .error e) }

section
variable (cfg : Setup) (s : State)

/-- `poll_read` where there is something to read. -/
def pollData (b count : Nat) : Option State :=
  match readData cfg.tree b count s.levels s.data with
  | none => none
  | some (read, levels, data) =>
    some (({ s with levels, data }).setReader b fun r =>
      { r with delivered := r.delivered ++ read, looked := false })

def pollTerminal (b : Nat) : State :=
  s.setReader b fun r =>
    match r.terminal with
    | none => { r with looked := false }
    | some t => finishRead r t

/-- All senders of the queue are gone. -/
def pollClosed (b : Nat) : State :=
  s.setReader b fun r => finishRead r (r.terminal.getD .finished)

def dropReader (b : Nat) : State :=
  let (levels, data) :=
    dropData cfg.tree (fun d => d.queued && d.permit.budget == b) s.levels s.data
  ({ s with levels, data }).setReader b fun r => { r with opened := false, looked := false }

def onGrace : Option State :=
  match s.phase with
  | .parked streamId b payload blocked scope =>
    some { s with
      levels := (evictStalled cfg.tree s.levels b blocked scope payload.length).2
      phase := .delivering streamId payload }
  | .full streamId => some ((s.evictStream cfg streamId .frameQueue).dropCharged cfg)
  | _ => none

def onWake : Option State :=
  match s.phase with
  | .parked streamId _ payload _ _ => some { s with phase := .delivering streamId payload }
  | .full streamId =>
    if takes s streamId then none else some ((s.closeInbound streamId).dropCharged cfg)
  | _ => none

def onNotice : Option State :=
  match s.phase with
  | .idle => s.hear cfg
  | .parked streamId _ payload _ _ =>
    (s.hear cfg).map fun s => { s with phase := .delivering streamId payload }
  | .full streamId => (s.hear cfg).map fun s => { s with phase := .charged streamId }
  | _ => none

def onDeliver : Option State :=
  match s.phase with
  | .delivering streamId payload => some (s.deliver cfg streamId payload)
  | .refused streamId b payload blocked scope =>
    some (s.deliverAgain cfg streamId b payload blocked scope)
  | _ => none

def onReserve (room : Bool) : Option State :=
  match s.phase with
  | .charged streamId => some (s.reserve cfg streamId room)
  | .full streamId => if room && takes s streamId then some s.queueCharged else none
  | _ => none

def onElsewhere (a : BudgetBooks.Action) : Option State :=
  if isElsewhere cfg s a then
    (BudgetBooks.next cfg.tree ⟨s.levels, s.permits⟩ a).map fun b =>
      { s with levels := b.levels, others := b.permits.drop s.data.length }
  else none

def next : Action → Option State
  | .syn streamId b =>
    if s.phase = .idle ∧ fresh cfg s streamId b then some (s.syn cfg streamId b) else none
  | .psh streamId payload => if s.phase = .idle then some (s.psh streamId payload) else none
  | .fin streamId => if s.phase = .idle then some (s.fin streamId) else none
  | .endSession e => if s.phase = .idle then some (s.endSession e) else none
  | .notice => onNotice cfg s
  | .deliver => onDeliver cfg s
  | .reserve room => onReserve cfg s room
  | .wake => onWake cfg s
  | .grace => onGrace cfg s
  | .read b count =>
    if isReading (s.reader b) ∧ 0 < count then pollData cfg s b count else none
  | .look b =>
    if isReading (s.reader b) ∧ hasQueued s.data b = false then
      some (s.setReader b fun r => { r with looked := true })
    else none
  | .lookTerminal b =>
    if isReading (s.reader b) ∧ (s.reader b).looked then some (pollTerminal s b) else none
  | .closed b =>
    if isReading (s.reader b) ∧ hasQueued s.data b = false ∧ hasSender s b = false then
      some (pollClosed s b)
    else none
  | .dropReader b => if (s.reader b).opened then some (dropReader cfg s b) else none
  | .elsewhere a => onElsewhere cfg s a
  | .dropBudget b =>
    if usable cfg.tree ⟨s.levels, s.permits⟩ b ∧ unowned cfg.tree ⟨s.levels, s.permits⟩ b ∧
        holdsBudget s b = false ∧ b ≠ cfg.session then
      some { s with levels := dropBudget cfg.tree s.levels b }
    else none

end

/-! ## Data that goes and data that is read -/

section
variable {T : Tree}

theorem dropData_data (gone ds l) : (dropData T gone l ds).2 = ds.filter fun d => !gone d := by
  induction ds generalizing l with
  | nil => rfl
  | cons d ds ih =>
    rw [dropData]
    split_ifs with hgone
    · rw [ih, filter_cons_of_neg (by simp [hgone])]
    dsimp only
    rw [ih, filter_cons_of_pos (by simpa using hgone)]

/-- Whether the data is in the queue of the stream. -/
def Data.isQueuedFor (d : Data) (b : Nat) : Bool := d.queued && d.permit.budget == b

/-- A read takes bytes from the first data in the queue of the stream. -/
structure Read (T : Tree) (b count : Nat) (l : Levels) (ds : List Data) (read : List UInt8)
    (l' : Levels) (ds' : List Data) (pre : List Data) (d : Data) (post : List Data) : Prop where
  split : ds = pre ++ d :: post
  first : ∀ d' ∈ pre, d'.isQueuedFor b = false
  queued : d.isQueuedFor b = true
  bytes : read = d.bytes.take (min count d.bytes.length)
  rest :
    ((d.release (min count d.bytes.length)).bytes = [] ∧ ds' = pre ++ post ∧
      l' = refundPermit T (refundPermit T l b (min count d.bytes.length) d.permit.generation) b
        (d.release (min count d.bytes.length)).permit.remaining d.permit.generation) ∨
    ((d.release (min count d.bytes.length)).bytes ≠ [] ∧
      ds' = pre ++ d.release (min count d.bytes.length) :: post ∧
      l' = refundPermit T l b (min count d.bytes.length) d.permit.generation)

theorem readData_read {b count ds ds' l l' read}
    (h : readData T b count l ds = some (read, l', ds')) :
    ∃ pre d post, Read T b count l ds read l' ds' pre d post := by
  induction ds generalizing ds' with
  | nil => cases h
  | cons d ds ih =>
    rw [readData] at h
    split_ifs at h with hfirst
    · dsimp only at h
      split at h
      · rename_i hempty
        cases h
        exact ⟨[], d, ds, rfl, nofun, hfirst, rfl, .inl ⟨isEmpty_iff.mp hempty, rfl, rfl⟩⟩
      rename_i hempty
      cases h
      exact ⟨[], d, ds, rfl, nofun, hfirst, rfl,
        .inr ⟨fun hnil => hempty (isEmpty_iff.mpr hnil), rfl, rfl⟩⟩
    split at h
    · cases h
    rename_i read₁ l₁ ds₁ hrest
    cases h
    obtain ⟨pre, d₁, post, hread⟩ := ih hrest
    refine ⟨d :: pre, d₁, post, ?_, ?_, hread.queued, hread.bytes, ?_⟩
    · rw [hread.split, cons_append]
    · intro d' hd'
      rcases mem_cons.mp hd' with rfl | hd'
      · simpa [Data.isQueuedFor] using hfirst
      · exact hread.first d' hd'
    rcases hread.rest with ⟨hnil, hds, hl⟩ | ⟨hne, hds, hl⟩
    · exact .inl ⟨hnil, by rw [hds, cons_append], hl⟩
    · exact .inr ⟨hne, by rw [hds, cons_append], hl⟩

section
variable {b count : Nat} {l l' : Levels} {ds ds' pre post : List Data} {got : List UInt8} {d : Data}

section
variable (h : Read T b count l ds got l' ds' pre d post)
include h

theorem Read.budget : d.permit.budget = b := by
  have hqueued := h.queued
  unfold Data.isQueuedFor at hqueued
  simp only [Bool.and_eq_true, beq_iff_eq] at hqueued
  exact hqueued.2

theorem Read.isQueued : d.queued = true := by
  have hqueued := h.queued
  exact (Bool.and_eq_true_iff.mp hqueued).1

theorem Read.mem : d ∈ ds ∧ ∀ d' ∈ ds', d' ∈ ds ∨
      (d' = d.release (min count d.bytes.length) ∧ d'.bytes ≠ []) := by
  have hds := h.split
  refine ⟨by rw [hds]; exact mem_append_right _ (mem_cons_self ..), fun d' hd' => ?_⟩
  rcases h.rest with ⟨-, rfl, -⟩ | ⟨hne, rfl, -⟩
  · rcases mem_append.mp hd' with hd' | hd'
    · exact .inl (hds ▸ mem_append_left _ hd')
    · exact .inl (hds ▸ mem_append_right _ (mem_cons_of_mem _ hd'))
  rcases mem_append.mp hd' with hd' | hd'
  · exact .inl (hds ▸ mem_append_left _ hd')
  rcases mem_cons.mp hd' with rfl | hd'
  · exact .inr ⟨rfl, hne⟩
  · exact .inl (hds ▸ mem_append_right _ (mem_cons_of_mem _ hd'))

end

end

end

end Shoes.Transport.SmuxReceive
