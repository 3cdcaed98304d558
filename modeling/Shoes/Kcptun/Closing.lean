import Shoes.Lib.Machine

/-! # The end of a kcptun session

What the application writes is handed to KCP, which keeps it until it is acknowledged; the packets
of KCP go through a queue to the sender task. The loop of `pump_kcp_session` ends at the end of the
application's bytes, when the application cannot be written to, or by an error of what it reads
from the peer. `run_session_inner` then cancels the sender task and drops KCP. -/
namespace Shoes.Kcptun.Closing
open Lib.Machine List

/-- The configuration; `send` is what KCP holds after the bytes were encoded and sent. -/
structure Setup where
  sendWindow : Nat
  frameSize : Nat
  outboundPackets : Nat
  send : List (List UInt8) → List UInt8 → List (List UInt8)

/-- What the application has written and is not read yet, what is pending for it, the segments not
acknowledged, the queue and the packet of the sender task. The last four only record what has
happened. -/
structure Session where
  buffer : List UInt8
  closed : Bool
  dropped : Bool
  pending : List UInt8
  segments : List (List UInt8)
  outbound : List (List UInt8)
  sending : Option (List UInt8)
  ended : Bool
  written : List UInt8
  handed : List UInt8
  produced : List (List UInt8)
  passed : List (List UInt8)

inductive Event
  | write (bytes : List UInt8)
  | close
  /-- The application drops its stream. -/
  | drop
  /-- The loop reads from the application. -/
  | read (count : Nat)
  /-- `drain_kcp` has bytes for the application. -/
  | received (bytes : List UInt8)
  /-- The loop writes to the application. -/
  | deliver (count : Nat)
  /-- An error of the FEC decoder, of KCP or of `drain_kcp`. -/
  | fail
  | acknowledged (i : Nat)
  /-- KCP puts a packet out. -/
  | output (packet : List UInt8)
  | take
  | sendTo
  /-- The sender task sees the cancellation. -/
  | stop
  deriving DecidableEq

namespace Session

def new : Session := ⟨[], false, false, [], [], [], none, false, [], [], [], []⟩

section
variable (c : Setup) (s : Session)

/-- The arm of `application_reader` is taken. -/
def reads : Bool := !s.ended && decide (s.segments.length < c.sendWindow)

def step : Event → Unit × Session
  | .write bytes => ((), if s.closed ∨ s.ended then s
      else { s with buffer := s.buffer ++ bytes, written := s.written ++ bytes })
  | .close => ((), { s with closed := true })
  | .drop => ((), { s with closed := true, dropped := true })
  | .read count => ((),
      if s.reads c ∧ s.buffer = [] ∧ s.closed then { s with ended := true }
      else if s.reads c ∧ s.buffer ≠ [] ∧ 0 < min count c.frameSize then
        let count := min count c.frameSize
        { s with
          buffer := s.buffer.drop count
          segments := c.send s.segments (s.buffer.take count)
          handed := s.handed ++ s.buffer.take count }
      else s)
  | .received bytes => ((), if s.ended then s else { s with pending := s.pending ++ bytes })
  | .deliver count => ((),
      if s.ended ∨ s.pending = [] then s
      -- `BrokenPipe`
      else if s.dropped then { s with ended := true }
      else { s with pending := s.pending.drop count })
  | .fail => ((), { s with ended := true })
  | .acknowledged i => ((), if s.ended then s else { s with segments := s.segments.eraseIdx i })
  | .output packet => ((), if s.ended ∨ s.outbound.length ≥ c.outboundPackets then s
      else { s with outbound := s.outbound ++ [packet], produced := s.produced ++ [packet] })
  | .take => ((),
      match s.sending, s.outbound with
      | none, packet :: outbound => { s with sending := some packet, outbound }
      | _, _ => s)
  | .sendTo => ((), { s with sending := none, passed := s.passed ++ s.sending.toList })
  | .stop => ((), if s.ended then { s with outbound := [], sending := none } else s)

/-- Nothing is on its way to the peer. -/
def atRest : Bool :=
  s.buffer.isEmpty && s.segments.isEmpty && s.outbound.isEmpty && s.sending.isNone

/-- The application closes or drops its side, or the session fails, when nothing is on its way, and
KCP puts out nothing after the close. -/
def settles : Event → Bool
  | .close | .drop | .fail => s.closed || s.atRest
  | .output _ => !s.closed
  | _ => true

end

/-- What the peer is to get is with it. -/
structure Rest (s : Session) : Prop where
  buffer : s.buffer = []
  segments : s.segments = []
  outbound : s.outbound = []
  sending : s.sending = none

structure Sound (s : Session) : Prop where
  written : s.written = s.handed ++ s.buffer
  produced : s.produced = s.passed ++ s.sending.toList ++ s.outbound
  closed : s.closed = true → s.Rest
  dropped : s.dropped = true → s.closed = true
  ended : s.ended = true → s.Rest

variable {c : Setup} {s : Session}

theorem Sound.rest (h : Sound s) (hs : (s.closed || s.atRest) = true) : s.Rest := by
  rcases (Bool.or_eq_true _ _).mp hs with hs | hs
  · exact h.closed hs
  · obtain ⟨⟨⟨hbuffer, hsegments⟩, houtbound⟩, hsending⟩ :
        ((s.buffer = [] ∧ s.segments = []) ∧ s.outbound = []) ∧ s.sending = none := by
      simpa [atRest] using hs
    exact ⟨hbuffer, hsegments, houtbound, hsending⟩

theorem Sound.stays (h : Sound s) {e} (he : s.settles e = true) : Sound (s.step c e).2 := by
  cases e with
  | write bytes =>
    simp only [step]
    split_ifs with hover
    · exact h
    obtain ⟨hclosed, hended⟩ := not_or.mp hover
    exact ⟨by simp [h.written], h.produced, fun hc => absurd hc hclosed, h.dropped,
      fun hend => absurd hend hended⟩
  | close =>
    have hrest := h.rest he
    exact ⟨h.written, h.produced, fun _ => { hrest with }, fun _ => rfl,
      fun hend => { h.ended hend with }⟩
  | drop =>
    have hrest := h.rest he
    exact ⟨h.written, h.produced, fun _ => { hrest with }, fun _ => rfl,
      fun hend => { h.ended hend with }⟩
  | fail =>
    have hrest := h.rest he
    exact ⟨h.written, h.produced, fun hc => { h.closed hc with }, h.dropped, fun _ => { hrest with }⟩
  | read count =>
    simp only [step]
    split_ifs with hend hreads
    · have hrest := h.closed hend.2.2
      exact ⟨h.written, h.produced, fun _ => { hrest with }, h.dropped, fun _ => { hrest with }⟩
    · have hbusy : ¬s.Rest := fun hrest => hreads.2.1 hrest.buffer
      refine ⟨?_, h.produced, fun hc => absurd (h.closed hc) hbusy, h.dropped,
        fun hend => absurd (h.ended hend) hbusy⟩
      rw [h.written, append_assoc, take_append_drop]
    · exact h
  | received bytes =>
    simp only [step]
    split_ifs
    · exact h
    · exact ⟨h.written, h.produced, fun hc => { h.closed hc with }, h.dropped,
        fun hend => { h.ended hend with }⟩
  | deliver count =>
    simp only [step]
    split_ifs with _ hdropped
    · exact h
    · have hrest := h.closed (h.dropped hdropped)
      exact ⟨h.written, h.produced, fun _ => { hrest with }, h.dropped, fun _ => { hrest with }⟩
    · exact ⟨h.written, h.produced, fun hc => { h.closed hc with }, h.dropped,
        fun hend => { h.ended hend with }⟩
  | acknowledged i =>
    simp only [step]
    split_ifs with hend
    · exact h
    refine ⟨h.written, h.produced, fun hc => ?_, h.dropped, fun hended => absurd hended hend⟩
    have hrest := h.closed hc
    exact { hrest with segments := by rw [hrest.segments]; rfl }
  | output packet =>
    have hopen : ¬s.closed = true := by simpa [settles] using he
    simp only [step]
    split_ifs with hfull
    · exact h
    · exact ⟨h.written, by simp [h.produced], fun hc => absurd hc hopen, h.dropped,
        fun hend => absurd hend (not_or.mp hfull).1⟩
  | take =>
    simp only [step]
    split
    swap
    · exact h
    rename_i packet outbound hsending houtbound
    have hbusy : ¬s.Rest := fun hrest => by cases houtbound.symm.trans hrest.outbound
    exact ⟨h.written, by simp [h.produced, hsending, houtbound],
      fun hc => absurd (h.closed hc) hbusy, h.dropped, fun hend => absurd (h.ended hend) hbusy⟩
  | sendTo =>
    exact ⟨h.written, by simp [step, h.produced], fun hc => { h.closed hc with sending := rfl },
      h.dropped, fun hend => { h.ended hend with sending := rfl }⟩
  | stop =>
    simp only [step]
    split_ifs with hend
    · have hrest := h.ended hend
      have hproduced := h.produced
      rw [hrest.sending, hrest.outbound] at hproduced
      exact ⟨h.written, hproduced, fun _ => { hrest with outbound := rfl, sending := rfl }, h.dropped,
        fun _ => { hrest with outbound := rfl, sending := rfl }⟩
    · exact h

/-- **A session closes gracefully** in every run in which the application closes or drops its side,
or the session fails, when nothing is on its way to the peer, and KCP puts out nothing after the
close. -/
theorem closes_gracefully (c : Setup) (es : List Event)
    (h : Along (step c) (fun s e => s.settles e = true) new es) :
    let s := after (step c) new es
    s.ended = true → s.handed = s.written ∧ s.segments = [] ∧ s.passed = s.produced := by
  intro s hend
  have hstep (s) (e) (he : settles s e = true) (hs : Sound s) : Sound (s.step c e).2 := hs.stays he
  have hs : Sound s := h.invariant hstep ⟨rfl, rfl, nofun, nofun, nofun⟩
  have hrest := hs.ended hend
  refine ⟨?_, hrest.segments, ?_⟩
  · rw [hs.written, hrest.buffer, append_nil]
  · rw [hs.produced, hrest.sending, hrest.outbound, Option.toList_none, append_nil, append_nil]

/-- Every read is one segment. -/
def plain : Setup := ⟨4, 9, 4, fun segments bytes => segments ++ [bytes]⟩

theorem closes_gracefully_settled :
    let s := after (step plain) new [.write [7, 8], .read 1, .output [1], .received [5], .read 9,
      .take, .acknowledged 0, .sendTo, .acknowledged 0, .drop, .deliver 1, .stop]
    s.ended = true ∧ s.handed = s.written ∧ s.segments = [] ∧ s.passed = s.produced :=
  ⟨by decide +kernel, closes_gracefully plain _ (by decide +kernel) (by decide +kernel)⟩

/-- The end is read right behind the last bytes, which are never acknowledged nor sent. It is not
waited for when the application is gone while bytes for it are pending, nor after an error. -/
theorem closes_at_once :
    let s := after (step plain) new [.write [7], .close, .read 9, .output [1], .read 9, .stop]
    let s' := after (step plain) new [.write [7], .received [5], .drop, .deliver 1]
    let failed := after (step plain) new [.write [7], .fail]
    s.ended = true ∧ s.segments = [[7]] ∧ s.produced = [[1]] ∧ s.passed = [] ∧
    s'.ended = true ∧ s'.handed = [] ∧ failed.ended = true ∧ failed.handed = [] := by
  decide +kernel

end Session
end Shoes.Kcptun.Closing
