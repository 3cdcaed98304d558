import Shoes.Lib.Assoc
import Shoes.Lib.Io
import Shoes.Lib.Machine

/-! # The uploads of an XHTTP session

Handlers of upload requests send packets into the channel of their session, and the reader of a
download request receives them. Until a reader takes it the receiving end lies in the session, which
lives as long as somebody holds it. -/
namespace Shoes.V2board.XhttpUploads
open Lib.Assoc Lib.Io Lib.Machine List Option

structure XHttpPacket where
  seq : UInt64
  payload : List UInt8
  deriving DecidableEq

structure XHttpUploadReader where
  pending : Map UInt64 (List UInt8)
  nextSeq : UInt64
  current : List UInt8

/-- It is held by the registry, its reaper, the handlers of `uploads` and the reader. The handlers
of `waiting` are blocked in `push_packet`; `rx` is there until `connected` is set. -/
structure XHttpSession where
  maxBufferedPosts : Nat
  registered : Bool
  reaper : Bool
  uploads : List Nat
  reader : Option XHttpUploadReader
  connected : Bool
  queue : List XHttpPacket
  waiting : List (Nat × XHttpPacket)

inductive Polled
  | ready (bytes : List UInt8)
  | failed (e : IoError)
  | pending
  deriving DecidableEq

inductive Event
  /-- A handler finds the session in the registry. -/
  | request (id : Nat)
  | push (id : Nat) (packet : XHttpPacket)
  /-- A handler has ended or was dropped. -/
  | leave (id : Nat)
  | download
  /-- A round of the loop of `poll_read`. -/
  | read (room : Nat)
  | dropReader
  /-- The reaper looks at the session. -/
  | tick (stale : Bool)
  deriving DecidableEq

def invalidError (message : String) : IoError := ⟨.invalidInput, message⟩

namespace XHttpSession
variable (s : XHttpSession)

def start (maxBufferedPosts : Nat) : XHttpSession :=
  ⟨maxBufferedPosts, true, true, [], none, false, [], []⟩

/-- There is a sender. -/
def alive : Bool := s.registered || s.reaper || !s.uploads.isEmpty || s.reader.isSome

/-- There is a receiver. -/
def listening : Bool := !s.connected || s.reader.isSome

/-- A packet was taken from the channel, and the first handler that waits gets its place. -/
def received (queue : List XHttpPacket) : XHttpSession :=
  { s with queue := queue ++ (s.waiting.take 1).map Prod.snd, waiting := s.waiting.drop 1 }

/-- A round of `poll_read`; without a result the loop goes on. -/
def round (room : Nat) (r : XHttpUploadReader) : Option Polled × XHttpSession :=
  if room = 0 then (some (.ready []), { s with reader := some r })
  else if r.current ≠ [] then (some (.ready (r.current.take room)),
    { s with reader := some { r with current := r.current.drop room } })
  else match r.pending.get r.nextSeq with
    | some payload => (none, { s with
        reader := some ⟨r.pending.remove r.nextSeq, r.nextSeq + 1, payload⟩ })
    | none =>
      match s.queue with
      | [] => (if s.alive then some .pending
          else if r.pending.size ≠ 0 then
            some (.failed (invalidError s!"xhttp upload session closed before seq {r.nextSeq}"))
          else some (.ready []), { s with reader := some r })
      | packet :: queue =>
        if packet.seq = r.nextSeq then (none, { s.received queue with
          reader := some ⟨r.pending, r.nextSeq + 1, packet.payload⟩ })
        else if packet.seq < r.nextSeq ∨ r.pending.contains packet.seq then
          (none, { s.received queue with reader := some r })
        else if r.pending.size ≥ s.maxBufferedPosts then
          (some (.failed (invalidError "xhttp upload queue is too large")),
            { s.received queue with reader := some r })
        else (none, { s.received queue with
          reader := some { r with pending := r.pending.insert packet.seq packet.payload } })

def step (s : XHttpSession) : Event → Option Polled × XHttpSession
  | .request id => (none, if s.registered then { s with uploads := id :: s.uploads } else s)
  | .push id packet => (none,
      -- without a receiver the push fails at once
      if id ∉ s.uploads ∨ id ∈ s.waiting.map Prod.fst ∨ s.listening = false then s
      else if s.queue.length < s.maxBufferedPosts then { s with queue := s.queue ++ [packet] }
      else { s with waiting := s.waiting ++ [(id, packet)] })
  | .leave id => (none, { s with
      uploads := s.uploads.filter (· ≠ id), waiting := s.waiting.filter (·.1 ≠ id) })
  | .download => (none, if s.registered ∧ s.connected = false then
      { s with connected := true, reader := some ⟨.empty, 0, []⟩ } else s)
  | .read room => s.reader.elim (none, s) (s.round room)
  | .dropReader => (none, if s.reader.isSome then
      { s with registered := false, reader := none, queue := [], waiting := [] } else s)
  | .tick stale => (none, if s.reaper = false then s
      else if stale then { s with registered := false, reaper := false }
      else { s with reaper := s.registered })

/-! ## The end of an upload -/

/-- No upload can come any more, and what has come has been read as far as there is no gap. -/
structure Drained (r : XHttpUploadReader) (s : XHttpSession) : Prop where
  registered : s.registered = false
  uploads : s.uploads = []
  queue : s.queue = []
  reader : s.reader = some r
  current : r.current = []
  next : r.pending.get r.nextSeq = none

variable {s : XHttpSession} {r : XHttpUploadReader}

theorem Drained.pending (h : Drained r s) {room} (hroom : 0 < room) :
    s.round room r = (some .pending, s) := by
  have halive : s.alive = true := by simp [alive, h.reader]
  rw [round, if_neg hroom.ne', if_neg (not_not.mpr h.current)]
  simp only [h.next, h.queue, halive, if_true]
  rw [← h.reader, ← h.queue]

theorem Drained.stays (h : Drained r s) {e} (he : e ≠ .dropReader) :
    (∀ room, 0 < room → e = .read room → (s.step e).1 = some .pending) ∧
    Drained r (s.step e).2 := by
  cases e with
  | request | download => exact ⟨by simp, by simpa [step, h.registered] using h⟩
  | push => exact ⟨by simp, by simpa [step, h.uploads] using h⟩
  | leave => exact ⟨by simp, { h with uploads := by simp [step, h.uploads] }⟩
  | dropReader => exact absurd rfl he
  | tick stale =>
    refine ⟨by simp, ?_⟩
    simp only [step]
    split_ifs
    · exact h
    · exact { h with registered := rfl }
    · exact { h with }
  | read room =>
    simp only [step, h.reader, elim_some]
    rcases Nat.eq_zero_or_pos room with rfl | hroom
    · refine ⟨fun n hn heq => ?_, { h with reader := rfl }⟩
      cases heq
      exact absurd hn (lt_irrefl 0)
    rw [h.pending hroom]
    exact ⟨fun _ _ _ => rfl, h⟩

/-- **The end is never reported.** When the uploads are over and read, and the session has left the
registry, every read stays pending for as long as the reader is there: it holds the session, and the
session holds a sender. -/
theorem end_never_reported (maxBufferedPosts : Nat) (es es' : List Event) (r : XHttpUploadReader)
    (h : Drained r (after step (start maxBufferedPosts) es)) (hes' : ∀ e ∈ es', e ≠ .dropReader) :
    ∀ o ∈ outputs step (after step (start maxBufferedPosts) es) es',
      ∀ room, 0 < room → o.1 = .read room → o.2 = some .pending :=
  outputs_of_invariant
    (Q := fun e o => ∀ room, 0 < room → e = Event.read room → o = some Polled.pending)
    (fun _ _ hs he => hs.stays he) h hes'

/-- One packet is uploaded and read, the handler ends, and the reaper removes the session. -/
def upload : List Event :=
  [.request 0, .download, .push 0 ⟨0, [7]⟩, .read 9, .read 9, .leave 0, .tick true]

theorem end_never_reported_upload :
    let s := after step (start 4) upload
    s.registered = false ∧ ∀ o ∈ outputs step s [.read 9, .tick false, .read 9],
      ∀ room, 0 < room → o.1 = .read room → o.2 = some .pending :=
  ⟨rfl, end_never_reported 4 upload _ ⟨.empty, 1, []⟩ ⟨rfl, rfl, rfl, rfl, rfl, rfl⟩ (by decide)⟩

theorem uploaded_pending : (outputs step (start 4) (upload ++ [.read 9, .read 9])).map Prod.snd =
    [none, none, none, none, some (.ready [7]), none, none, some .pending, some .pending] := by
  decide +kernel

/-! ## Handlers that wait -/

/-- The reaper removes the session only when no handler holds it. -/
def spares (s : XHttpSession) : Event → Bool
  | .tick true => !s.reaper || !s.registered || s.uploads.isEmpty
  | _ => true

/-- `k` packets have been taken, and as many handlers released. -/
def Released (k : Nat) (s s' : XHttpSession) : Prop := s'.waiting = s.waiting.drop k ∧
  s'.queue ++ s'.waiting.map Prod.snd = (s.queue ++ s.waiting.map Prod.snd).drop k

/-- Who waits holds the session, and somebody may still receive. -/
structure Kept (s : XHttpSession) : Prop where
  held : ∀ w ∈ s.waiting, w.1 ∈ s.uploads
  heard : s.listening = false → s.waiting = []
  taken : s.reader.isSome = true → s.connected = true
  gone : s.registered = false → s.uploads = [] ∨ s.listening = false

theorem Kept.waiting (h : Kept s) (hgone : s.registered = false) : s.waiting = [] := by
  rcases h.gone hgone with hnone | hdeaf
  · refine eq_nil_iff_forall_not_mem.mpr fun w hw => ?_
    have hmem := h.held w hw
    rw [hnone] at hmem
    cases hmem
  · exact h.heard hdeaf

theorem Kept.read (h : Kept s) (hr : s.reader = some r) (r') :
    Kept { s with reader := some r' } ∧ ∀ queue, Kept { s.received queue with reader := some r' } := by
  have hgone (hg : s.registered = false) : s.uploads = [] := by
    simpa [listening, hr] using h.gone hg
  have hdeaf (s : XHttpSession) : { s with reader := some r' }.listening ≠ false := by
    simp [listening]
  have htaken := h.taken (hr ▸ rfl)
  exact ⟨⟨h.held, fun hd => absurd hd (hdeaf _), fun _ => htaken, fun hg => .inl (hgone hg)⟩,
    fun _ => ⟨fun w hw => h.held w (mem_of_mem_drop hw), fun hd => absurd hd (hdeaf _),
      fun _ => htaken, fun hg => .inl (hgone hg)⟩⟩

theorem Kept.goes_round (h : Kept s) (hr : s.reader = some r) (room) :
    Kept (s.round room r).2 ∧ ∃ k, Released k s (s.round room r).2 := by
  have hzero (r') : ∃ k, Released k s { s with reader := some r' } := ⟨0, rfl, rfl⟩
  have hone {packet queue} (hqueue : s.queue = packet :: queue) (r') :
      ∃ k, Released k s { s.received queue with reader := some r' } :=
    ⟨1, rfl, by cases hw : s.waiting <;> simp [received, hqueue, hw]⟩
  unfold round
  iterate 4
    split
    · exact ⟨(h.read hr _).1, hzero _⟩
  rename_i hqueue
  split_ifs <;> exact ⟨(h.read hr _).2 _, hone hqueue _⟩

theorem Kept.stays (h : Kept s) {e} (he : s.spares e = true) : Kept (s.step e).2 := by
  cases e with
  | request id =>
    simp only [step]
    split_ifs with hreg
    · exact ⟨fun w hw => mem_cons_of_mem _ (h.held w hw), h.heard, h.taken, by simp [hreg]⟩
    · exact h
  | push id packet =>
    simp only [step]
    split_ifs with hfail
    · exact h
    · exact { h with }
    push Not at hfail
    refine { h with held := fun w hw => ?_, heard := fun hdeaf => absurd hdeaf hfail.2.2 }
    rcases mem_append.mp hw with hold | hnew
    · exact h.held w hold
    rw [mem_singleton.mp hnew]
    exact hfail.1
  | leave id =>
    refine ⟨fun w hw => ?_, fun hdeaf => ?_, h.taken, fun hgone => (h.gone hgone).imp_left ?_⟩
    · obtain ⟨hw, hne⟩ := mem_filter.mp hw
      exact mem_filter.mpr ⟨h.held w hw, hne⟩
    · simp [step, h.heard hdeaf]
    intro hnone
    simp [step, hnone]
  | download =>
    simp only [step]
    split_ifs with hfirst
    · exact ⟨h.held, by simp [listening], fun _ => rfl, by simp [hfirst.1]⟩
    · exact h
  | read room =>
    simp only [step]
    cases hr : s.reader with
    | none => exact h
    | some r => exact (h.goes_round hr room).1
  | dropReader =>
    simp only [step]
    split_ifs with hr
    · exact ⟨by simp, fun _ => rfl, by simp, fun _ => .inr (by simp [listening, h.taken hr])⟩
    · exact h
  | tick stale =>
    simp only [step]
    split_ifs with hreaper hstale
    · exact h
    · refine { h with gone := fun _ => ?_ }
      subst hstale
      simp only [spares, Bool.or_eq_true, Bool.not_eq_true', List.isEmpty_iff] at he
      rcases he with (hoff | hgone) | hnone
      · exact absurd hoff hreaper
      · exact h.gone hgone
      · exact .inl hnone
    · exact { h with }

/-- **Handlers that wait are released** in every run in which the reaper removes the session only
when no handler holds it: one for each packet that the reader takes, and all of them once the reader
is dropped or the session has left the registry. -/
theorem waiting_released (maxBufferedPosts : Nat) (es : List Event) (e : Event)
    (h : Along step (fun s e => s.spares e = true) (start maxBufferedPosts) (es ++ [e])) :
    let s := after step (start maxBufferedPosts) es
    (∀ room, e = .read room → s.reader.isSome = true → ∃ k, Released k s (s.step e).2) ∧
    (e = .dropReader → s.reader.isSome = true → (s.step e).2.waiting = []) ∧
    ((s.step e).2.registered = false → (s.step e).2.waiting = []) := by
  have hkept := h.left.invariant (fun _ _ he hs => Kept.stays hs he)
    ⟨by simp [start], fun _ => rfl, by simp [start], by simp [start]⟩
  refine ⟨fun room he hr => ?_, fun he hr => ?_, (hkept.stays h.at).waiting⟩
  · obtain ⟨r, hr⟩ := isSome_iff_exists.mp hr
    simp only [he, step, hr, elim_some]
    exact (hkept.goes_round hr room).2
  · simp [he, step, hr]

/-- One handler waits, the reader is there, and the reaper has gone round once. -/
def oneWaits : List Event :=
  [.request 0, .push 0 ⟨0, [7]⟩, .push 0 ⟨1, [8]⟩, .download, .tick false]

theorem waiting_released_read :
    let s := after step (start 1) oneWaits
    s.waiting = [(0, ⟨1, [8]⟩)] ∧ (s.step (.read 9)).2.waiting = [] ∧
    (∃ k, Released k s (s.step (.read 9)).2) ∧ (s.step .dropReader).2.waiting = [] ∧
    ((after step (start 1) (oneWaits ++ [.leave 0])).step (.tick true)).2.waiting = [] := by
  refine ⟨by decide +kernel, by decide +kernel, ?_, ?_, ?_⟩
  · exact (waiting_released 1 oneWaits (.read 9) (by decide +kernel)).1 9 rfl (by decide +kernel)
  · exact (waiting_released 1 oneWaits .dropReader (by decide +kernel)).2.1 rfl (by decide +kernel)
  · have hleft := waiting_released 1 (oneWaits ++ [.leave 0]) (.tick true) (by decide +kernel)
    have hgone : ((after step (start 1) (oneWaits ++ [.leave 0])).step (.tick true)).2.registered =
        false := by decide +kernel
    exact hleft.2.2 hgone

/-- The reaper removes a session without a reader, and its handler waits until it is dropped. -/
theorem handler_waits_forever :
    let s := after step (start 1) [.request 0, .push 0 ⟨0, [7]⟩, .push 0 ⟨1, [8]⟩, .tick true]
    s.registered = false ∧ s.waiting = [(0, ⟨1, [8]⟩)] ∧ ∀ e, e ≠ .leave 0 → (s.step e).2 = s := by
  refine ⟨by decide +kernel, by decide +kernel, fun e he => ?_⟩
  have hs : Lib.Machine.after step (start 1) [.request 0, .push 0 ⟨0, [7]⟩, .push 0 ⟨1, [8]⟩,
      .tick true] = ⟨1, false, false, [0], none, false, [⟨0, [7]⟩], [(0, ⟨1, [8]⟩)]⟩ := rfl
  rw [hs]
  cases e with
  | leave id =>
    have hne : ¬0 = id := fun h => he (h ▸ rfl)
    simp [step, hne]
  | push id packet => simp +contextual [step]
  | _ => rfl

end XHttpSession
end Shoes.V2board.XhttpUploads
