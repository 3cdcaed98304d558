import Shoes.Lib.AsyncRead
import Shoes.Net.Location
import Shoes.Net.Buffers

/-! # Datagrams over a stream: the reading side

The readers of UoT and Trojan have the same loop over a `SlideBuffer`: hand out the frame in front if
it is complete, otherwise make room and read. They differ in how a frame is parsed, in the size of
the buffer and in what becomes of an empty payload. -/
namespace Shoes.UdpStream.Reader
open Lib.Bytes Lib.Io Lib.AsyncRead Net.Location Net.Buffers List SlideBuffer

structure Message where
  target : NetLocation
  payload : List UInt8
  deriving DecidableEq

/-- What is different from one protocol to the other. `tryParse` gives the target of the frame in
front, where its payload starts and how long it is. -/
structure Protocol where
  bufferSize : Nat
  tryParse : List UInt8 → Except IoError (Option (NetLocation × Nat × Nat))
  skipsEmpty : Bool
  bufferFull : IoError

def compactThreshold : Nat := 4096

/-- What a round of the loop comes to. -/
inductive Round
  | message (m : Message) (b : SlideBuffer)
  | again (b : SlideBuffer) (script : List Item)
  | pending (b : SlideBuffer) (script : List Item)
  | eof
  | failed (e : IoError)

variable (p : Protocol)

/-- A read into the free part of the buffer. -/
def readMore (b : SlideBuffer) : List Item → Round
  | [] => .eof
  | .pending _ :: script => .pending b.release script
  | .bytes first rest :: script =>
    .again
      (b.advanceWrite ((first :: rest).take b.remainingCapacity) (length_take_le _ _))
      (putBack ((first :: rest).drop b.remainingCapacity) script)

def round (b : SlideBuffer) (script : List Item) : Round :=
  match p.tryParse b.bytes with
  | .error e => .failed e
  | .ok (some (target, payloadStart, payloadLen)) =>
    let consumed := b.consume (payloadStart + payloadLen)
    if p.skipsEmpty ∧ payloadLen = 0 then .again consumed script
    else .message ⟨target, slice b.bytes payloadStart (payloadStart + payloadLen)⟩ consumed
  | .ok none =>
    let b := b.maybeCompact compactThreshold
    if b.remainingCapacity = 0 then .failed p.bufferFull else readMore b script

inductive Poll
  | message (m : Message) (b : SlideBuffer) (script : List Item)
  | pending (b : SlideBuffer) (script : List Item)
  | eof
  | failed (e : IoError)

def pollRead : Nat → SlideBuffer → List Item → Poll
  | 0, b, script => .pending b script
  | fuel + 1, b, script =>
    match round p b script with
    | .message m b => .message m b script
    | .again b script => pollRead fuel b script
    | .pending b script => .pending b script
    | .eof => .eof
    | .failed e => .failed e

/-- Enough rounds for what is to come: each round takes a frame out of the buffer, reads something
or waits. -/
def rounds (b : SlideBuffer) (script : List Item) : Nat :=
  2 * (scriptBytes script).length + b.bytes.length + script.length + 1

def calls : Nat → SlideBuffer → List Item → List Message × Option IoError
  | 0, _, _ => ([], none)
  | n + 1, b, script =>
    match pollRead p (rounds b script) b script with
    | .message m b script => (m :: (calls n b script).1, (calls n b script).2)
    | .pending b script => calls n b script
    | .eof => ([], none)
    | .failed e => ([], some e)

/-- What successive reads of messages give. -/
def messages (script : List Item) : List Message × Option IoError :=
  calls p (rounds (.new p.bufferSize) script) (.new p.bufferSize) script

/-! ## The calls as one loop -/

/-- The rounds of all calls, one after the other. -/
def readAll : Nat → SlideBuffer → List Item → List Message × Option IoError
  | 0, _, _ => ([], none)
  | fuel + 1, b, script =>
    match round p b script with
    | .message m b => (m :: (readAll fuel b script).1, (readAll fuel b script).2)
    | .again b script => readAll fuel b script
    | .pending b script => readAll fuel b script
    | .eof => ([], none)
    | .failed e => ([], some e)

/-- What a round leaves to do. -/
def Round.left : Round → List Item → Nat
  | .message _ b, script => rounds b script
  | .again b script, _ => rounds b script
  | .pending b script, _ => rounds b script
  | .eof, _ => 0
  | .failed _, _ => 0

def Progress (p : Protocol) : Prop :=
  ∀ bs target start len, p.tryParse bs = .ok (some (target, start, len)) →
    0 < start + len ∧ start + len ≤ bs.length

variable {rest : List UInt8}

section
variable {p : Protocol} {b : SlideBuffer} {script : List Item}

theorem rounds_pending (dropped b b') (h : b'.bytes = b.bytes)
    (script) : rounds b' script < rounds b (.pending dropped :: script) := by
  simp only [rounds, scriptBytes_cons, Item.data, nil_append, length_cons, h]
  omega

theorem rounds_bytes (b b') (hn : 0 < n) (h : b'.bytes = b.bytes ++ (first :: rest).take n)
    (script) : rounds b' (putBack ((first :: rest).drop n) script) <
      rounds b (.bytes first rest :: script) := by
  have hput := putBack_length_le ((first :: rest).drop n) script
  have hbytes := congrArg length (scriptBytes_putBack ((first :: rest).drop n) script)
  by_cases hlen : (first :: rest).length ≤ n
  · rw [drop_of_length_le hlen]
    simp only [rounds, h, scriptBytes_cons, Item.data, take_of_length_le hlen,
      length_append, length_cons, putBack]
    omega
  simp only [rounds, h, hbytes, scriptBytes_cons, Item.data, length_append,
    length_take, length_drop, length_cons] at hlen ⊢
  omega

theorem readMore_left (h : b'.bytes = b.bytes) (hroom : 0 < b'.remainingCapacity) :
    (readMore b' script).left script < rounds b script := by
  rcases script with _ | ⟨item, script⟩
  · exact Nat.succ_pos _
  cases item with
  | pending dropped => exact rounds_pending dropped b _ ((release_bytes b').trans h) script
  | bytes => exact rounds_bytes b _ hroom (by rw [← h]; rfl) script

section
variable (hp : Progress p)
include hp

theorem round_left (b script) : (round p b script).left script < rounds b script := by
  unfold round
  split
  · exact Nat.succ_pos _
  next target start len hparse =>
    obtain ⟨_, _⟩ := hp _ _ _ _ hparse
    have hconsume : rounds (b.consume (start + len)) script < rounds b script := by
      simp only [rounds, consume_bytes, length_drop]
      omega
    split <;> exact hconsume
  dsimp only
  split
  · exact Nat.succ_pos _
  next hroom => exact readMore_left (maybeCompact_bytes b _) (Nat.pos_of_ne_zero hroom)

theorem readAll_enough (fuel) :
    ∀ (fuel' : Nat) (b : SlideBuffer) (script : List Item), rounds b script ≤ fuel →
      rounds b script ≤ fuel' → readAll p fuel b script = readAll p fuel' b script := by
  induction fuel with
  | zero => intro fuel' b script h _; simp [rounds] at h
  | succ fuel ih =>
    intro fuel' b script h h'
    obtain ⟨fuel', rfl⟩ : ∃ k, fuel' = k + 1 := ⟨fuel' - 1, by simp only [rounds] at h'; omega⟩
    have hleft := round_left hp b script
    unfold readAll
    cases hround : round p b script with
    | message m b' =>
      rw [hround] at hleft
      simp only [Round.left] at hleft
      simp only [ih fuel' b' script (by omega) (by omega)]
    | again b' script' | pending b' script' =>
      rw [hround] at hleft
      simp only [Round.left] at hleft
      simp only [ih fuel' b' script' (by omega) (by omega)]
    | eof | failed => rfl

theorem readAll_pollRead (fuel) : ∀ (b : SlideBuffer) (script : List Item), rounds b script ≤ fuel →
      (∀ m b' script', pollRead p fuel b script = .message m b' script' →
        rounds b' script' < rounds b script ∧ readAll p fuel b script =
          (m :: (readAll p (rounds b' script') b' script').1,
            (readAll p (rounds b' script') b' script').2)) ∧
      (∀ b' script', pollRead p fuel b script = .pending b' script' →
        rounds b' script' < rounds b script ∧
          readAll p fuel b script = readAll p (rounds b' script') b' script') ∧
      (pollRead p fuel b script = .eof → readAll p fuel b script = ([], none)) ∧
      (∀ e, pollRead p fuel b script = .failed e → readAll p fuel b script = ([], some e)) := by
  induction fuel with
  | zero => intro b script h; simp [rounds] at h
  | succ fuel ih =>
    intro b script h
    have hleft := round_left hp b script
    simp only [pollRead, readAll]
    cases hround : round p b script with
    | message m b' =>
      rw [hround] at hleft
      simp only [Round.left] at hleft
      refine ⟨?_, nofun, nofun, nofun⟩
      intro m' b₁ script₁ hpoll
      cases hpoll
      refine ⟨hleft, ?_⟩
      simp only [readAll_enough hp fuel (rounds b' script) b' script (by omega) le_rfl]
    | pending b' script' =>
      rw [hround] at hleft
      simp only [Round.left] at hleft
      refine ⟨nofun, ?_, nofun, nofun⟩
      intro b₁ script₁ hpoll
      cases hpoll
      exact ⟨hleft, readAll_enough hp fuel _ b' script' (by omega) le_rfl⟩
    | again b' script' =>
      rw [hround] at hleft
      simp only [Round.left] at hleft
      obtain ⟨hmessage, hpending, heof, hfailed⟩ := ih b' script' (by omega)
      refine ⟨?_, ?_, heof, hfailed⟩
      · intro m b₁ script₁ hpoll
        obtain ⟨hlt, heq⟩ := hmessage m b₁ script₁ hpoll
        exact ⟨by omega, heq⟩
      intro b₁ script₁ hpoll
      obtain ⟨_, heq⟩ := hpending b₁ script₁ hpoll
      exact ⟨by omega, heq⟩
    | eof => exact ⟨nofun, nofun, fun _ => rfl, nofun⟩
    | failed =>
      refine ⟨nofun, nofun, nofun, ?_⟩
      intro e' hpoll
      cases hpoll
      rfl

/-- **The calls one after the other are the loop.** -/
theorem calls_eq (n) : ∀ (b : SlideBuffer) (script : List Item), rounds b script ≤ n →
      calls p n b script = readAll p (rounds b script) b script := by
  induction n with
  | zero => intro b script h; simp [rounds] at h
  | succ n ih =>
    intro b script h
    obtain ⟨hmessage, hpending, heof, hfailed⟩ :=
      readAll_pollRead hp (rounds b script) b script le_rfl
    unfold calls
    cases hpoll : pollRead p (rounds b script) b script with
    | message m b' script' =>
      obtain ⟨hlt, heq⟩ := hmessage m b' script' hpoll
      simp only [heq, ih b' script' (by omega)]
    | pending b' script' =>
      obtain ⟨_, heq⟩ := hpending b' script' hpoll
      simp only [heq, ih b' script' (by omega)]
    | eof => rw [heof hpoll]
    | failed e => rw [hfailed e hpoll]

end

end

/-! ## Where the buffer has room -/

/-- Where the frame in front starts once room has been made. -/
def front (start : Nat) : Nat := if start > compactThreshold then 0 else start

/-- A frame that the reader waits for fits into the buffer behind the gap in front of it. The
arguments are the size of the buffer, the gap, the number of bytes held, the lengths of the frames
to come and what the stream does next. -/
inductive NeverFull (size : Nat) : Nat → Nat → List Nat → List Item → Prop
  | done {start held : Nat} {script : List Item} : NeverFull size start held [] script
  | frame {start held len : Nat} {lens : List Nat} {script : List Item} (complete : len ≤ held)
      (next : NeverFull size (if held ≤ len then 0 else start + len) (held - len) lens script) :
      NeverFull size start held (len :: lens) script
  | pending {start held len : Nat} {lens : List Nat} {dropped : Bool} {script : List Item}
      (incomplete : held < len) (room : front start + len ≤ size)
      (next : NeverFull size (if held = 0 then 0 else front start) held (len :: lens) script) :
      NeverFull size start held (len :: lens) (.pending dropped :: script)
  | bytes {start held len : Nat} {lens : List Nat} {first : UInt8} {rest : List UInt8}
      {script : List Item} (incomplete : held < len) (room : front start + len ≤ size)
      (next : NeverFull size (front start)
        (held + min (first :: rest).length (size - (front start + held))) (len :: lens)
        (putBack ((first :: rest).drop (size - (front start + held))) script)) :
      NeverFull size start held (len :: lens) (.bytes first rest :: script)

/-- A parser of frames: it waits for a frame to be complete and then finds its parts. `decode` is
what it makes of the target that was written. -/
structure Lawful (p : Protocol) (encode : Message → List UInt8) (decode : Message → Message)
    (WellFormed : Message → Prop) : Prop where
  size : 0 < p.bufferSize
  progress : Progress p
  empty : p.tryParse [] = .ok none
  length : ∀ m, WellFormed m → 0 < (encode m).length
  part : ∀ m, WellFormed m → ∀ k < (encode m).length, p.tryParse ((encode m).take k) = .ok none
  whole : ∀ m rest, WellFormed m → ∃ start,
    p.tryParse (encode m ++ rest) =
        .ok (some ((decode m).target, start, (decode m).payload.length)) ∧
      start + (decode m).payload.length = (encode m).length ∧
      slice (encode m ++ rest) start (encode m).length = (decode m).payload

/-- The messages that are handed out. -/
def Protocol.visible (p : Protocol) (frames : List Message) : List Message :=
  frames.filter fun m => !(p.skipsEmpty && m.payload.isEmpty)

section
variable {p : Protocol} {encode : Message → List UInt8} {decode : Message → Message}
  {WellFormed : Message → Prop} {b : SlideBuffer} {script : List Item} {m : Message}
  {frames : List Message}

theorem front_front (start) : front (front start) = front start := by
  unfold front
  split
  · exact if_neg (Nat.not_lt_zero _)
  · rfl

/-- The buffer with what a chunk brings, and the buffer of a reader that waits. -/
def filled (b : SlideBuffer) (chunk : List UInt8) : SlideBuffer :=
  (b.maybeCompact compactThreshold).advanceWrite
    (chunk.take (b.maybeCompact compactThreshold).remainingCapacity) (length_take_le _ _)

def parked (b : SlideBuffer) : SlideBuffer := (b.maybeCompact compactThreshold).release

def space (b : SlideBuffer) : Nat := b.capacity - (front b.start + b.bytes.length)

theorem maybeCompact_remaining (b) :
    (b.maybeCompact compactThreshold).remainingCapacity = space b := by
  rw [remainingCapacity, maybeCompact_capacity, maybeCompact_bytes, maybeCompact_start]
  rfl

theorem filled_bytes (b chunk) : (filled b chunk).bytes = b.bytes ++ chunk.take (space b) := by
  rw [← maybeCompact_remaining, ← maybeCompact_bytes b compactThreshold]
  rfl

theorem filled_start (b chunk) : (filled b chunk).start = front b.start := maybeCompact_start b _

theorem parked_bytes (b) : (parked b).bytes = b.bytes := by
  rw [parked, release_bytes, maybeCompact_bytes]

theorem parked_capacity (b) : (parked b).capacity = b.capacity := by
  rw [parked, release_capacity, maybeCompact_capacity]

theorem parked_start (b) : (parked b).start = if b.bytes.length = 0 then 0 else front b.start := by
  rw [parked, release_start, maybeCompact_bytes, maybeCompact_start]
  rfl

theorem readAll_wait (fuel) (hparse : p.tryParse b.bytes = .ok none) :
    readAll p (fuel + 1) b script =
      if space b = 0 then ([], some p.bufferFull)
      else
        match script with
        | [] => ([], none)
        | .pending _ :: script => readAll p fuel (parked b) script
        | .bytes first rest :: script =>
          readAll p fuel (filled b (first :: rest))
            (putBack ((first :: rest).drop (space b)) script) := by
  rw [readAll, round, hparse]
  dsimp only
  rw [maybeCompact_remaining]
  by_cases hspace : space b = 0
  · rw [if_pos hspace, if_pos hspace]
  rw [if_neg hspace, if_neg hspace]
  rcases script with _ | ⟨item, _⟩
  · rfl
  cases item with
  | pending => rfl
  | bytes =>
    rw [readMore, ← maybeCompact_remaining]
    rfl

theorem filled_stream (b first rest script) : (filled b (first :: rest)).bytes ++
        scriptBytes (putBack ((first :: rest).drop (space b)) script) =
      b.bytes ++ scriptBytes (.bytes first rest :: script) := by
  rw [filled_bytes, scriptBytes_putBack, scriptBytes_cons, append_assoc,
    ← append_assoc (take _ _), take_append_drop]
  rfl

theorem round_frame (law : Lawful p encode decode WellFormed) (hm : WellFormed m)
    (hbytes : b.bytes = encode m ++ rest) : round p b script =
      if p.skipsEmpty ∧ (decode m).payload.length = 0 then .again
    (b.consume (encode m).length) script
      else .message (decode m) (b.consume (encode m).length) := by
  obtain ⟨_, hparse, hlen, hslice⟩ := law.whole m rest hm
  rw [round, hbytes, hparse]
  dsimp only
  rw [hlen, hslice]

theorem readAll_frame (law : Lawful p encode decode WellFormed) (hm : WellFormed m)
    (hbytes : b.bytes = encode m ++ rest) (fuel) : readAll p (fuel + 1) b script =
      (p.visible [decode m] ++ (readAll p fuel (b.consume (encode m).length) script).1,
        (readAll p fuel (b.consume (encode m).length) script).2) := by
  rw [readAll, round_frame law hm hbytes]
  by_cases hskip : p.skipsEmpty = true ∧ (decode m).payload.length = 0
  · have hempty : (decode m).payload = [] := length_eq_zero_iff.mp hskip.2
    rw [if_pos hskip]
    simp [Protocol.visible, hskip.1, hempty]
  have hvisible : p.visible [decode m] = [decode m] := by
    simpa [Protocol.visible, filter_cons] using hskip
  rw [if_neg hskip, hvisible]
  rfl

theorem NeverFull.frame_iff {size start held len lens script} (complete : len ≤ held) :
    NeverFull size start held (len :: lens) script ↔
      NeverFull size (if held ≤ len then 0 else start + len) (held - len) lens script := by
  constructor
  · intro h
    cases h with
    | frame _ next => exact next
    | pending | bytes => omega
  · exact .frame complete

theorem NeverFull.room {size start held len lens script}
    (h : NeverFull size start held (len :: lens) script) (incomplete : held < len) :
    front start + len ≤ size := by
  cases h with
  | frame => omega
  | pending _ room => exact room
  | bytes _ room => exact room

theorem NeverFull.pending_iff {size start held len lens dropped script} (incomplete : held < len)
    (hstart : held = 0 → start = 0) :
    NeverFull size start held (len :: lens) (.pending dropped :: script) ↔
      NeverFull size (if held = 0 then 0 else front start) held (len :: lens) script := by
  constructor
  · intro h
    cases h with
    | frame => omega
    | pending _ _ next => exact next
  intro h
  have room := h.room incomplete
  refine .pending incomplete ?_ h
  split at room
  next hzero => rwa [hstart hzero]
  · rwa [front_front] at room

theorem NeverFull.bytes_iff {size start held len lens first script} (incomplete : held < len) :
    NeverFull size start held (len :: lens) (.bytes first rest :: script) ↔
      NeverFull size (front start)
        (held + min (first :: rest).length (size - (front start + held))) (len :: lens)
        (putBack ((first :: rest).drop (size - (front start + held))) script) := by
  constructor
  · intro h
    cases h with
    | frame => omega
    | bytes _ _ next => exact next
  intro h
  refine .bytes incomplete ?_ h
  by_cases hmore : held + min (first :: rest).length (size - (front start + held)) < len
  · have room := h.room hmore
    rwa [front_front] at room
  · omega

/-- What the reader gives where the buffer has room, and that it fails where it has not. -/
structure Reads (p : Protocol) (encode : Message → List UInt8) (decode : Message → Message)
    (frames : List Message) (b : SlideBuffer) (script : List Item)
    (result : List Message × Option IoError) : Prop where
  ok : NeverFull p.bufferSize b.start b.bytes.length (frames.map fun m => (encode m).length) script →
    result = (p.visible (frames.map decode), none)
  full : ¬ NeverFull p.bufferSize b.start b.bytes.length (frames.map fun m => (encode m).length)
    script → result.2 = some p.bufferFull

structure Sized (p : Protocol) (b : SlideBuffer) : Prop where
  capacity : b.capacity = p.bufferSize
  start : b.bytes.length = 0 → b.start = 0

theorem Sized.parked (h : Sized p b) : Sized p (parked b) where
  capacity := (parked_capacity b).trans h.capacity
  start := by
    intro h0
    rw [parked_bytes] at h0
    rw [parked_start, if_pos h0]

theorem Sized.consume (h : Sized p b) (n) : Sized p (b.consume n) where
  capacity := (consume_capacity b n).trans h.capacity
  start := by
    intro h0
    rw [consume_bytes, length_drop] at h0
    rw [consume_start, if_pos (by omega)]

theorem Sized.filled (h : Sized p b) (hspace : 0 < space b) (first rest) :
    Sized p (filled b (first :: rest)) where
  capacity := (maybeCompact_capacity b _).trans h.capacity
  start := by
    intro h0
    rw [filled_bytes, length_append, length_take, length_cons] at h0
    omega

theorem Reads.frame (hcomplete : (encode m).length ≤ b.bytes.length)
    (h : Reads p encode decode frames (b.consume (encode m).length) script result) :
    Reads p encode decode (m :: frames) b script (p.visible [decode m] ++ result.1, result.2) := by
  obtain ⟨hok, hfull⟩ := h
  rw [consume_start, consume_bytes, length_drop] at hok hfull
  refine ⟨?_, ?_⟩
  · intro hnever
    rw [hok ((NeverFull.frame_iff hcomplete).mp hnever)]
    exact congrArg (·, none) (filter_append [decode m] (frames.map decode)).symm
  intro hnever
  exact hfull fun hnext => hnever ((NeverFull.frame_iff hcomplete).mpr hnext)

theorem Reads.pending (hb : Sized p b) (incomplete : b.bytes.length < (encode m).length)
    (h : Reads p encode decode (m :: frames) (parked b) script result) :
    Reads p encode decode (m :: frames) b (.pending dropped :: script) result := by
  obtain ⟨hok, hfull⟩ := h
  rw [parked_start, parked_bytes] at hok hfull
  exact ⟨fun hnever => hok ((NeverFull.pending_iff incomplete hb.start).mp hnever),
    fun hnever => hfull fun hnext => hnever ((NeverFull.pending_iff incomplete hb.start).mpr hnext)⟩

theorem Reads.bytes (hb : Sized p b) (incomplete : b.bytes.length < (encode m).length)
    (h : Reads p encode decode (m :: frames) (filled b (first :: rest))
      (putBack ((first :: rest).drop (space b)) script) result) :
    Reads p encode decode (m :: frames) b (.bytes first rest :: script) result := by
  obtain ⟨hok, hfull⟩ := h
  rw [filled_start, filled_bytes, length_append, length_take, space, hb.capacity,
    Nat.min_comm] at hok hfull
  exact ⟨fun hnever => hok ((NeverFull.bytes_iff incomplete).mp hnever),
    fun hnever => hfull fun hnext => hnever ((NeverFull.bytes_iff incomplete).mpr hnext)⟩

/-- **What the reader makes of a stream of frames.** -/
theorem readAll_reads (law : Lawful p encode decode WellFormed) (fuel) :
    ∀ (frames : List Message) (b : SlideBuffer) (script : List Item),
      (∀ m ∈ frames, WellFormed m) → Sized p b →
      b.bytes ++ scriptBytes script = frames.flatMap encode → rounds b script ≤ fuel →
      Reads p encode decode frames b script (readAll p fuel b script) := by
  induction fuel with
  | zero => intro frames b script _ _ _ hfuel; simp [rounds] at hfuel
  | succ fuel ih =>
    intro frames b script hwf hb hstream hfuel
    cases frames with
    | nil =>
      obtain ⟨hbytes, hscript⟩ := append_eq_nil_iff.mp hstream
      have hparse : p.tryParse b.bytes = .ok none := by rw [hbytes]; exact law.empty
      have hzero := hb.start (by rw [hbytes]; rfl)
      have hspace : space b ≠ 0 := by
        have := law.size
        rw [space, hzero, hbytes, hb.capacity]
        exact Nat.ne_of_gt this
      rw [readAll_wait fuel hparse, if_neg hspace]
      rcases script with _ | ⟨item, script⟩
      · exact ⟨fun _ => rfl, fun h => absurd .done h⟩
      cases item with
      | bytes => cases hscript
      | pending dropped =>
        have hrounds := rounds_pending dropped b (parked b) (parked_bytes b) script
        have hnext := ih [] (parked b) script hwf hb.parked (by rw [parked_bytes]; exact hstream)
          (by omega)
        exact ⟨fun _ => hnext.ok .done, fun h => absurd .done h⟩
    | cons m frames =>
      have hm := hwf m (mem_cons_self ..)
      rw [flatMap_cons] at hstream
      by_cases hcomplete : (encode m).length ≤ b.bytes.length
      · -- the frame in front is complete
        obtain ⟨rest, hbytes⟩ :=
          prefix_of_prefix_length_le (prefix_append (encode m) _) ⟨_, hstream⟩ hcomplete
        have hlen := law.length m hm
        have hnext := ih frames (b.consume (encode m).length) script
          (forall_mem_cons.mp hwf).2 (hb.consume _)
          (by
            rw [consume_bytes, ← hbytes, drop_left]
            rw [← hbytes, append_assoc] at hstream
            exact append_cancel_left hstream)
          (by
            simp only [rounds, consume_bytes, length_drop] at hfuel ⊢
            omega)
        rw [readAll_frame law hm hbytes.symm]
        exact hnext.frame hcomplete
      have hlt := not_le.mp hcomplete
      have hparse := law.part m hm b.bytes.length hlt
      rw [← prefix_iff_eq_take.mp
        (prefix_of_prefix_length_le ⟨_, hstream⟩ (prefix_append ..) hlt.le)] at hparse
      rw [readAll_wait fuel hparse]
      split
      next hspace =>
        rw [space, hb.capacity] at hspace
        refine ⟨fun hnever => ?_, fun _ => rfl⟩
        have room : front b.start + (encode m).length ≤ _ := hnever.room hlt
        omega
      rename_i hspace
      -- the reader waits for the rest of the frame
      rcases script with _ | ⟨item, script⟩
      · have hshort := congrArg length hstream
        simp only [scriptBytes, flatMap_nil, append_nil, length_append] at hshort
        omega
      cases item with
      | pending dropped =>
        have hrounds := rounds_pending dropped b (parked b) (parked_bytes b) script
        refine Reads.pending hb hlt (ih (m :: frames) _ script hwf hb.parked ?_ (by omega))
        rw [parked_bytes, flatMap_cons]
        exact hstream
      | bytes first rest =>
        have hpos := Nat.pos_of_ne_zero hspace
        have hrounds := rounds_bytes b (filled b (first :: rest)) hpos
          (filled_bytes b (first :: rest)) script
        refine Reads.bytes hb hlt
          (ih (m :: frames) _ _ hwf (hb.filled hpos first rest) ?_ (by omega))
        rw [filled_stream, flatMap_cons]
        exact hstream

/-- **What successive reads make of a stream of frames.** -/
theorem messages_reads (law : Lawful p encode decode WellFormed) (hwf : ∀ m ∈ frames, WellFormed m)
    (hstream : scriptBytes script = frames.flatMap encode) :
    Reads p encode decode frames (.new p.bufferSize) script (messages p script) := by
  rw [messages, calls_eq law.progress _ _ _ le_rfl]
  exact readAll_reads law _ frames (.new p.bufferSize) script hwf ⟨rfl, fun _ => rfl⟩ hstream
    le_rfl

end

/-! ## Frames that always fit -/

theorem front_le (start) : front start ≤ compactThreshold := by
  unfold front
  split <;> omega

theorem NeverFull.of_short (n) : ∀ (lens : List Nat) (start held : Nat) (script : List Item),
      (∀ len ∈ lens, compactThreshold + len ≤ size) →
      lens.foldr (· + ·) 0 = held + (scriptBytes script).length →
      lens.length + 2 * (scriptBytes script).length + script.length ≤ n →
      NeverFull size start held lens script := by
  induction n with
  | zero =>
    intro lens start held script _ _ hn
    cases lens with
    | nil => exact .done
    | cons => simp at hn
  | succ n ih =>
    intro lens start held script hshort hsum hn
    rcases lens with _ | ⟨len, lens⟩
    · exact .done
    obtain ⟨_, hrest⟩ := forall_mem_cons.mp hshort
    have hfront := front_le start
    rw [foldr_cons] at hsum
    rw [length_cons] at hn
    by_cases hcomplete : len ≤ held
    · exact .frame hcomplete (ih lens _ _ script hrest (by omega) (by omega))
    rcases script with _ | ⟨item, script⟩
    · simp only [scriptBytes, flatMap_nil, length_nil] at hsum
      omega
    cases item with
    | pending =>
      simp only [scriptBytes_cons, Item.data, nil_append, length_cons] at hsum hn
      exact .pending (by omega) (by omega)
        (ih (len :: lens) _ held script hshort (by rwa [foldr_cons]) (by rw [length_cons]; omega))
    | bytes first rest =>
      have hput := putBack_length_le ((first :: rest).drop (size - (front start + held)))
        script
      have hbytes := congrArg length
        (scriptBytes_putBack ((first :: rest).drop (size - (front start + held))) script)
      simp only [scriptBytes_cons, Item.data, length_append, length_drop,
        length_cons] at hsum hn hbytes
      refine .bytes (by omega) (by omega) (ih (len :: lens) _ _ _ hshort ?_ ?_)
      · rw [foldr_cons, hbytes, length_cons]
        omega
      rw [hbytes, length_cons]
      omega

end Shoes.UdpStream.Reader
