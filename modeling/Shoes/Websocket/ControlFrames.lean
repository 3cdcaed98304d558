import Shoes.Lib.Bytes
import Shoes.Lib.Io
import Shoes.Lib.Machine
import Shoes.Lib.Utf8

/-! # WebSocket control frames

How a `WebsocketStream` reads control frames and answers them. One buffer holds the payload of
the frame being read and of the frame to be sent; `poll_shutdown` empties it. -/
namespace Shoes.Websocket.ControlFrames
open Lib.Bytes Lib.Io Lib.Machine Lib.Utf8 List

/-- The opcodes of control frames. -/
inductive OpCode
  | close
  | ping
  | pong
  deriving DecidableEq

/-- A frame whose header was accepted; `left` is `read_frame_length`. An empty mask is none. -/
structure Frame where
  opcode : OpCode
  mask : List UInt8
  left : Nat

/-- `apply_mask`, so many bytes into the payload. -/
def applyMask (mask : List UInt8) : Nat → List UInt8 → List UInt8
  | _, [] => []
  | offset, b :: data => (b ^^^ mask.getD (offset % 4) 0) :: applyMask mask (offset + 1) data

def validateClosePayload (payload : List UInt8) : Except IoError Unit :=
  if payload.length = 1 then .error ⟨.invalidData,
    "close frame payload must be empty or contain a two-byte status code"⟩
  else if payload = [] then .ok ()
  else
    let code := beNat (payload.take 2)
    if ¬(code ∈ [1000, 1001, 1002, 1003, 1007, 1008, 1009, 1010, 1011, 1012, 1013, 1014] ∨
        3000 ≤ code ∧ code ≤ 4999) then
      .error ⟨.invalidData, s!"invalid websocket close status code ({code})"⟩
    else if isUtf8 (payload.drop 2) then .ok ()
    else .error ⟨.invalidData, "websocket close reason is not valid UTF-8"⟩

/-- What `finish_control_frame` makes of a Close: `error_close_code` for a payload not valid. -/
def judge (payload : List UInt8) : Option (List UInt8) :=
  match validateClosePayload payload with
  | .ok () => none
  | .error _ =>
    some (u16ToBeBytes (if 2 ≤ payload.length ∧ ¬isUtf8 (payload.drop 2) then 1007 else 1002))

/-- `controlData` is `control_data[..control_data_size]`; the last four fields say what has come and
what was made of it. -/
structure Stream where
  reading : Option Frame
  maskOffset : Nat
  controlData : List UInt8
  pendingControl : Option OpCode
  closeReceived : Bool
  closeSent : Bool
  readClosed : Bool
  raw : List UInt8
  pings : List (List UInt8)
  judged : List (List UInt8 × Option (List UInt8))
  packed : List (OpCode × List UInt8)

inductive Event
  | header (f : Frame)
  | content (raw : List UInt8)
  /-- `pack_pending_control_frame`, with room for the frame. -/
  | pack
  | shutdown
  | writePing

namespace Stream

def new : Stream := ⟨none, 0, [], none, false, false, false, [], [], [], []⟩

def finishControlFrame (s : Stream) (f : Frame) : Stream :=
  let own := applyMask f.mask 0 s.raw
  match f.opcode with
  | .ping => { s with pendingControl := some .pong, pings := s.pings ++ [own] }
  | .pong => s
  | .close =>
    let s' := { s with judged := s.judged ++ [(own, judge s.controlData)] }
    match judge s.controlData with
    -- the error path of `poll_read`
    | some code => { s' with
        controlData := code, pendingControl := some .close, readClosed := true }
    | none => { s' with
        closeReceived := true
        pendingControl := if s.closeSent then s.pendingControl else some .close }

/-- `poll_read` goes on only when nothing is pending, and reads no frame after a Close or an error. -/
def step (s : Stream) : Event → Unit × Stream
  | .header f => ((),
    if s.reading.isSome ∨ s.pendingControl.isSome ∨ s.closeReceived ∨ s.readClosed then s
    else
      let s := { s with controlData := [], raw := [], maskOffset := 0 }
      if f.left = 0 then s.finishControlFrame f else { s with reading := some f })
  | .content raw => ((),
    match s.reading with
    | none => s
    | some f =>
      if s.pendingControl.isSome ∨ raw.length > f.left then s
      else
        let s := { s with
          controlData := s.controlData ++ applyMask f.mask s.maskOffset raw
          maskOffset := (s.maskOffset + raw.length) % 4
          raw := s.raw ++ raw }
        if raw.length = f.left then { s with reading := none }.finishControlFrame f
        else { s with reading := some { f with left := f.left - raw.length } })
  | .pack => ((),
    match s.pendingControl with
    | none => s
    | some opcode => { s with
        packed := s.packed ++ [(opcode, s.controlData)]
        pendingControl := none
        closeSent := s.closeSent || opcode = .close })
  | .shutdown => ((),
    if s.closeSent ∨ s.closeReceived ∨ s.pendingControl.isSome then s
    else { s with controlData := [], pendingControl := some .close })
  | .writePing => ((), s)

/-- A `poll_shutdown` that begins the handshake comes while no control frame is read in part. -/
def calm (s : Stream) : Event → Bool
  | .shutdown => s.closeSent || s.closeReceived || s.pendingControl.isSome ||
      s.reading.isNone || s.controlData.isEmpty
  | _ => true

/-- The payloads of the Pongs, with one that is still to be packed. -/
def pongs (s : Stream) : List (List UInt8) :=
  (s.packed.filter (·.1 = .pong)).map Prod.snd ++
    if s.pendingControl = some .pong then [s.controlData] else []

/-- Every Pong is that of its Ping, and every Close was judged by its payload. -/
structure Intact (s : Stream) : Prop where
  pongs : s.pongs = s.pings
  judged : ∀ j ∈ s.judged, j.2 = judge j.1

variable {s : Stream} {f : Frame}

theorem applyMask_append (mask a b : List UInt8) (o o') (h : (o + a.length) % 4 = o' % 4) :
    applyMask mask o (a ++ b) = applyMask mask o a ++ applyMask mask o' b := by
  induction a generalizing o with
  | cons x a ih =>
    rw [cons_append, applyMask, applyMask, cons_append, ih (o + 1)]
    rw [← h, length_cons]
    congr 1
    omega
  | nil =>
    change applyMask mask o b = applyMask mask o' b
    induction b generalizing o o' with
    | nil => rfl
    | cons y b ih =>
      rw [length_nil] at h ih
      rw [applyMask, applyMask, ih (o + 1) (o' + 1) (by omega), show o % 4 = o' % 4 from h]

structure Sound (s : Stream) : Prop extends Intact s where
  data : ∀ f ∈ s.reading, s.controlData = applyMask f.mask 0 s.raw ∧
    s.maskOffset = s.raw.length % 4 ∧ s.pendingControl ≠ some .pong

theorem Intact.idle (h : Intact s) (hidle : s.pendingControl = none) {t : Stream}
    (hpacked : t.packed = s.packed) (hpings : t.pings = s.pings) (hjudged : t.judged = s.judged)
    (hpending : t.pendingControl ≠ some .pong) : Intact t := by
  have hpongs := h.pongs
  simp only [Stream.pongs, hidle, reduceCtorEq, if_false] at hpongs
  exact ⟨by simp [Stream.pongs, hpending, hpacked, hpings, hpongs], hjudged ▸ h.judged⟩

theorem finish_sound (h : Intact s) (hreading : s.reading = none)
    (hidle : s.pendingControl = none) (hdata : s.controlData = applyMask f.mask 0 s.raw) :
    Sound (s.finishControlFrame f) := by
  have hpongs := h.pongs
  simp only [pongs, hidle, reduceCtorEq, if_false, append_nil] at hpongs
  rw [finishControlFrame]
  split
  · exact ⟨⟨by simp [pongs, hpongs, hdata], h.judged⟩, by simp [hreading]⟩
  · exact ⟨h, by simp [hreading]⟩
  have hjudged : ∀ j ∈ s.judged ++ [(applyMask f.mask 0 s.raw, judge s.controlData)],
      j.2 = judge j.1 := by
    rw [forall_mem_append, forall_mem_singleton, hdata]
    exact ⟨h.judged, rfl⟩
  cases hverdict : judge s.controlData with
  | some code =>
    rw [hverdict] at hjudged
    exact ⟨⟨by simp [pongs, hpongs], hjudged⟩, by simp [hreading]⟩
  | none =>
    rw [hverdict] at hjudged
    refine ⟨⟨?_, hjudged⟩, by simp [hreading]⟩
    cases s.closeSent <;> simp [pongs, hpongs, hidle]

theorem Sound.step (h : Sound s) {e} (hcalm : s.calm e = true) :
    Sound (s.step e).2 := by
  cases e with
  | writePing => exact h
  | header f =>
    simp only [Stream.step]
    split
    · exact h
    rename_i hbusy
    obtain ⟨hreading, hidle⟩ : s.reading = none ∧ s.pendingControl = none := by
      simp only [not_or, Option.not_isSome_iff_eq_none] at hbusy
      exact ⟨hbusy.1, hbusy.2.1⟩
    have hnot : s.pendingControl ≠ some .pong := by simp [hidle]
    split
    · exact finish_sound (h.idle hidle rfl rfl rfl hnot) hreading hidle rfl
    refine ⟨h.idle hidle rfl rfl rfl hnot, fun f' hf' => ?_⟩
    cases hf'
    exact ⟨rfl, rfl, hnot⟩
  | content raw =>
    simp only [Stream.step]
    split
    · exact h
    rename_i f hreading
    obtain ⟨hdata, hoffset, hnot⟩ := h.data f hreading
    split
    · exact h
    rename_i hbusy
    have hidle : s.pendingControl = none := by simpa using (not_or.mp hbusy).1
    have hall : s.controlData ++ applyMask f.mask s.maskOffset raw =
        applyMask f.mask 0 (s.raw ++ raw) := by
      rw [applyMask_append _ _ _ 0 s.maskOffset (by omega), hdata]
    split
    · exact finish_sound (h.idle hidle rfl rfl rfl hnot) rfl hidle hall
    refine ⟨h.idle hidle rfl rfl rfl hnot, fun f' hf' => ?_⟩
    cases hf'
    exact ⟨hall, by simp [hoffset], hnot⟩
  | pack =>
    simp only [Stream.step]
    split
    · exact h
    rename_i opcode hpending
    refine ⟨⟨?_, h.judged⟩, fun f' hf' => ?_⟩
    · rw [← h.pongs]
      cases opcode <;> simp [pongs, hpending]
    obtain ⟨hdata, hoffset, -⟩ := h.data f' hf'
    exact ⟨hdata, hoffset, nofun⟩
  | shutdown =>
    simp only [Stream.step]
    split
    · exact h
    rename_i hbusy
    obtain ⟨hsent, hreceived, hidle⟩ :
        s.closeSent = false ∧ s.closeReceived = false ∧ s.pendingControl = none := by
      simpa using hbusy
    refine ⟨h.idle hidle rfl rfl rfl nofun, fun f hf => ?_⟩
    have hreading : s.reading = some f := hf
    have hnone : s.controlData = [] := by
      simpa [calm, hsent, hreceived, hidle, hreading] using hcalm
    obtain ⟨hdata, hoffset, -⟩ := h.data f hf
    exact ⟨hnone.symm.trans hdata, hoffset, nofun⟩

/-- **Control frames are received intact** in every run in which no `poll_shutdown` begins the
closing handshake between two pieces of a control frame. -/
theorem control_frames_intact (es : List Event)
    (h : Along step (fun s e => s.calm e = true) .new es) : Intact (after step .new es) :=
  (h.invariant (fun _ _ hcalm hs => Sound.step hs hcalm)
    (⟨⟨rfl, nofun⟩, nofun⟩ : Sound .new)).toIntact

/-- A Ping in two pieces, and in the closing handshake a Close whose reason is not text. -/
theorem control_frames_intact_pieces :
    let es := [.header ⟨.ping, [], 2⟩, .content [1], .content [2], .pack, .shutdown, .pack,
      .header ⟨.close, [], 3⟩, .content [3], .content [232, 255]]
    (after step .new es).packed = [(.pong, [1, 2]), (.close, [])] ∧
    (after step .new es).judged = [([3, 232, 255], some [3, 239])] ∧ Intact (after step .new es) :=
  ⟨by decide +kernel, by decide +kernel, control_frames_intact _ (by decide +kernel)⟩

/-- A Ping of two bytes, with `poll_shutdown` in between, is answered by its second byte. -/
theorem pong_has_suffix :
    let s := after step .new
      [.header ⟨.ping, [], 2⟩, .content [1], .shutdown, .pack, .content [2], .pack]
    s.pings = [[1, 2]] ∧ s.packed = [(.close, []), (.pong, [2])] := by
  decide +kernel

end Stream
end Shoes.Websocket.ControlFrames
