import Shoes.Lib.Io

/-! # Snappy framing of a kcptun session

`SnappyFramedDecoder` takes the stream in any pieces, cuts it into frames and has each frame
decompressed. Decompression itself is a library's. -/
namespace Shoes.Kcptun.Snappy
open Lib.Io List

/-- What `snap::read::FrameDecoder` makes of a stream. -/
abbrev Snap := List UInt8 → Except IoError (List UInt8)

def snappyStreamIdentifier : List UInt8 :=
  [0xff, 0x06, 0x00, 0x00, 0x73, 0x4e, 0x61, 0x50, 0x70, 0x59]

def invalidData {α : Type} (message : String) : Except IoError α := .error ⟨.invalidData, message⟩

structure SnappyFramedDecoder where
  input : List UInt8
  sawIdentifier : Bool
  maxBuffer : Nat
  deriving DecidableEq

/-- The length of the frame that starts here, with its header. -/
def frameLength (input : List UInt8) : Nat :=
  4 + ((input.getD 1 0).toNat + (input.getD 2 0).toNat * 256 + (input.getD 3 0).toNat * 65536)

namespace SnappyFramedDecoder

def new (maxBuffer : Nat) : SnappyFramedDecoder := ⟨[], false, maxBuffer⟩

/-- The loop over the frames: what came out of them and what is left of the input. A frame has at
least four bytes, so there are no more rounds than bytes. -/
def frames (snap : Snap) (maxBuffer : Nat) :
    Nat → List UInt8 → List UInt8 → Except IoError (List UInt8 × List UInt8)
  | 0, input, output => .ok (output, input)
  | fuel + 1, input, output =>
    if input.length < 4 then .ok (output, input)
    else if frameLength input > maxBuffer then
      invalidData "Kcptun Snappy frame exceeds configured limit"
    else if input.length < frameLength input then .ok (output, input)
    else
      match snap (snappyStreamIdentifier ++ input.take (frameLength input)) with
      | .error e => .error e
      | .ok decoded =>
        if (output ++ decoded).length > maxBuffer then
          invalidData "Kcptun Snappy output buffer limit exceeded"
        else frames snap maxBuffer fuel (input.drop (frameLength input)) (output ++ decoded)

/-- What a decoder that has seen the identifier gives. -/
def pushFrames (snap : Snap) (d : SnappyFramedDecoder) (input : List UInt8) :
    Except IoError (List UInt8 × SnappyFramedDecoder) :=
  match frames snap d.maxBuffer input.length input [] with
  | .error e => .error e
  | .ok (output, rest) => .ok (output, { d with input := rest, sawIdentifier := true })

def push (snap : Snap) (d : SnappyFramedDecoder) (input : List UInt8) :
    Except IoError (List UInt8 × SnappyFramedDecoder) :=
  if d.input.length + input.length > d.maxBuffer then
    invalidData "Kcptun Snappy input buffer limit exceeded"
  else
    let input := d.input ++ input
    if d.sawIdentifier then d.pushFrames snap input
    else if input.length < snappyStreamIdentifier.length then .ok ([], { d with input })
    else if input.take snappyStreamIdentifier.length ≠ snappyStreamIdentifier then
      invalidData "invalid Kcptun Snappy stream identifier"
    else d.pushFrames snap (input.drop snappyStreamIdentifier.length)

end SnappyFramedDecoder

/-! ## What a framed stream says -/

/-- Frames, decompressed, and the start of a frame that is not complete yet. -/
inductive Frames (snap : Snap) (limit : Nat) : List UInt8 → List UInt8 → List UInt8 → Prop
  | stop {body : List UInt8}
      (short : body.length < 4 ∨ frameLength body ≤ limit ∧ body.length < frameLength body) :
      Frames snap limit body [] body
  | frame {f out rest decoded carry : List UInt8} (header : 4 ≤ f.length)
      (complete : f.length = frameLength f) (within : f.length ≤ limit)
      (inflated : snap (snappyStreamIdentifier ++ f) = .ok out)
      (more : Frames snap limit rest decoded carry) :
      Frames snap limit (f ++ rest) (out ++ decoded) carry

/-- A stream that is framed so far: what it says, and what of it says nothing yet. -/
inductive Framed (snap : Snap) (limit : Nat) : List UInt8 → List UInt8 → List UInt8 → Prop
  | identifier {stream : List UInt8} (short : stream.length < snappyStreamIdentifier.length) :
      Framed snap limit stream [] stream
  | frames {body decoded carry : List UInt8} (h : Frames snap limit body decoded carry) :
      Framed snap limit (snappyStreamIdentifier ++ body) decoded carry

section
variable {snap : Snap} {limit : Nat}

theorem frameLength_append (h : 4 ≤ f.length) (rest) : frameLength (f ++ rest) = frameLength f := by
  have hget (i : Nat) (hi : i < 4) : (f ++ rest).getD i 0 = f.getD i 0 := by
    rw [getD_eq_getElem?_getD, List.getElem?_append_left (by omega), getD_eq_getElem?_getD]
  unfold frameLength
  rw [hget 1 (by decide), hget 2 (by decide), hget 3 (by decide)]

variable {carry decoded : List UInt8}

theorem Frames.tail (header : 4 ≤ f.length)
    (complete : f.length = frameLength f) (h : Frames snap limit (f ++ rest) decoded carry) :
    ∃ out decoded', snap (snappyStreamIdentifier ++ f) = .ok out ∧ decoded = out ++ decoded' ∧
      Frames snap limit rest decoded' carry := by
  generalize hbody : f ++ rest = body at h
  cases h with
  | stop short =>
    subst hbody
    rw [frameLength_append header, length_append] at short
    omega
  | @frame g out rest' decoded' _ header' complete' within inflated more =>
    have hlen : f.length = g.length := by
      have hsame := congrArg frameLength hbody
      rw [frameLength_append header, frameLength_append header'] at hsame
      omega
    obtain ⟨rfl, rfl⟩ := append_inj hbody hlen
    exact ⟨out, decoded', inflated, rfl, more⟩

theorem Frames.append (h : Frames snap limit body decoded carry)
    (h' : Frames snap limit (body ++ more) decoded' carry') :
    ∃ new, decoded' = decoded ++ new ∧ Frames snap limit (carry ++ more) new carry' := by
  induction h generalizing decoded' with
  | stop short => exact ⟨decoded', rfl, h'⟩
  | @frame f out rest decoded carry header complete within inflated _ ih =>
    rw [append_assoc] at h'
    obtain ⟨_, _, hout, rfl, htail⟩ := h'.tail header complete
    cases inflated.symm.trans hout
    obtain ⟨new, rfl, hnew⟩ := ih htail
    exact ⟨new, (append_assoc _ _ _).symm, hnew⟩

/-- **The loop gives what the frames say**, where that is no more than the limit. -/
theorem frames_eq (h : Frames snap limit body decoded carry) (fuel) (hfuel : body.length ≤ fuel)
    (output) (hout : (output ++ decoded).length ≤ limit) :
    SnappyFramedDecoder.frames snap limit fuel body output = .ok (output ++ decoded, carry) := by
  induction h generalizing fuel output with
  | @stop body short =>
    rw [append_nil]
    cases fuel with
    | zero => rfl
    | succ fuel =>
      unfold SnappyFramedDecoder.frames
      split
      · rfl
      rename_i hfour
      obtain ⟨hwithin, hshort⟩ := short.resolve_left hfour
      rw [if_neg (not_lt.mpr hwithin), if_pos hshort]
  | @frame f out rest decoded carry header complete within inflated more ih =>
    rw [length_append] at hfuel
    obtain ⟨fuel, rfl⟩ : ∃ k, fuel = k + 1 := ⟨fuel - 1, by omega⟩
    have hlen := frameLength_append header rest
    rw [← complete] at hlen
    have hroom : (output ++ out).length ≤ limit := by
      simp only [length_append] at hout ⊢
      omega
    unfold SnappyFramedDecoder.frames
    rw [hlen, if_neg (by simp; omega), if_neg (not_lt.mpr within),
      if_neg (by simp), take_left, inflated]
    dsimp only
    rw [if_neg (not_lt.mpr hroom), drop_left, ← append_assoc]
    exact ih fuel (by omega) _ (by rw [append_assoc]; exact hout)

/-- A decoder that holds what of a stream says nothing yet. -/
structure Holds (limit : Nat) (stream carry : List UInt8) (d : SnappyFramedDecoder) : Prop where
  input : d.input = carry
  saw : d.sawIdentifier = decide (snappyStreamIdentifier.length ≤ stream.length)
  limit : d.maxBuffer = limit

theorem Holds.new (limit) : Holds limit [] [] (.new limit) := ⟨rfl, rfl, rfl⟩

theorem pushFrames_eq {d : SnappyFramedDecoder} {body new : List UInt8}
    (hd : d.maxBuffer = limit) (h : Frames snap limit body new carry) (hnew : new.length ≤ limit) :
    d.pushFrames snap body = .ok (new, ⟨carry, true, limit⟩) := by
  unfold SnappyFramedDecoder.pushFrames
  rw [hd, frames_eq h _ le_rfl [] hnew]
  rfl

theorem Framed.cases_length (h : Framed snap limit stream decoded carry) :
    stream.length < snappyStreamIdentifier.length ∧ decoded = [] ∧ carry = stream ∨
      snappyStreamIdentifier.length ≤ stream.length ∧
        ∃ body, stream = snappyStreamIdentifier ++ body ∧ Frames snap limit body decoded carry := by
  cases h with
  | identifier short => exact .inl ⟨short, rfl, rfl⟩
  | @frames body _ _ h => exact .inr ⟨by simp, body, rfl, h⟩

/-- **A record that fits is decoded.** What is new is what the stream says with the record and did
not say without it. -/
theorem push_framed (hd : Holds limit stream carry d) (h : Framed snap limit stream decoded carry)
    (hroom : carry.length + record.length ≤ limit)
    (h' : Framed snap limit (stream ++ record) decoded' carry')
    (hfits : decoded'.length ≤ decoded.length + limit) :
    ∃ new d', d.push snap record = .ok (new, d') ∧ decoded' = decoded ++ new ∧
      Holds limit (stream ++ record) carry' d' := by
  obtain ⟨hinput, hsaw, hlimit⟩ := hd
  unfold SnappyFramedDecoder.push
  rw [hinput, hlimit, if_neg (not_lt.mpr hroom)]
  dsimp only
  rcases h.cases_length with ⟨hshort, rfl, rfl⟩ | ⟨_, body, rfl, hframes⟩
  · rw [if_neg (by rw [hsaw]; simpa using hshort)]
    rcases h'.cases_length with ⟨hshort', rfl, rfl⟩ | ⟨hlong', _, hbody, hframes⟩
    · rw [if_pos hshort']
      refine ⟨[], _, rfl, rfl, rfl, ?_, rfl⟩
      rw [hsaw]
      simp only [decide_eq_decide]
      omega
    rw [if_neg (not_lt.mpr hlong'), hbody, take_left, if_neg (by simp), drop_left,
      pushFrames_eq hlimit hframes (by simpa using hfits)]
    exact ⟨decoded', _, rfl, rfl, rfl, by simp, rfl⟩
  rw [if_pos (by rw [hsaw]; simp)]
  rw [append_assoc] at h'
  rcases h'.cases_length with ⟨hshort', -⟩ | ⟨-, _, hbody', hframes'⟩
  · simp only [length_append] at hshort'
    omega
  have hsame := append_cancel_left hbody'
  rw [← hsame] at hframes'
  obtain ⟨new, rfl, hnew⟩ := hframes.append hframes'
  rw [pushFrames_eq hlimit hnew (by rw [length_append] at hfits; omega)]
  exact ⟨new, _, rfl, rfl, rfl, by simp, rfl⟩

end

end Shoes.Kcptun.Snappy
