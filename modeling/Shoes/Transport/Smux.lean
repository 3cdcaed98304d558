import Shoes.Lib.AsyncRead

/-! # smux frames

The frame reader of an smux session, versions 1 and 2. The session loop drops the future that reads
a frame whenever something else comes first, so what has been read of it is kept in `FrameReader`.
-/
namespace Shoes.Transport.Smux
open Lib.Bytes Lib.Io Lib.AsyncRead List

def versionV2 : UInt8 := 2

def cmdSyn : UInt8 := 0

def cmdFin : UInt8 := 1

def cmdPsh : UInt8 := 2

def cmdNop : UInt8 := 3

def cmdUpd : UInt8 := 4

def headerSize : Nat := 8

def updatePayloadSize : Nat := 8

structure Frame where
  command : UInt8
  streamId : UInt32
  payload : List UInt8
  deriving DecidableEq

/-- What `parse_header` gives: the command, the stream and the length of the payload. -/
structure Header where
  command : UInt8
  streamId : UInt32
  length : Nat
  deriving DecidableEq

def invalid {α : Type} (message : String) : Except IoError α := .error ⟨.invalidData, message⟩

def knownCommand (version command : UInt8) : Bool :=
  command = cmdSyn || command = cmdFin || command = cmdPsh || command = cmdNop ||
    version = versionV2 && command = cmdUpd

def controlCommand (command : UInt8) : Bool :=
  command = cmdSyn || command = cmdFin || command = cmdNop

/-- The checks of `parse_header` behind the version, in its order. -/
def checkHeader (version : UInt8) (maxPayload : Nat) (h : Header) : Except IoError Header :=
  if !knownCommand version h.command then invalid s!"unknown smux v{version} command"
  else if h.length > maxPayload then
    invalid s!"smux v{version} payload exceeds configured limit"
  else if controlCommand h.command ∧ h.length ≠ 0 then
    invalid s!"smux v{version} control frame contains a payload"
  else if h.command = cmdUpd ∧ h.length ≠ updatePayloadSize then
    invalid "smux v2 window update must contain exactly 8 bytes"
  else if h.command ≠ cmdNop ∧ h.streamId = 0 then
    invalid s!"smux v{version} stream ID zero is reserved"
  else if h.command = cmdNop ∧ h.streamId ≠ 0 then
    invalid s!"smux v{version} NOP must use stream ID zero"
  else .ok h

def parseHeader (header : List UInt8) (version : UInt8) (maxPayload : Nat) :
    Except IoError Header :=
  if header.getD 0 0 ≠ version then
    invalid s!"unsupported smux protocol version {header.getD 0 0}"
  else
    checkHeader version maxPayload {
      command := header.getD 1 0
      streamId := u32FromLeBytes (slice header 4 8)
      length := (u16FromLeBytes (header.getD 2 0) (header.getD 3 0)).toNat }

/-! ## The reader -/

structure FrameReader where
  header : Filling
  parsed : Option Header
  payload : Filling
  deriving DecidableEq

def FrameReader.default : FrameReader := ⟨.zeroed headerSize, none, .zeroed 0⟩

inductive Locals
  | header
  | payload (parsed : Header)

/-- The version and limit a session reads with, and `allocate_vec`, which leaves whatever the
memory held. -/
structure Session where
  version : UInt8
  maxPayload : Nat
  allocateVec : Nat → List UInt8
  allocated : ∀ n, (allocateVec n).length = n

abbrev Point := Await FrameReader Locals (Except IoError (Option Frame))

namespace FrameReader
variable (cfg : Session)

/-- The loop over the payload, and the end. -/
def awaitPayload (parsed : Header) (r : FrameReader) : Point :=
  if r.payload.read < parsed.length then .read r.payload.room (.payload parsed) r
  else
    .ret (.ok (some ⟨parsed.command, parsed.streamId, r.payload.bytes⟩))
      { r with header := { r.header with read := 0 }, parsed := none, payload := ⟨[], 0⟩ }

def parse (r : FrameReader) : Point :=
  match r.parsed with
  | some parsed => awaitPayload parsed r
  | none =>
    match parseHeader r.header.bytes cfg.version cfg.maxPayload with
    | .error e => .ret (.error e) r
    | .ok parsed =>
      awaitPayload parsed
        { r with
          payload := { r.payload with bytes := cfg.allocateVec parsed.length }
          parsed := some parsed }

/-- The loop over the header. -/
def awaitHeader (r : FrameReader) : Point :=
  if r.header.read < headerSize then .read r.header.room .header r else parse cfg r

/-- A read has come to its end, of which nothing is the end of the stream. -/
def resume (l : Locals) (r : FrameReader) (got : List UInt8) : Point :=
  match l with
  | .header =>
    if got = [] then
      if r.header.read = 0 then .ret (.ok none) r
      else .ret (.error ⟨.unexpectedEof, s!"smux v{cfg.version} frame header truncated"⟩) r
    else awaitHeader cfg { r with header := r.header.put got }
  | .payload parsed =>
    if got = [] then
      .ret (.error ⟨.unexpectedEof, s!"smux v{cfg.version} frame payload truncated"⟩) r
    else awaitPayload parsed { r with payload := r.payload.put got }

def read : Async FrameReader Locals (Except IoError (Option Frame)) := ⟨awaitHeader cfg, resume cfg⟩

end FrameReader

def readFrames (cfg : Session) (script : List Item) (close : Close) :
    List Frame × Except IoError Unit :=
  outcome (FrameReader.read cfg) close ((FrameReader.read cfg).start .default) script

/-! ## Every await can be resumed -/

/-- Nothing of a frame has been read. -/
structure FrameReader.Fresh (r : FrameReader) : Prop where
  size : r.header.bytes.length = headerSize
  unread : r.header.read = 0
  parsed : r.parsed = none
  payload : r.payload = ⟨[], 0⟩

/-- What `FrameReader` holds at each point of `read`. -/
inductive Point.Ok : Point → Prop
  | header {r : FrameReader} (part : r.header.Part headerSize) (parsed : r.parsed = none)
      (payload : r.payload = ⟨[], 0⟩) : Ok (.read r.header.room .header r)
  | payload {r : FrameReader} {parsed : Header} (size : r.header.bytes.length = headerSize)
      (read : r.header.read = headerSize) (kept : r.parsed = some parsed)
      (part : r.payload.Part parsed.length) : Ok (.read r.payload.room (.payload parsed) r)
  | frame {f : Frame} {r : FrameReader} (fresh : r.Fresh) : Ok (.ret (.ok (some f)) r)
  | none {r : FrameReader} : Ok (.ret (.ok none) r)
  | error {e : IoError} {r : FrameReader} : Ok (.ret (.error e) r)

section
variable {cfg : Session} {r : FrameReader}

theorem awaitPayload_ok (size : r.header.bytes.length = headerSize)
    (read : r.header.read = headerSize) (kept : r.parsed = some parsed)
    (room : r.payload.bytes.length = parsed.length) :
    Point.Ok (FrameReader.awaitPayload parsed r) := by
  unfold FrameReader.awaitPayload
  split
  next more => exact .payload size read kept ⟨room, more⟩
  · exact .frame ⟨size, rfl, rfl, rfl⟩

theorem parse_ok (size : r.header.bytes.length = headerSize) (read : r.header.read = headerSize)
    (parsed : r.parsed = none) : Point.Ok (FrameReader.parse cfg r) := by
  unfold FrameReader.parse
  rw [parsed]
  dsimp only
  split
  · exact .error
  · exact awaitPayload_ok size read rfl (cfg.allocated _)

theorem awaitHeader_ok (size : r.header.bytes.length = headerSize) (le : r.header.read ≤ headerSize)
    (parsed : r.parsed = none) (payload : r.payload = ⟨[], 0⟩) :
    Point.Ok (FrameReader.awaitHeader cfg r) := by
  unfold FrameReader.awaitHeader
  split
  next more => exact .header ⟨size, more⟩ parsed payload
  · exact parse_ok size (by omega) parsed

theorem FrameReader.Fresh.part (h : r.Fresh) : r.header.Part headerSize :=
  ⟨h.size, by rw [h.unread]; decide⟩

theorem FrameReader.Fresh.room (h : r.Fresh) : r.header.room = headerSize := by
  rw [Filling.room, h.size, h.unread]
  rfl

theorem FrameReader.Fresh.start (h : r.Fresh) :
    (FrameReader.read cfg).start r = .read headerSize .header r := by
  change FrameReader.awaitHeader cfg r = _
  rw [FrameReader.awaitHeader, if_pos h.part.more, h.room]

theorem FrameReader.Fresh.ok (h : r.Fresh) : Point.Ok (.read headerSize .header r) := by
  have hok := Point.Ok.header h.part h.parsed h.payload
  rwa [h.room] at hok

theorem default_fresh : FrameReader.default.Fresh := ⟨rfl, rfl, rfl, rfl⟩

end

/-- **The reader is resumable.** -/
theorem read_steady (cfg) : Steady (FrameReader.read cfg) Point.Ok where
  restart := by
    intro n l r hok
    change FrameReader.awaitHeader cfg r = _
    unfold FrameReader.awaitHeader
    cases hok with
    | header part => rw [if_pos part.more]
    | payload size read kept part =>
      rw [if_neg (by omega)]
      simp only [FrameReader.parse, kept, FrameReader.awaitPayload, if_pos part.more]
  room := by
    intro n l r hok
    cases hok with
    | header part | payload size read kept part => exact part.room_pos
  resume := by
    intro n l r bs hok hbs hle
    change Point.Ok (FrameReader.resume cfg l r bs)
    unfold FrameReader.resume
    cases hok with
    | header part parsed payload =>
      obtain ⟨hsize, hread⟩ := part.put hle
      rw [if_neg hbs]
      exact awaitHeader_ok hsize hread parsed payload
    | payload size read kept part =>
      obtain ⟨hsize, hread⟩ := part.put hle
      dsimp only
      rw [if_neg hbs]
      exact awaitPayload_ok size read kept hsize
  split := by
    intro n l r as bs hok has hbs hle
    change ∃ l' r', FrameReader.resume cfg l r as = _ ∧
      FrameReader.resume cfg l r (as ++ bs) = FrameReader.resume cfg l' r' bs
    have hne : as ++ bs ≠ [] := by simp [has]
    cases hok with
    | header part =>
      obtain ⟨hread, hrest, hput⟩ := part.put_append hbs hle
      refine ⟨.header, { r with header := r.header.put as }, ?_, ?_⟩
      · simp only [FrameReader.resume, if_neg has, FrameReader.awaitHeader, if_pos hread, hrest]
      · simp only [FrameReader.resume, if_neg hbs, if_neg hne, hput]
    | @payload _ parsed size read kept part =>
      obtain ⟨hread, hrest, hput⟩ := part.put_append hbs hle
      refine ⟨.payload parsed, { r with payload := r.payload.put as }, ?_, ?_⟩
      · simp only [FrameReader.resume, if_neg has, FrameReader.awaitPayload, if_pos hread, hrest]
      · simp only [FrameReader.resume, if_neg hbs, if_neg hne, hput]
  eof := by
    intro n l r hok
    change ∃ result r', FrameReader.resume cfg l r [] = .ret result r' ∧ _
    unfold FrameReader.resume
    cases hok with
    | header =>
      dsimp only
      rw [if_pos rfl]
      split <;> exact ⟨_, _, rfl, by simp⟩
    | payload => exact ⟨_, _, rfl, by simp⟩
  again := by
    intro f r hok
    cases hok with
    | frame fresh => exact ⟨_, _, _, fresh.start, fresh.ok⟩

/-! ## Frames as they are written -/

def frameHeader (version command : UInt8) (streamId : UInt32) (length : UInt16) : List UInt8 :=
  [version, command] ++ u16ToLeBytes length ++ u32ToLeBytes streamId

/-- `u16::try_from`. -/
def frameLength (length : Nat) : Except IoError UInt16 :=
  if length < 65536 then .ok (UInt16.ofNat length) else invalid "smux payload exceeds 65535 bytes"

def writeFrame (version command : UInt8) (streamId : UInt32) (payload : List UInt8) :
    Except IoError (List UInt8) := do
  let length ← frameLength payload.length
  pure (frameHeader version command streamId length ++ payload)

/-- A frame that `parse_header` accepts. -/
structure Frame.WellFormed (version : UInt8) (maxPayload : Nat) (f : Frame) : Prop where
  known : knownCommand version f.command = true
  limit : f.payload.length ≤ maxPayload
  control : controlCommand f.command = true → f.payload = []
  update : f.command = cmdUpd → f.payload.length = updatePayloadSize
  stream : f.streamId = 0 ↔ f.command = cmdNop

def Frame.encode (version : UInt8) (f : Frame) : List UInt8 :=
  frameHeader version f.command f.streamId (UInt16.ofNat f.payload.length) ++ f.payload

def encodeAll (version : UInt8) (frames : List Frame) : List UInt8 :=
  frames.flatMap (Frame.encode version)

@[simp] theorem frameHeader_length (version command streamId length) :
    (frameHeader version command streamId length).length = headerSize := by
  simp [frameHeader, headerSize]

theorem frameLength_ok {n length} (h : frameLength n = .ok length) :
    n < 65536 ∧ length = UInt16.ofNat n := by
  unfold frameLength at h
  split at h <;> cases h
  rename_i hlt
  exact ⟨hlt, rfl⟩

theorem writeFrame_ok {f : Frame}
    (h : writeFrame version f.command f.streamId f.payload = .ok bytes) :
    f.payload.length < 65536 ∧ bytes = f.encode version := by
  obtain ⟨_, hlen, h⟩ := exists_of_bind_ok h
  cases h
  obtain ⟨hlt, rfl⟩ := frameLength_ok hlen
  exact ⟨hlt, rfl⟩

theorem writeFrames_ok
    (h : frames.mapM (fun f => writeFrame version f.command f.streamId f.payload) = .ok pieces) :
    (∀ f ∈ frames, f.payload.length < 65536) ∧ pieces.flatten = encodeAll version frames := by
  induction frames generalizing pieces with
  | nil =>
    cases h
    exact ⟨by simp, rfl⟩
  | cons f fs ih =>
    obtain ⟨_, _, hf, hfs, rfl⟩ := exists_of_mapM_ok h
    obtain ⟨hlen, hbytes⟩ := writeFrame_ok hf
    obtain ⟨hlens, hrest⟩ := ih hfs
    refine ⟨forall_mem_cons.mpr ⟨hlen, hlens⟩, ?_⟩
    rw [flatten_cons, hrest, hbytes]
    rfl

theorem encodeAll_append (version fs gs) :
    encodeAll version (fs ++ gs) = encodeAll version fs ++ encodeAll version gs :=
  flatMap_append

/-! ## Reading back -/

theorem parseHeader_frameHeader {f : Frame}
    (hwf : f.WellFormed version maxPayload) (hlen : f.payload.length < 65536) :
    parseHeader (frameHeader version f.command f.streamId (UInt16.ofNat f.payload.length)) version
      maxPayload = .ok ⟨f.command, f.streamId, f.payload.length⟩ := by
  have hlength : (UInt16.ofNat f.payload.length).toNat = f.payload.length := by
    rw [UInt16.toNat_ofNat']
    omega
  have hid : slice (frameHeader version f.command f.streamId (UInt16.ofNat f.payload.length)) 4 8 =
      u32ToLeBytes f.streamId := by
    have hslice := slice_append_left
      ([version, f.command] ++ u16ToLeBytes (UInt16.ofNat f.payload.length))
      (u32ToLeBytes f.streamId) [] rfl rfl
    rwa [append_nil] at hslice
  unfold parseHeader
  rw [if_neg (by simp [frameHeader]), hid, u32FromLeBytes_toLeBytes]
  change checkHeader version maxPayload ⟨f.command, f.streamId,
    (u16FromLeBytes (UInt16.ofNat f.payload.length).toUInt8
      (UInt8.ofNat ((UInt16.ofNat f.payload.length).toNat / 256))).toNat⟩ = _
  rw [u16FromLeBytes_toLeBytes, hlength]
  unfold checkHeader
  have hcontrol : ¬(controlCommand f.command = true ∧ f.payload.length ≠ 0) := by
    rintro ⟨hc, hne⟩
    exact hne (by rw [hwf.control hc]; rfl)
  rw [if_neg (by simp [hwf.known]), if_neg (by have := hwf.limit; dsimp only; omega),
    if_neg hcontrol, if_neg (fun h => h.2 (hwf.update h.1)),
    if_neg (fun h => h.1 (hwf.stream.mp h.2)), if_neg (fun h => h.2 (hwf.stream.mpr h.1))]

def session (cfg : Session) (close : Close) (r : FrameReader) (bs : List UInt8) :
    List Frame × Except IoError Unit :=
  outcome (FrameReader.read cfg) close ((FrameReader.read cfg).start r) (whole bs)

theorem awaitPayload_outcome (size : r.header.bytes.length = headerSize)
    (read : r.header.read = headerSize)
    (kept : r.parsed = some parsed) (room : r.payload.bytes.length = parsed.length)
    (unread : r.payload.read = 0) (hp : payload.length = parsed.length) (rest) : ∃ r', r'.Fresh ∧
      outcome (FrameReader.read cfg) close (FrameReader.awaitPayload parsed r)
          (whole (payload ++ rest)) =
        (⟨parsed.command, parsed.streamId, payload⟩ :: (session cfg close r' rest).1,
          (session cfg close r' rest).2) := by
  have hsteady := read_steady cfg
  have hfresh : (⟨⟨r.header.bytes, 0⟩, none, ⟨[], 0⟩⟩ : FrameReader).Fresh := ⟨size, rfl, rfl, rfl⟩
  refine ⟨_, hfresh, ?_⟩
  rcases payload with _ | ⟨b, bs⟩
  · have hempty : r.payload.bytes = [] := length_eq_zero_iff.mp (by rw [room, ← hp]; rfl)
    have hdone : ¬ r.payload.read < parsed.length := by rw [unread, ← hp]; exact lt_irrefl 0
    rw [FrameReader.awaitPayload, if_neg hdone, hempty, hsteady.outcome_frame (.frame hfresh)]
    rfl
  have hmore : r.payload.read < parsed.length := by rw [unread, ← hp]; exact Nat.succ_pos _
  have hok := Point.Ok.payload size read kept ⟨room, hmore⟩
  have hroom : r.payload.room = (b :: bs).length := by rw [Filling.room, room, unread, ← hp]; rfl
  rw [FrameReader.awaitPayload, if_pos hmore, hsteady.outcome_read_append hok hroom.symm]
  change outcome _ _ (FrameReader.awaitPayload parsed
    { r with payload := r.payload.put (b :: bs) }) _ = _
  rw [Filling.put_all unread (hp.trans room.symm), FrameReader.awaitPayload,
    if_neg (by dsimp only; omega), hsteady.outcome_frame (.frame hfresh)]
  rfl

theorem session_frame {cfg : Session} {f : Frame} (hwf : f.WellFormed cfg.version cfg.maxPayload)
    (hlen : f.payload.length < 65536) {r : FrameReader} (hr : r.Fresh) (rest close) :
    ∃ r', r'.Fresh ∧ session cfg close r (f.encode cfg.version ++ rest) =
      (f :: (session cfg close r' rest).1, (session cfg close r' rest).2) := by
  have hparse := parseHeader_frameHeader hwf hlen
  generalize hheader : frameHeader cfg.version f.command f.streamId
    (UInt16.ofNat f.payload.length) = header at hparse
  have hsize : header.length = headerSize := by rw [← hheader]; exact frameHeader_length _ _ _ _
  have hne : header ≠ [] := by intro h0; rw [h0] at hsize; cases hsize
  have hresume : (FrameReader.read cfg).resume .header r header =
      FrameReader.awaitPayload ⟨f.command, f.streamId, f.payload.length⟩
        { r with
          header := ⟨header, headerSize⟩
          payload := ⟨cfg.allocateVec f.payload.length, 0⟩
          parsed := some ⟨f.command, f.streamId, f.payload.length⟩ } := by
    change FrameReader.resume cfg .header r header = _
    rw [FrameReader.resume, if_neg hne, Filling.put_all hr.unread (hsize.trans hr.size.symm), hsize]
    simp only [FrameReader.awaitHeader, lt_irrefl, if_false, FrameReader.parse, hr.parsed,
      hparse, hr.payload]
  rw [session, hr.start, Frame.encode, hheader, append_assoc,
    (read_steady cfg).outcome_read_append hr.ok hsize, hresume]
  have hp : f.payload.length = (⟨f.command, f.streamId, f.payload.length⟩ : Header).length := rfl
  exact awaitPayload_outcome hsize rfl rfl (cfg.allocated _) rfl hp rest

theorem session_nil (hr : r.Fresh) : session cfg close r [] = ([], close.result) := by
  rw [session, hr.start, (read_steady cfg).outcome_read_nil hr.ok]
  cases close with
  | failed => rfl
  | eof =>
    change outcome _ _ (FrameReader.resume cfg .header r []) _ = _
    rw [FrameReader.resume, if_pos rfl, if_pos hr.unread]
    rfl

theorem session_frames (frames) (hwf : ∀ f ∈ frames, f.WellFormed cfg.version cfg.maxPayload)
    (hlen : ∀ f ∈ frames, f.payload.length < 65536) (r) (hr : r.Fresh) :
    session cfg close r (encodeAll cfg.version frames) = (frames, close.result) := by
  induction frames generalizing r with
  | nil => exact session_nil hr
  | cons f fs ih =>
    have hcons : encodeAll cfg.version (f :: fs) =
        f.encode cfg.version ++ encodeAll cfg.version fs := flatMap_cons
    obtain ⟨r', hr', hsession⟩ := session_frame (hwf f (mem_cons_self ..))
      (hlen f (mem_cons_self ..)) hr (encodeAll cfg.version fs) close
    have htail := ih (forall_mem_cons.mp hwf).2
      (forall_mem_cons.mp hlen).2 r' hr'
    rw [hcons, hsession, htail]

end Shoes.Transport.Smux
