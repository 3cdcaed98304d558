import Shoes.Lib.AsyncRead

/-! # Mux.Cool frames

A Mux.Cool frame is metadata of variable length and, if an option says so, data. The reader fills
four buffers one after the other and keeps all of them in `FrameReader`, since the session loop
drops the future that reads. -/
namespace Shoes.Transport.MuxCool
open Lib.Bytes Lib.Io Lib.AsyncRead

def statusNew : UInt8 := 0x01

def statusKeep : UInt8 := 0x02

def statusEnd : UInt8 := 0x03

def statusKeepAlive : UInt8 := 0x04

def optionData : UInt8 := 0x01

def optionError : UInt8 := 0x02

def networkTcp : UInt8 := 0x01

structure ParsedMetadata where
  streamId : UInt16
  status : UInt8
  hasData : Bool
  hasError : Bool
  deriving DecidableEq

def invalid {α : Type} (message : String) : Except IoError α := .error ⟨.invalidData, message⟩

/-- How many bytes the address takes. -/
def addressLength : List UInt8 → Except IoError Nat
  | [] => invalid "Mux.Cool address type is missing"
  | kind :: address =>
    if kind = 0x01 then .ok (1 + 4)
    else if kind = 0x02 then
      match address with
      | [] => invalid "Mux.Cool domain length is missing"
      | length :: domain =>
        if length = 0 then invalid "Mux.Cool domain is empty"
        else if domain.length < length.toNat then invalid "Mux.Cool domain is truncated"
        else if ¬ (domain.take length.toNat).all (fun b => decide (b < 128)) then
          invalid "Mux.Cool domain is not ASCII"
        else .ok (2 + length.toNat)
    else if kind = 0x03 then .ok (1 + 16)
    else invalid "Mux.Cool address type is unknown"

/-- The target is checked and not given back. -/
def parseNewMetadata (metadata : List UInt8) : Except IoError Unit :=
  if metadata.length < 4 then invalid "Mux.Cool New metadata is truncated"
  else if metadata.getD 0 0 ≠ networkTcp then
    invalid "Mux.Cool plugin transport supports TCP logical streams only"
  else do
    let consumed ← addressLength (metadata.drop 3)
    if (metadata.drop 3).length ≠ consumed then
      invalid "Mux.Cool New metadata has trailing address bytes"
    else pure ()

def checkStatus (metadata : List UInt8) : Except IoError Unit :=
  let status := metadata.getD 2 0
  if status = statusNew then parseNewMetadata (metadata.drop 4)
  else if status = statusKeep ∨ status = statusEnd ∨ status = statusKeepAlive then
    if metadata.length = 4 then pure ()
    else invalid "Mux.Cool control metadata has trailing bytes"
  else invalid "Mux.Cool frame has unknown status"

def parseMetadata (metadata : List UInt8) : Except IoError ParsedMetadata :=
  if metadata.length < 4 then invalid "Mux.Cool metadata is shorter than 4 bytes"
  else
    let options := metadata.getD 3 0
    if options &&& ~~~(optionData ||| optionError) ≠ 0 then
      invalid "Mux.Cool frame has unknown option bits"
    else do
      checkStatus metadata
      pure {
        streamId := u16FromBeBytes (metadata.getD 0 0) (metadata.getD 1 0)
        status := metadata.getD 2 0
        hasData := options &&& optionData ≠ 0
        hasError := options &&& optionError ≠ 0 }

/-! ## The reader -/

structure FrameReader where
  length : Filling
  metadata : Filling
  parsed : Option ParsedMetadata
  dataLength : Filling
  data : Filling
  deriving DecidableEq

def FrameReader.default : FrameReader := ⟨.zeroed 2, .zeroed 0, none, .zeroed 2, .zeroed 0⟩

inductive Locals
  | length
  | metadata (metadataLen : Nat)
  | dataLength (parsed : ParsedMetadata)
  | data (parsed : ParsedMetadata) (length : Nat)

abbrev Frame := ParsedMetadata × List UInt8

abbrev Point := Await FrameReader Locals (Except IoError (Option Frame))

def fieldLength (b : Filling) : Nat :=
  (u16FromBeBytes (b.bytes.getD 0 0) (b.bytes.getD 1 0)).toNat

/-- `if self.data.len() != length { self.data = vec![0u8; length] }`; what has been read of the
buffer stays as it is. -/
def sized (length : Nat) (b : Filling) : Filling :=
  if b.bytes.length ≠ length then ⟨List.replicate length 0, b.read⟩ else b

namespace FrameReader
variable (maxMetadata : Nat)

section
variable (parsed : ParsedMetadata) (r : FrameReader)

def finish : Point :=
  .ret (.ok (some (parsed, r.data.bytes))) default

def awaitData (parsed : ParsedMetadata) (length : Nat) (r : FrameReader) : Point :=
  if r.data.read < length then .read r.data.room (.data parsed length) r else finish parsed r

def awaitDataLength : Point :=
  if r.dataLength.read < 2 then .read r.dataLength.room (.dataLength parsed) r
  else
    let length := fieldLength r.dataLength
    awaitData parsed length { r with data := sized length r.data }

def afterMetadata : Point :=
  if parsed.hasData then awaitDataLength parsed r else finish parsed r

end

def awaitMetadata (metadataLen : Nat) (r : FrameReader) : Point :=
  if r.metadata.read < metadataLen then .read r.metadata.room (.metadata metadataLen) r
  else
    match parseMetadata r.metadata.bytes with
    | .error e => .ret (.error e) r
    | .ok parsed => afterMetadata parsed { r with parsed := some parsed }

def awaitLength (r : FrameReader) : Point :=
  if r.length.read < 2 then .read r.length.room .length r
  else
    match r.parsed with
    | some parsed => afterMetadata parsed r
    | none =>
      let metadataLen := fieldLength r.length
      if metadataLen > maxMetadata then
        .ret (invalid "Mux.Cool metadata exceeds configured limit") r
      else awaitMetadata metadataLen { r with metadata := sized metadataLen r.metadata }

def truncated (message : String) (r : FrameReader) : Point :=
  .ret (.error ⟨.unexpectedEof, message⟩) r

/-- A read has come to its end, of which nothing is the end of the stream. -/
def resume (l : Locals) (r : FrameReader) (got : List UInt8) : Point :=
  match l with
  | .length =>
    if got = [] then
      if r.length.read = 0 then .ret (.ok none) r
      else truncated "Mux.Cool metadata length truncated" r
    else awaitLength maxMetadata { r with length := r.length.put got }
  | .metadata metadataLen =>
    if got = [] then truncated "Mux.Cool metadata truncated" r
    else awaitMetadata metadataLen { r with metadata := r.metadata.put got }
  | .dataLength parsed =>
    if got = [] then truncated "Mux.Cool payload length truncated" r
    else awaitDataLength parsed { r with dataLength := r.dataLength.put got }
  | .data parsed length =>
    if got = [] then truncated "Mux.Cool payload truncated" r
    else awaitData parsed length { r with data := r.data.put got }

def read : Async FrameReader Locals (Except IoError (Option Frame)) :=
  ⟨awaitLength maxMetadata, resume maxMetadata⟩

end FrameReader

def readFrames (maxMetadata : Nat) (script : List Item) (close : Close) :
    List Frame × Except IoError Unit :=
  outcome (FrameReader.read maxMetadata) close ((FrameReader.read maxMetadata).start .default)
    script

/-! ## Every await can be resumed -/

/-- The metadata is still to be parsed. -/
structure FrameReader.Unparsed (r : FrameReader) : Prop where
  parsed : r.parsed = none
  dataLength : r.dataLength = .zeroed 2
  data : r.data = .zeroed 0

/-- What `FrameReader` holds at each point of `read`. -/
inductive Point.Ok (maxMetadata : Nat) : Point → Prop
  | length {r : FrameReader} (part : Filling.Part 2 r.length) (metadata : r.metadata = .zeroed 0)
      (later : r.Unparsed) :
      Ok maxMetadata (.read r.length.room .length r)
  | metadata {r : FrameReader} (read : r.length.read = 2)
      (limit : fieldLength r.length ≤ maxMetadata)
      (part : Filling.Part (fieldLength r.length) r.metadata) (later : r.Unparsed) :
      Ok maxMetadata (.read r.metadata.room (.metadata (fieldLength r.length)) r)
  | dataLength {r : FrameReader} {parsed : ParsedMetadata} (read : r.length.read = 2)
      (kept : r.parsed = some parsed) (hasData : parsed.hasData = true)
      (part : Filling.Part 2 r.dataLength) (later : r.data = .zeroed 0) :
      Ok maxMetadata (.read r.dataLength.room (.dataLength parsed) r)
  | data {r : FrameReader} {parsed : ParsedMetadata} (read : r.length.read = 2)
      (kept : r.parsed = some parsed) (hasData : parsed.hasData = true)
      (readLength : r.dataLength.read = 2)
      (part : Filling.Part (fieldLength r.dataLength) r.data) :
      Ok maxMetadata (.read r.data.room (.data parsed (fieldLength r.dataLength)) r)
  | frame {f : Frame} : Ok maxMetadata (.ret (.ok (some f)) .default)
  | none {r : FrameReader} : Ok maxMetadata (.ret (.ok none) r)
  | error {e : IoError} {r : FrameReader} : Ok maxMetadata (.ret (.error e) r)

theorem sized_of_length (h : b.bytes.length = n) : sized n b = b := by
  rw [sized, if_neg (by rw [h]; simp)]

theorem sized_zeroed (n) : sized n (.zeroed 0) = .zeroed n := by
  cases n with
  | zero | succ => rfl

section
variable {maxMetadata : Nat} {r : FrameReader} {parsed : ParsedMetadata}

section
variable (read : r.length.read = 2)
include read

section
variable (kept : r.parsed = some parsed)
include kept

theorem awaitData_ok (hasData : parsed.hasData = true)
    (readLength : r.dataLength.read = 2) (size : r.data.bytes.length = fieldLength r.dataLength) :
    Point.Ok maxMetadata (FrameReader.awaitData parsed (fieldLength r.dataLength) r) := by
  unfold FrameReader.awaitData
  split
  next more => exact .data read kept hasData readLength ⟨size, more⟩
  · exact .frame

theorem awaitDataLength_ok (hasData : parsed.hasData = true)
    (size : r.dataLength.bytes.length = 2) (le : r.dataLength.read ≤ 2) (later : r.data = .zeroed 0)
    : Point.Ok maxMetadata (FrameReader.awaitDataLength parsed r) := by
  unfold FrameReader.awaitDataLength
  split
  next more => exact .dataLength read kept hasData ⟨size, more⟩ later
  have hdata : ({ r with data := sized (fieldLength r.dataLength) r.data } :
      FrameReader).data.bytes.length = fieldLength r.dataLength := by
    rw [later, sized_zeroed]
    exact List.length_replicate
  exact awaitData_ok (r := { r with data := sized (fieldLength r.dataLength) r.data }) read kept
    hasData (by dsimp only; omega) hdata

theorem afterMetadata_ok (fresh : r.dataLength = .zeroed 2)
    (later : r.data = .zeroed 0) : Point.Ok maxMetadata (FrameReader.afterMetadata parsed r) := by
  unfold FrameReader.afterMetadata
  split
  next hasData =>
    exact awaitDataLength_ok read kept hasData (by rw [fresh]; rfl) (by rw [fresh]; decide) later
  · exact .frame

end

theorem awaitMetadata_ok (limit : fieldLength r.length ≤ maxMetadata)
    (size : r.metadata.bytes.length = fieldLength r.length) (later : r.Unparsed) :
    Point.Ok maxMetadata (FrameReader.awaitMetadata (fieldLength r.length) r) := by
  unfold FrameReader.awaitMetadata
  split
  next more => exact .metadata read limit ⟨size, more⟩ later
  split
  · exact .error
  · exact afterMetadata_ok read rfl later.dataLength later.data

end

theorem awaitLength_ok (size : r.length.bytes.length = 2) (le : r.length.read ≤ 2)
    (metadata : r.metadata = .zeroed 0) (later : r.Unparsed) :
    Point.Ok maxMetadata (FrameReader.awaitLength maxMetadata r) := by
  unfold FrameReader.awaitLength
  split
  next more => exact .length ⟨size, more⟩ metadata later
  split
  next parsed hparsed => cases later.parsed.symm.trans hparsed
  dsimp only
  split
  · exact .error
  rename_i hlimit
  rw [metadata, sized_zeroed]
  exact awaitMetadata_ok (r := { r with metadata := .zeroed (fieldLength r.length) })
    (by dsimp only; omega) (Nat.le_of_not_gt hlimit) List.length_replicate
    { later with }

end

variable (maxMetadata : Nat)

theorem default_start :
    (FrameReader.read maxMetadata).start .default = .read 2 .length .default := rfl

theorem default_ok : Point.Ok maxMetadata (.read 2 .length .default) := by
  have hpart : Filling.Part 2 FrameReader.default.length := ⟨rfl, by decide⟩
  exact .length hpart rfl ⟨rfl, rfl, rfl⟩

theorem resume_append (hok : Point.Ok maxMetadata (.read n l r)) (has : as ≠ []) (hbs : bs ≠ [])
    (hle : as.length + bs.length ≤ n) :
    ∃ l' r', FrameReader.resume maxMetadata l r as = .read (n - as.length) l' r' ∧
      FrameReader.resume maxMetadata l r (as ++ bs) = FrameReader.resume maxMetadata l' r' bs := by
  have hne : as ++ bs ≠ [] := by simp [has]
  cases hok with
  | length part =>
    obtain ⟨hread, hrest, hput⟩ := part.put_append hbs hle
    refine ⟨.length, { r with length := r.length.put as }, ?_, ?_⟩
    · simp only [FrameReader.resume, if_neg has, FrameReader.awaitLength, if_pos hread, hrest]
    · simp only [FrameReader.resume, if_neg hbs, if_neg hne, hput]
  | metadata read limit part =>
    obtain ⟨hread, hrest, hput⟩ := part.put_append hbs hle
    refine ⟨.metadata (fieldLength r.length), { r with metadata := r.metadata.put as }, ?_, ?_⟩
    · simp only [FrameReader.resume, if_neg has, FrameReader.awaitMetadata, if_pos hread, hrest]
    · simp only [FrameReader.resume, if_neg hbs, if_neg hne, hput]
  | @dataLength _ parsed read kept hasData part later =>
    obtain ⟨hread, hrest, hput⟩ := part.put_append hbs hle
    refine ⟨.dataLength parsed, { r with dataLength := r.dataLength.put as }, ?_, ?_⟩
    · simp only [FrameReader.resume, if_neg has, FrameReader.awaitDataLength, if_pos hread, hrest]
    · simp only [FrameReader.resume, if_neg hbs, if_neg hne, hput]
  | @data _ parsed read kept hasData readLength part =>
    obtain ⟨hread, hrest, hput⟩ := part.put_append hbs hle
    refine ⟨.data parsed (fieldLength r.dataLength), { r with data := r.data.put as }, ?_, ?_⟩
    · simp only [FrameReader.resume, if_neg has, FrameReader.awaitData, if_pos hread, hrest]
    · simp only [FrameReader.resume, if_neg hbs, if_neg hne, hput]

/-- **The reader is resumable.** -/
theorem read_steady : Steady (FrameReader.read maxMetadata) (Point.Ok maxMetadata) where
  restart := by
    intro n l r hok
    change FrameReader.awaitLength maxMetadata r = _
    unfold FrameReader.awaitLength
    cases hok with
    | length part => rw [if_pos part.more]
    | metadata read limit part later =>
      rw [if_neg (by omega)]
      split
      next hparsed => cases later.parsed.symm.trans hparsed
      rw [if_neg (by omega), sized_of_length part.size]
      exact if_pos part.more
    | dataLength read kept hasData part =>
      rw [if_neg (by omega), kept]
      dsimp only
      rw [FrameReader.afterMetadata, if_pos hasData]
      exact if_pos part.more
    | data read kept hasData readLength part =>
      rw [if_neg (by omega), kept]
      dsimp only
      rw [FrameReader.afterMetadata, if_pos hasData, FrameReader.awaitDataLength, if_neg (by omega)]
      dsimp only
      rw [sized_of_length part.size]
      exact if_pos part.more
  room := by
    intro n l r hok
    cases hok with
    | length part
    | metadata read limit part
    | dataLength read kept hasData part
    | data read kept hasData readLength part => exact part.room_pos
  resume := by
    intro n l r bs hok hbs hle
    change Point.Ok maxMetadata (FrameReader.resume maxMetadata l r bs)
    unfold FrameReader.resume
    cases hok with
    | length part metadata later =>
      obtain ⟨hsize, hread⟩ := part.put hle
      rw [if_neg hbs]
      exact awaitLength_ok hsize hread metadata { later with }
    | metadata read limit part later =>
      obtain ⟨hsize, hread⟩ := part.put hle
      dsimp only
      rw [if_neg hbs]
      exact awaitMetadata_ok (r := { r with metadata := r.metadata.put bs }) read limit hsize
        { later with }
    | dataLength read kept hasData part later =>
      obtain ⟨hsize, hread⟩ := part.put hle
      dsimp only
      rw [if_neg hbs]
      exact awaitDataLength_ok read kept hasData hsize hread later
    | data read kept hasData readLength part =>
      obtain ⟨hsize, _⟩ := part.put hle
      dsimp only
      rw [if_neg hbs]
      exact awaitData_ok (r := { r with data := r.data.put bs }) read kept hasData readLength hsize
  split := fun hok has hbs hle => resume_append maxMetadata hok has hbs hle
  eof := by
    intro n l r hok
    change ∃ result r', FrameReader.resume maxMetadata l r [] = .ret result r' ∧ _
    unfold FrameReader.resume
    cases hok with
    | length =>
      dsimp only
      rw [if_pos rfl]
      split <;> exact ⟨_, _, rfl, by simp⟩
    | metadata | dataLength | data => exact ⟨_, _, rfl, by simp⟩
  again := by
    intro f r hok
    cases hok with
    | frame => exact ⟨_, _, _, default_start maxMetadata, default_ok maxMetadata⟩

end Shoes.Transport.MuxCool
