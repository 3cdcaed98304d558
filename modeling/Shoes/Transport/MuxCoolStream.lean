import Shoes.Transport.MuxCool
import Shoes.Transport.VirtualStream

/-! # Mux.Cool streams

What each frame takes of the stream, and that what the session writer writes is read back. -/
namespace Shoes.Transport.MuxCoolStream
open Lib.Bytes Lib.Io Lib.AsyncRead VirtualStream List
open MuxCool

/-! ## What a frame takes of the stream -/

/-- The bytes of a frame: its metadata behind their length and, if its options say so, its data
behind theirs. -/
structure Spells (maxMetadata : Nat) (bs : List UInt8) (f : Frame) : Prop where
  ex : ∃ metadata, parseMetadata metadata = .ok f.1 ∧ metadata.length ≤ maxMetadata ∧
    metadata.length < 65536 ∧
    if f.1.hasData then
      f.2.length < 65536 ∧
      bs = u16ToBeBytes (.ofNat metadata.length) ++ metadata ++
        (u16ToBeBytes (.ofNat f.2.length) ++ f.2)
    else f.2 = [] ∧ bs = u16ToBeBytes (.ofNat metadata.length) ++ metadata

def session (maxMetadata : Nat) (close : Close) (bs : List UInt8) :
    List Frame × Except IoError Unit :=
  outcome (FrameReader.read maxMetadata) close ((FrameReader.read maxMetadata).start .default)
    (whole bs)

theorem session_after (maxMetadata close f rest) :
    outcome (FrameReader.read maxMetadata) close (.ret (.ok (some f)) .default) (whole rest) =
      (f :: (session maxMetadata close rest).1, (session maxMetadata close rest).2) :=
  (read_steady maxMetadata).outcome_frame .frame rest

variable {bs : List UInt8}

section
variable {maxMetadata : Nat} {close : Close}

/-- The reader with a length, and with metadata of that length. -/
def withLength (field : List UInt8) : FrameReader :=
  { FrameReader.default with length := ⟨field, 2⟩ }

def withMetadata (field metadata : List UInt8) : FrameReader :=
  { withLength field with metadata := ⟨metadata, metadata.length⟩ }

def withDataLength (field metadata : List UInt8) (parsed : ParsedMetadata)
    (dataField : List UInt8) : FrameReader :=
  { withMetadata field metadata with parsed := some parsed, dataLength := ⟨dataField, 2⟩ }

variable {field : List UInt8}

theorem session_length (h : field.length = 2) (rest) : session maxMetadata close (field ++ rest) =
      outcome (FrameReader.read maxMetadata) close
        (FrameReader.awaitLength maxMetadata (withLength field)) (whole rest) := by
  rw [session, default_start,
    (read_steady maxMetadata).outcome_read_append (default_ok maxMetadata) h]
  change outcome _ _ (FrameReader.resume maxMetadata .length .default field) _ = _
  have hne : field ≠ [] := by intro h0; rw [h0] at h; cases h
  have hput : FrameReader.default.length.put field = ⟨field, 2⟩ := by rw [Filling.put_all rfl h, h]
  rw [FrameReader.resume, if_neg hne, hput]
  rfl

theorem awaitLength_withLength (hlimit : fieldLength ⟨field, 2⟩ ≤ maxMetadata) :
    FrameReader.awaitLength maxMetadata (withLength field) =
      FrameReader.awaitMetadata (fieldLength ⟨field, 2⟩)
        { withLength field with metadata := .zeroed (fieldLength ⟨field, 2⟩) } := by
  change (if fieldLength ⟨field, 2⟩ > maxMetadata then _ else _) = _
  rw [if_neg (not_lt.mpr hlimit)]
  have hsized := sized_zeroed (fieldLength ⟨field, 2⟩)
  exact congrArg (fun b => FrameReader.awaitMetadata (fieldLength ⟨field, 2⟩)
    { withLength field with metadata := b }) hsized

theorem zeroed_put (h : got.length = n) : (Filling.zeroed n).put got = ⟨got, got.length⟩ :=
  Filling.put_all rfl (h.trans length_replicate.symm)

theorem zeroed_room (n) : (Filling.zeroed n).room = n := by
  simp [Filling.room, Filling.zeroed]

theorem metadata_read (hlen : fieldLength ⟨field, 2⟩ = len)
    (hlimit : len ≤ maxMetadata) (hmore : 0 < len) :
    FrameReader.awaitMetadata len { withLength field with metadata := .zeroed len } =
        .read len (.metadata len) { withLength field with metadata := .zeroed len } ∧
      Point.Ok maxMetadata (.read len (.metadata len)
        { withLength field with metadata := .zeroed len }) := by
  have hread : FrameReader.awaitMetadata len { withLength field with metadata := .zeroed len } =
      .read len (.metadata len) { withLength field with metadata := .zeroed len } := by
    change (if 0 < len then _ else _) = _
    rw [if_pos hmore, zeroed_room]
  have hstage := awaitMetadata_ok (r := { withLength field with metadata := .zeroed len }) rfl
    (hlen.le.trans hlimit) (length_replicate.trans hlen.symm) ⟨rfl, rfl, rfl⟩
  change Point.Ok _ (FrameReader.awaitMetadata (fieldLength ⟨field, 2⟩) _) at hstage
  rw [hlen, hread] at hstage
  exact ⟨hread, hstage⟩

variable {metadata : List UInt8}

theorem awaitMetadata_outcome (hlen : fieldLength ⟨field, 2⟩ = len) (hlimit : len ≤ maxMetadata)
    (h : metadata.length = len) (rest) : outcome (FrameReader.read maxMetadata) close
        (FrameReader.awaitMetadata len { withLength field with metadata := .zeroed len })
        (whole (metadata ++ rest)) =
      outcome (FrameReader.read maxMetadata) close
        (FrameReader.awaitMetadata len (withMetadata field metadata)) (whole rest) := by
  rcases metadata with _ | ⟨b, bs⟩
  · cases h
    rfl
  obtain ⟨hread, hok⟩ := metadata_read hlen hlimit (by rw [← h]; exact Nat.succ_pos _)
  rw [hread, (read_steady maxMetadata).outcome_read_append hok h]
  change outcome _ _ (FrameReader.awaitMetadata len
    { withLength field with metadata := (Filling.zeroed len).put (b :: bs) }) _ = _
  rw [zeroed_put h]
  rfl

/-- The reader with its metadata parsed. -/
def withParsed (field metadata : List UInt8) (parsed : ParsedMetadata) : FrameReader :=
  { withMetadata field metadata with parsed := some parsed }

theorem awaitMetadata_withMetadata (h : metadata.length = len) :
    FrameReader.awaitMetadata len (withMetadata field metadata) =
      match parseMetadata metadata with
      | .error e => .ret (.error e) (withMetadata field metadata)
      | .ok parsed => FrameReader.afterMetadata parsed (withParsed field metadata parsed) := by
  rw [FrameReader.awaitMetadata, if_neg (by rw [← h]; exact lt_irrefl _)]
  rfl

variable {parsed : ParsedMetadata}

section
variable (hasData : parsed.hasData = true)
include hasData

theorem dataLength_read :
    FrameReader.afterMetadata parsed (withParsed field metadata parsed) =
        .read 2 (.dataLength parsed) (withParsed field metadata parsed) ∧
      Point.Ok maxMetadata (.read 2 (.dataLength parsed) (withParsed field metadata parsed)) := by
  have hpart : Filling.Part 2 (withParsed field metadata parsed).dataLength :=
    ⟨rfl, Nat.zero_lt_two⟩
  refine ⟨?_, .dataLength rfl rfl hasData hpart rfl⟩
  rw [FrameReader.afterMetadata, if_pos hasData]
  rfl

theorem afterMetadata_outcome (h : dataField.length = 2) (rest) :
    outcome (FrameReader.read maxMetadata) close
        (FrameReader.afterMetadata parsed (withParsed field metadata parsed))
        (whole (dataField ++ rest)) =
      outcome (FrameReader.read maxMetadata) close
        (FrameReader.awaitData parsed (fieldLength ⟨dataField, 2⟩)
          { withDataLength field metadata parsed dataField with
            data := .zeroed (fieldLength ⟨dataField, 2⟩) }) (whole rest) := by
  have hne : dataField ≠ [] := by intro h0; rw [h0] at h; cases h
  have hput : (Filling.zeroed 2).put dataField = ⟨dataField, 2⟩ := by rw [zeroed_put h, h]
  obtain ⟨hread, hok⟩ := dataLength_read hasData
  rw [hread, (read_steady maxMetadata).outcome_read_append hok h]
  change outcome _ _ (FrameReader.resume maxMetadata (.dataLength parsed) _ dataField) _ = _
  rw [FrameReader.resume]
  rw [if_neg hne]
  change outcome _ _ (FrameReader.awaitDataLength parsed
    { withParsed field metadata parsed with dataLength := (Filling.zeroed 2).put dataField }) _ = _
  rw [hput, FrameReader.awaitDataLength, if_neg (lt_irrefl 2)]
  have hsized := sized_zeroed (fieldLength ⟨dataField, 2⟩)
  exact congrArg (fun b => outcome (FrameReader.read maxMetadata) close
    (FrameReader.awaitData parsed (fieldLength ⟨dataField, 2⟩)
      { withDataLength field metadata parsed dataField with data := b }) (whole rest)) hsized

section
variable (hlen : fieldLength ⟨dataField, 2⟩ = len)
include hlen

theorem data_read
    (hmore : 0 < len) : FrameReader.awaitData parsed len
        { withDataLength field metadata parsed dataField with data := .zeroed len } =
        .read len (.data parsed len)
          { withDataLength field metadata parsed dataField with data := .zeroed len } ∧
      Point.Ok maxMetadata (.read len (.data parsed len)
        { withDataLength field metadata parsed dataField with data := .zeroed len }) := by
  have hread : FrameReader.awaitData parsed len
      { withDataLength field metadata parsed dataField with data := .zeroed len } =
      .read len (.data parsed len)
        { withDataLength field metadata parsed dataField with data := .zeroed len } := by
    change (if 0 < len then _ else _) = _
    rw [if_pos hmore, zeroed_room]
  have hstage : Point.Ok maxMetadata (FrameReader.awaitData parsed (fieldLength ⟨dataField, 2⟩)
      { withDataLength field metadata parsed dataField with data := .zeroed len }) :=
    awaitData_ok (r := { withDataLength field metadata parsed dataField with data := .zeroed len })
      rfl rfl hasData rfl (length_replicate.trans hlen.symm)
  rw [hlen, hread] at hstage
  exact ⟨hread, hstage⟩

theorem awaitData_outcome
    (h : data.length = len) (rest) : outcome (FrameReader.read maxMetadata) close
        (FrameReader.awaitData parsed len
          { withDataLength field metadata parsed dataField with data := .zeroed len })
        (whole (data ++ rest)) =
      ((parsed, data) :: (session maxMetadata close rest).1,
        (session maxMetadata close rest).2) := by
  refine Eq.trans ?_ (session_after maxMetadata close (parsed, data) rest)
  rcases data with _ | ⟨b, bs⟩
  · cases h
    rfl
  obtain ⟨hread, hok⟩ := data_read hasData hlen (by rw [← h]; exact Nat.succ_pos _)
  rw [hread, (read_steady maxMetadata).outcome_read_append hok h]
  change outcome _ _ (FrameReader.awaitData parsed len
    { withDataLength field metadata parsed dataField with
      data := (Filling.zeroed len).put (b :: bs) }) _ = _
  rw [zeroed_put h, FrameReader.awaitData, if_neg (by dsimp only; omega)]
  rfl

end

end

theorem fieldLength_ofNat (h : n < 65536) : fieldLength ⟨u16ToBeBytes (.ofNat n), 2⟩ = n := by
  refine (congrArg UInt16.toNat (u16FromBeBytes_toBeBytes _)).trans ?_
  rw [UInt16.toNat_ofNat']
  omega

theorem toBeBytes_fieldLength (h : field.length = 2) :
    u16ToBeBytes (.ofNat (fieldLength ⟨field, 2⟩)) = field ∧ fieldLength ⟨field, 2⟩ < 65536 := by
  obtain ⟨hi, lo, rfl⟩ := length_eq_two.mp h
  have hhi := hi.toNat_lt
  have hlo := lo.toNat_lt
  refine ⟨?_, UInt16.toNat_lt _⟩
  change u16ToBeBytes (.ofNat (u16FromBeBytes hi lo).toNat) = _
  rw [UInt16.ofNat_toNat]
  simp only [u16ToBeBytes, u16FromBeBytes_toNat, List.cons.injEq, and_true]
  refine ⟨UInt8.toNat_inj.mp ?_, UInt8.toNat_inj.mp ?_⟩
  · rw [UInt8.toNat_ofNat']
    omega
  rw [UInt16.toNat_toUInt8, u16FromBeBytes_toNat]
  omega

/-- **A frame that is all there is read, and nothing behind it.** -/
theorem session_frame (h : Spells maxMetadata bs f) (rest) :
    session maxMetadata close (bs ++ rest) =
      (f :: (session maxMetadata close rest).1, (session maxMetadata close rest).2) := by
  obtain ⟨metadata, hparse, hlimit, hshort, hdata⟩ := h.ex
  obtain ⟨parsed, _⟩ := f
  have hfield := fieldLength_ofNat hshort
  have hmetadata (tail : List UInt8) :
      session maxMetadata close (u16ToBeBytes (.ofNat metadata.length) ++ metadata ++ tail) =
        outcome (FrameReader.read maxMetadata) close (FrameReader.afterMetadata parsed
          (withParsed (u16ToBeBytes (.ofNat metadata.length)) metadata parsed)) (whole tail) := by
    rw [append_assoc, session_length rfl, awaitLength_withLength (by omega), hfield,
      awaitMetadata_outcome hfield hlimit rfl, awaitMetadata_withMetadata rfl, hparse]
  split at hdata
  next hasData =>
    obtain ⟨hlen, rfl⟩ := hdata
    have hdataField := fieldLength_ofNat hlen
    rw [append_assoc, hmetadata, append_assoc, afterMetadata_outcome hasData rfl,
      hdataField, awaitData_outcome hasData hdataField rfl]
  rename_i hnone
  obtain ⟨rfl, rfl⟩ := hdata
  rw [hmetadata, FrameReader.afterMetadata, if_neg hnone]
  exact session_after maxMetadata close (parsed, []) rest

theorem exists_append (h : n ≤ bs.length) : ∃ as rest, bs = as ++ rest ∧ as.length = n :=
  ⟨bs.take n, bs.drop n, (take_append_drop n bs).symm, length_take_of_le h⟩

theorem session_cases (bs) : (session maxMetadata close bs).1 = [] ∨
      ∃ piece f rest, bs = piece ++ rest ∧ Spells maxMetadata piece f := by
  have hsteady := read_steady maxMetadata
  by_cases hlong : bs.length < 2
  · exact .inl (hsteady.outcome_short (default_ok maxMetadata) hlong)
  obtain ⟨field, bs, rfl, hfield⟩ := exists_append (not_lt.mp hlong)
  obtain ⟨hspelled, hshort⟩ := toBeBytes_fieldLength hfield
  rw [session_length hfield]
  generalize hlen : fieldLength ⟨field, 2⟩ = len at hspelled hshort
  by_cases hlimit : maxMetadata < len
  · refine .inl ?_
    have herror : FrameReader.awaitLength maxMetadata (withLength field) =
        .ret (invalid "Mux.Cool metadata exceeds configured limit") (withLength field) := by
      change (if fieldLength ⟨field, 2⟩ > maxMetadata then _ else _) = _
      rw [if_pos (by omega)]
    rw [herror]
    rfl
  rw [awaitLength_withLength (by omega), hlen]
  by_cases hbs : bs.length < len
  · obtain ⟨hread, hok⟩ := metadata_read hlen (not_lt.mp hlimit) (by omega)
    rw [hread]
    exact .inl (hsteady.outcome_short hok hbs)
  obtain ⟨metadata, bs, rfl, hmetadata⟩ := exists_append (not_lt.mp hbs)
  rw [awaitMetadata_outcome hlen (not_lt.mp hlimit) hmetadata, awaitMetadata_withMetadata hmetadata]
  rcases hparse : parseMetadata metadata with _ | parsed
  · exact .inl rfl
  dsimp only
  subst hmetadata
  by_cases hasData : parsed.hasData = true
  · by_cases htwo : bs.length < 2
    · obtain ⟨hread, hok⟩ := dataLength_read hasData
      rw [hread]
      exact .inl (hsteady.outcome_short hok htwo)
    obtain ⟨dataField, bs, rfl, hdataField⟩ := exists_append (not_lt.mp htwo)
    obtain ⟨hdataSpelled, hdataShort⟩ := toBeBytes_fieldLength hdataField
    rw [afterMetadata_outcome hasData hdataField]
    generalize hdataLen : fieldLength ⟨dataField, 2⟩ = dataLen at hdataSpelled hdataShort
    by_cases hdata : bs.length < dataLen
    · obtain ⟨hread, hok⟩ := data_read hasData hdataLen (by omega)
      rw [hread]
      exact .inl (hsteady.outcome_short hok hdata)
    obtain ⟨data, rest, rfl, rfl⟩ := exists_append (not_lt.mp hdata)
    refine .inr ⟨field ++ metadata ++ (dataField ++ data), (parsed, data), rest, by simp, ?_⟩
    refine ⟨metadata, hparse, not_lt.mp hlimit, hshort, ?_⟩
    rw [if_pos hasData, hspelled, hdataSpelled]
    exact ⟨hdataShort, rfl⟩
  refine .inr ⟨field ++ metadata, (parsed, []), bs, by simp, ?_⟩
  refine ⟨metadata, hparse, not_lt.mp hlimit, hshort, ?_⟩
  rw [if_neg hasData, hspelled]
  exact ⟨rfl, rfl⟩

theorem Spells.length_pos (h : Spells maxMetadata bs f) : 0 < bs.length := by
  obtain ⟨_, -, -, -, hdata⟩ := h.ex
  split at hdata
  · obtain ⟨-, rfl⟩ := hdata
    simp
  obtain ⟨-, rfl⟩ := hdata
  simp

theorem session_pieces (bs) : ∃ pieces rest, bs = pieces.flatten ++ rest ∧
      List.Forall₂ (Spells maxMetadata) pieces (session maxMetadata close bs).1 ∧
      (session maxMetadata close rest).1 = [] := by
  induction hn : bs.length using Nat.strong_induction_on generalizing bs with
  | _ n ih =>
    subst hn
    rcases session_cases bs with hnone | ⟨piece, f, rest, rfl, hspells⟩
    · refine ⟨[], bs, rfl, ?_, hnone⟩
      rw [hnone]
      exact .nil
    have hlt : rest.length < (piece ++ rest).length := by
      have := hspells.length_pos
      rw [length_append]
      omega
    obtain ⟨pieces, last, hrest, hpieces, hlast⟩ := ih _ hlt rest rfl
    refine ⟨piece :: pieces, last, ?_, ?_, hlast⟩
    · rw [flatten_cons, append_assoc, ← hrest]
    rw [session_frame hspells]
    exact .cons hspells hpieces

end

/-! ## The session writer -/

def writeFrame (streamId : UInt16) (status : UInt8) (data : List UInt8) :
    Except IoError (List UInt8) :=
  if data = [] then .ok (u16ToBeBytes 4 ++ u16ToBeBytes streamId ++ [status, 0])
  else if data.length < 65536 then
    .ok (u16ToBeBytes 4 ++ u16ToBeBytes streamId ++ [status, optionData] ++
      u16ToBeBytes (.ofNat data.length) ++ data)
  else invalid "Mux.Cool payload exceeds 65535 bytes"

/-- `write_data_frame`: the header goes into the room in front of the payload. -/
def writeDataFrame (streamId : UInt16) (frame : OutboundFrame) : Except IoError (List UInt8) :=
  if frame.payload = [] then writeFrame streamId statusKeep []
  else if frame.payload.length < 65536 then
    .ok (frame.intoFrame (u16ToBeBytes 4 ++ u16ToBeBytes streamId ++ [statusKeep, optionData] ++
      u16ToBeBytes (.ofNat frame.payload.length)))
  else invalid "Mux.Cool payload exceeds 65535 bytes"

/-- `u16::try_from`. -/
def narrow (streamId : UInt32) : Except IoError UInt16 :=
  if streamId.toNat < 65536 then .ok (.ofNat streamId.toNat)
  else invalid "Mux.Cool stream ID exceeds u16"

/-- What the session writer writes for a command. -/
def writeCommand : OutboundCommand → Except IoError (List UInt8)
  | .data streamId frame => do writeDataFrame (← narrow streamId) frame
  | .finished streamId => do writeFrame (← narrow streamId) statusEnd []
  | .barrier => .ok []

/-- The frame of a command. -/
def frameOf : OutboundCommand → Option Frame
  | .data streamId frame =>
    some (⟨.ofNat streamId.toNat, statusKeep, !frame.payload.isEmpty, false⟩, frame.payload)
  | .finished streamId => some (⟨.ofNat streamId.toNat, statusEnd, false, false⟩, [])
  | .barrier => none

theorem narrow_ok {streamId id} (h : narrow streamId = .ok id) :
    id = .ofNat streamId.toNat ∧ streamId.toNat < 65536 := by
  unfold narrow at h
  split at h <;> cases h
  rename_i hlt
  exact ⟨rfl, hlt⟩

theorem parseMetadata_control (streamId) (hasData : Bool)
    (h : status = statusKeep ∨ status = statusEnd) :
    parseMetadata (u16ToBeBytes streamId ++ [status, if hasData then optionData else 0]) =
      .ok ⟨streamId, status, hasData, false⟩ := by
  have hid := u16FromBeBytes_toBeBytes streamId
  unfold parseMetadata
  rw [if_neg (by simp)]
  change (if (if hasData then optionData else 0) &&& ~~~(optionData ||| optionError) ≠ 0 then _
    else _) = _
  rw [if_neg (by cases hasData <;> decide)]
  have hoptions : decide ((if hasData then optionData else 0) &&& optionData ≠ 0) = hasData ∧
      decide ((if hasData then optionData else 0) &&& optionError ≠ 0) = false := by
    cases hasData <;> decide
  have hstatus : checkStatus (u16ToBeBytes streamId ++
      [status, if hasData then optionData else 0]) = .ok () := by
    rcases h with rfl | rfl <;> rfl
  rw [hstatus]
  change Except.ok (⟨u16FromBeBytes (UInt8.ofNat (streamId.toNat / 256)) streamId.toUInt8, status,
    decide ((if hasData then optionData else 0) &&& optionData ≠ 0),
    decide ((if hasData then optionData else 0) &&& optionError ≠ 0)⟩ : ParsedMetadata) = _
  rw [hid, hoptions.1, hoptions.2]

theorem writeFrame_spells (hmax : 4 ≤ maxMetadata)
    (hstatus : status = statusKeep ∨ status = statusEnd)
    (h : writeFrame streamId status data = .ok bs) :
    Spells maxMetadata bs (⟨streamId, status, !data.isEmpty, false⟩, data) := by
  have hparse := parseMetadata_control streamId (!data.isEmpty) hstatus
  refine ⟨_, hparse, hmax, by simp, ?_⟩
  unfold writeFrame at h
  split at h
  next hempty =>
    subst hempty
    cases h
    exact ⟨rfl, rfl⟩
  rename_i hne
  split at h <;> cases h
  rename_i hlen
  have hdata : (!data.isEmpty) = true := by simpa using hne
  simp only [hdata]
  exact ⟨hlen, by simp⟩

theorem writeCommand_spells (hmax : 4 ≤ maxMetadata) (h : writeCommand c = .ok bs) :
    (∃ f, frameOf c = some f ∧ Spells maxMetadata bs f) ∨ (frameOf c = none ∧ bs = []) := by
  cases c with
  | data streamId frame =>
    obtain ⟨_, hid, h⟩ := exists_of_bind_ok h
    obtain ⟨rfl, -⟩ := narrow_ok hid
    exact .inl ⟨_, rfl, writeFrame_spells hmax (.inl rfl) h⟩
  | finished streamId =>
    obtain ⟨_, hid, h⟩ := exists_of_bind_ok h
    obtain ⟨rfl, -⟩ := narrow_ok hid
    exact .inl ⟨_, rfl, writeFrame_spells hmax (.inr rfl) h⟩
  | barrier =>
    cases h
    exact .inr ⟨rfl, rfl⟩

theorem session_nil (maxMetadata close) : session maxMetadata close [] = ([], close.result) := by
  rw [session, default_start, (read_steady maxMetadata).outcome_read_nil (default_ok maxMetadata)]
  cases close <;> rfl

theorem session_commands (hmax : 4 ≤ maxMetadata) (close : Close) (commands : List OutboundCommand)
    (pieces : List (List UInt8)) (h : commands.mapM writeCommand = .ok pieces) :
    session maxMetadata close pieces.flatten = (commands.filterMap frameOf, close.result) := by
  induction commands generalizing pieces with
  | nil =>
    cases h
    exact session_nil maxMetadata close
  | cons c cs ih =>
    obtain ⟨_, rest, hc, hcs, rfl⟩ := exists_of_mapM_ok h
    rw [flatten_cons]
    rcases writeCommand_spells hmax hc with ⟨f, hf, hspells⟩ | ⟨hf, rfl⟩
    · rw [session_frame hspells, ih rest hcs, filterMap_cons_some hf]
    · rw [nil_append, ih rest hcs, filterMap_cons_none hf]

/-- **Cancellation-safe Mux.Cool framing.** Wherever the stream is cut and the read is dropped, the
frames and the error after them are those of one uninterrupted read. Each frame takes its metadata
and its data, if it has any, and nothing else. What the session writer writes for its commands is
read back with the session id and the data it was given. -/
theorem mux_cool_frames_survive_cancellation (maxMetadata : Nat) (hmax : 4 ≤ maxMetadata)
    (script : List Item) (close : Close) : readFrames maxMetadata script close =
      readFrames maxMetadata (whole (scriptBytes script)) close ∧
    (∃ pieces rest, scriptBytes script = pieces.flatten ++ rest ∧
      List.Forall₂ (Spells maxMetadata) pieces (readFrames maxMetadata script close).1 ∧
      (readFrames maxMetadata (whole rest) close).1 = []) ∧
    (∀ bs f rest, Spells maxMetadata bs f → scriptBytes script = bs ++ rest →
      readFrames maxMetadata script close =
        (f :: (readFrames maxMetadata (whole rest) close).1,
          (readFrames maxMetadata (whole rest) close).2)) ∧
    (∀ (commands : List OutboundCommand) (pieces : List (List UInt8)),
      commands.mapM writeCommand = .ok pieces → scriptBytes script = pieces.flatten →
      readFrames maxMetadata script close = (commands.filterMap frameOf, close.result)) := by
  have hwhole : readFrames maxMetadata script close =
      session maxMetadata close (scriptBytes script) := by
    have hok : Point.Ok maxMetadata ((FrameReader.read maxMetadata).start .default) := by
      rw [default_start]
      exact default_ok maxMetadata
    exact (read_steady maxMetadata).outcome_whole hok script
  refine ⟨hwhole, ?_, ?_, ?_⟩
  · rw [hwhole]
    exact session_pieces (scriptBytes script)
  · intro bs f rest hspells hbytes
    rw [hwhole, hbytes]
    exact session_frame hspells rest
  intro commands pieces hwrite hbytes
  rw [hwhole, hbytes]
  exact session_commands hmax close commands pieces hwrite

/-- A payload and the end of its stream, cut inside the metadata and inside the payload, with both
reads dropped there. -/
theorem mux_cool_frames_survive_cancellation_cut : 4 ≤ 1024 ∧
      readFrames 1024
        [.bytes 0 [4, 0], .pending true, .bytes 7 [2, 1, 0, 3, 10], .pending true,
          .bytes 20 [30, 0, 4, 0, 7, 3, 0]] .eof =
        ([(⟨7, statusKeep, true, false⟩, [10, 20, 30]), (⟨7, statusEnd, false, false⟩, [])],
          .ok ()) :=
  ⟨by decide, (mux_cool_frames_survive_cancellation 1024 (by decide) _ .eof).2.2.2
    [.data 7 (.copyFrom [10, 20, 30]), .finished 7] _ rfl (by decide)⟩

/-- Metadata of a New frame for an IPv4 target. -/
def newMetadata (streamId port : UInt16) (a b c d : UInt8) : List UInt8 :=
  u16ToBeBytes streamId ++ [statusNew, 0, networkTcp] ++ u16ToBeBytes port ++ [0x01, a, b, c, d]

/-- The target of a New frame cannot be had from what the reader returns. -/
theorem new_target_not_given_back :
    ¬ ∃ targetOf : Frame → UInt16 × List UInt8, ∀ (port : UInt16) (a b c d : UInt8),
      (readFrames 1024 (whole (u16ToBeBytes 12 ++ newMetadata 7 port a b c d)) .eof).1.map
        targetOf = [(port, [a, b, c, d])] := by
  rintro ⟨_, h⟩
  have hfirst : (readFrames 1024 (whole (u16ToBeBytes 12 ++ newMetadata 7 80 1 1 1 1)) .eof).1 =
      [(⟨7, statusNew, false, false⟩, [])] := by decide
  have hsecond : (readFrames 1024 (whole (u16ToBeBytes 12 ++ newMetadata 7 81 1 1 1 1)) .eof).1 =
      [(⟨7, statusNew, false, false⟩, [])] := by decide
  have h80 := h 80 1 1 1 1
  have h81 := h 81 1 1 1 1
  rw [hfirst] at h80
  rw [hsecond, h80] at h81
  cases h81

end Shoes.Transport.MuxCoolStream
