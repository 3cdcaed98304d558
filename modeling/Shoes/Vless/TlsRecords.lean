import Shoes.Lib.Io

/-! # TLS records

`TlsDeframer`: bytes are fed in any pieces and come out as whole TLS records. -/
namespace Shoes.Vless.TlsRecords
open Lib.Io Lib.Bytes

def tlsRecordHeaderSize : Nat := 5

def maxTlsCiphertextLen : Nat := 16384 + 2048

inductive DeframerState
  | readingHeader
  | readingPayload (payloadLen : Nat)
  deriving DecidableEq

structure TlsDeframer where
  buffer : List UInt8
  state : DeframerState
  deriving DecidableEq

namespace TlsDeframer

def new : TlsDeframer := ⟨[], .readingHeader⟩

def feed (d : TlsDeframer) (data : List UInt8) : TlsDeframer :=
  { d with buffer := d.buffer ++ data }

def checkHeader (contentType versionMajor versionMinor : UInt8) (payloadLen : Nat) :
    Except IoError Unit :=
  if versionMajor ≠ 0x03 ∨ ¬(0x01 ≤ versionMinor ∧ versionMinor ≤ 0x03) then
    .error ⟨.invalidData, "Invalid TLS protocol version: 0x" ++ hexByte versionMajor ++
      hexByte versionMinor ++ " (expected 0x0301 to 0x0303)"⟩
  else if payloadLen > maxTlsCiphertextLen then
    .error ⟨.invalidData, s!"TLS record ciphertext length {payloadLen} exceeds maximum " ++
      s!"{maxTlsCiphertextLen} (TLS 1.2 limit)"⟩
  else if ¬(0x14 ≤ contentType ∧ contentType ≤ 0x18) then
    .error ⟨.invalidData, "Invalid TLS content type: 0x" ++ hexByte contentType⟩
  else .ok ()

/-- The state `ReadingPayload`. -/
def readPayload (d : TlsDeframer) (payloadLen : Nat) : Option (List UInt8) × TlsDeframer :=
  let totalLen := tlsRecordHeaderSize + payloadLen
  if d.buffer.length < totalLen then (none, { d with state := .readingPayload payloadLen })
  else (some (d.buffer.take totalLen), ⟨d.buffer.drop totalLen, .readingHeader⟩)

def payloadLen (buffer : List UInt8) : Nat :=
  (u16FromBeBytes (buffer.getD 3 0) (buffer.getD 4 0)).toNat

def nextRecord (d : TlsDeframer) : Except IoError (Option (List UInt8)) × TlsDeframer :=
  match d.state with
  | .readingHeader =>
    if d.buffer.length < tlsRecordHeaderSize then (.ok none, d)
    else
      match checkHeader (d.buffer.getD 0 0) (d.buffer.getD 1 0) (d.buffer.getD 2 0)
          (payloadLen d.buffer) with
      | .error e => (.error e, d)
      | .ok () => (.ok (d.readPayload (payloadLen d.buffer)).1,
          (d.readPayload (payloadLen d.buffer)).2)
  | .readingPayload payloadLen => (.ok (d.readPayload payloadLen).1, (d.readPayload payloadLen).2)

/-! ## What a call does -/

theorem readPayload_bytes (d : TlsDeframer) (n) :
    d.buffer = ((d.readPayload n).1.getD []) ++ (d.readPayload n).2.buffer := by
  unfold readPayload
  dsimp only
  split
  · rfl
  · exact (List.take_append_drop _ _).symm

variable {d d' : TlsDeframer}

/-- **Bytes are conserved**: a record is taken off the front of the buffer. -/
theorem nextRecord_bytes {record}
    (h : d.nextRecord = (.ok record, d')) : d.buffer = record.getD [] ++ d'.buffer := by
  unfold nextRecord at h
  split at h
  · split at h
    · cases h
      rfl
    · split at h <;> cases h
      exact d.readPayload_bytes _
  cases h
  exact d.readPayload_bytes _

theorem nextRecord_error {e} (h : d.nextRecord = (.error e, d')) : d' = d := by
  unfold nextRecord at h
  split at h
  · split at h
    · cases h
    · split at h <;> cases h
      rfl
  · cases h

/-- The bytes of the record that the deframer is reading, as far as it knows. -/
def wanted (d : TlsDeframer) : Nat :=
  match d.state with
  | .readingHeader => tlsRecordHeaderSize
  | .readingPayload payloadLen => tlsRecordHeaderSize + payloadLen

theorem readPayload_record {n record}
    (h : (d.readPayload n).1 = some record) : record.length = tlsRecordHeaderSize + n := by
  unfold readPayload at h
  dsimp only at h
  split at h <;> cases h
  rw [List.length_take]
  omega

theorem nextRecord_length {record} (h : d.nextRecord = (.ok (some record), d')) :
    record.length = tlsRecordHeaderSize + match d.state with
      | .readingHeader => payloadLen d.buffer
      | .readingPayload n => n := by
  unfold nextRecord at h
  split at h
  · split at h
    · cases h
    · split at h
      · cases h
      · exact readPayload_record (Except.ok.inj (Prod.mk.inj h).1)
  · exact readPayload_record (Except.ok.inj (Prod.mk.inj h).1)

theorem wanted_le_record {record}
    (h : d.nextRecord = (.ok (some record), d')) : d.wanted ≤ record.length := by
  have hlen := nextRecord_length h
  unfold wanted
  split <;> simp only [*] at hlen <;> omega

theorem readPayload_short {n} (h : (d.readPayload n).1 = none) :
    (d.readPayload n).2.buffer.length < (d.readPayload n).2.wanted := by
  unfold readPayload at h ⊢
  dsimp only at h ⊢
  split at h
  next hlen =>
    rw [if_pos hlen]
    exact hlen
  · cases h

/-- **A deframer that needs more data** does not hold a whole record. -/
theorem nextRecord_short (h : d.nextRecord = (.ok none, d')) : d'.buffer.length < d'.wanted := by
  unfold nextRecord at h
  split at h
  next hstate =>
    split at h
    next hlen =>
      cases h
      unfold wanted
      rw [hstate]
      exact hlen
    split at h
    · cases h
    obtain ⟨hnone, rfl⟩ := Prod.mk.inj h
    exact readPayload_short (Except.ok.inj hnone)
  obtain ⟨hnone, rfl⟩ := Prod.mk.inj h
  exact readPayload_short (Except.ok.inj hnone)

/-! ## All records at once -/

/-- `next_records`. A record takes bytes, so the length of the buffer is enough fuel. -/
def nextRecordsLoop : Nat → TlsDeframer → Except IoError (List (List UInt8)) × TlsDeframer
  | 0, d => (.ok [], d)
  | fuel + 1, d =>
    match d.nextRecord with
    | (.error e, d) => (.error e, d)
    | (.ok none, d) => (.ok [], d)
    | (.ok (some record), d) =>
      match nextRecordsLoop fuel d with
      | (.error e, d) => (.error e, d)
      | (.ok records, d) => (.ok (record :: records), d)

def nextRecords (d : TlsDeframer) : Except IoError (List (List UInt8)) × TlsDeframer :=
  nextRecordsLoop (d.buffer.length + 1) d

theorem nextRecordsLoop_bytes {fuel records} (h : nextRecordsLoop fuel d = (.ok records, d')) :
    d.buffer = records.flatten ++ d'.buffer := by
  induction fuel generalizing d records with
  | zero =>
    cases h
    rfl
  | succ fuel ih =>
    rw [nextRecordsLoop] at h
    split at h
    · cases h
    next hnext =>
      cases h
      exact nextRecord_bytes hnext
    rename_i record d₁ hnext
    split at h <;> cases h
    rename_i rest d₂ hrest
    rw [nextRecord_bytes hnext, ih hrest]
    simp

end TlsDeframer

end Shoes.Vless.TlsRecords
