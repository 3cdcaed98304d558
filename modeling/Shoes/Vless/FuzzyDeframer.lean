import Shoes.Vless.TlsRecords

/-! # TLS records behind an unknown prefix

`FuzzyTlsDeframer` looks for the start of a TLS handshake. What cannot be part of one is returned
as an unknown prefix at once; from the handshake on the bytes are TLS records. -/
namespace Shoes.Vless.FuzzyDeframer
open Lib.Io Lib.Bytes TlsRecords List

/-! ## Handshake patterns -/

def minTlsHandshakePatternLen : Nat := 6

def isValidTlsHandshakePrefix (data : List UInt8) : Bool :=
  match data with
  | [] => true
  | [b₀] => b₀ == 0x16
  | [b₀, b₁] => b₀ == 0x16 && b₁ == 0x03
  | b₀ :: b₁ :: b₂ :: _ => b₀ == 0x16 && b₁ == 0x03 && (0x01 ≤ b₂ && b₂ ≤ 0x03)

/-- The loop of `find_tls_handshake_start`, over the rest of the data at `offset`. -/
def findFrom : Nat → List UInt8 → Option Nat
  | _, [] => none
  | offset, b₀ :: rest =>
    if b₀ = 0x16 ∧ rest.head? = some 0x03 then
      -- a candidate that is cut off ends the search
      if (b₀ :: rest).length < minTlsHandshakePatternLen then none
      else if (0x01 ≤ rest.getD 1 0 ∧ rest.getD 1 0 ≤ 0x03) ∧
          (rest.getD 4 0 = 0x01 ∨ rest.getD 4 0 = 0x02) then some offset
      else findFrom (offset + 1) rest
    else findFrom (offset + 1) rest

def findTlsHandshakeStart (data : List UInt8) : Option Nat :=
  if data.length < minTlsHandshakePatternLen then none else findFrom 0 data

/-- The loop of `find_potential_tls_suffix_len`, from the longest suffix down. -/
def longestSuffix (data : List UInt8) : Nat → Nat
  | 0 => 0
  | suffixLen + 1 =>
    if isValidTlsHandshakePrefix (data.drop (data.length - (suffixLen + 1))) then suffixLen + 1
    else longestSuffix data suffixLen

def findPotentialTlsSuffixLen (data : List UInt8) : Nat := longestSuffix data (min data.length 5)

/-! ## The deframer -/

inductive DeframeResult
  | tlsRecord (record : List UInt8)
  | unknownPrefix (bytes : List UInt8)
  | needData
  deriving DecidableEq

/-- In the state `Searching` the inner deframer is empty, in the state `Deframing` the search
buffer is. -/
inductive FuzzyTlsDeframer
  | searching (searchBuffer : List UInt8)
  | deframing (inner : TlsDeframer)
  deriving DecidableEq

variable {inner : TlsDeframer}

namespace FuzzyTlsDeframer

def new : FuzzyTlsDeframer := .searching []

def feed (data : List UInt8) : FuzzyTlsDeframer → FuzzyTlsDeframer
  | .searching searchBuffer => .searching (searchBuffer ++ data)
  | .deframing inner => .deframing (inner.feed data)

/-- The state `Deframing`. -/
def nextInner (inner : TlsDeframer) : Except IoError DeframeResult × FuzzyTlsDeframer :=
  match inner.nextRecord with
  | (.error e, inner) => (.error e, .deframing inner)
  | (.ok (some record), inner) => (.ok (.tlsRecord record), .deframing inner)
  | (.ok none, inner) => (.ok .needData, .deframing inner)

def nextRecord : FuzzyTlsDeframer → Except IoError DeframeResult × FuzzyTlsDeframer
  | .deframing inner => nextInner inner
  | .searching searchBuffer =>
    if searchBuffer = [] then (.ok .needData, .searching searchBuffer)
    else
      match findTlsHandshakeStart searchBuffer with
      | some offset =>
        let inner := TlsDeframer.new.feed (searchBuffer.drop offset)
        if offset > 0 then (.ok (.unknownPrefix (searchBuffer.take offset)), .deframing inner)
        else nextInner inner
      | none =>
        let suffixLen := findPotentialTlsSuffixLen searchBuffer
        if suffixLen < searchBuffer.length then
          let prefixLen := searchBuffer.length - suffixLen
          (.ok (.unknownPrefix (searchBuffer.take prefixLen)),
            .searching (searchBuffer.drop prefixLen))
        else (.ok .needData, .searching searchBuffer)

/-- `remaining_data`; `pending_bytes` is its length. -/
def remainingData : FuzzyTlsDeframer → List UInt8
  | .searching searchBuffer => searchBuffer
  | .deframing inner => inner.buffer

def clear (_ : FuzzyTlsDeframer) : FuzzyTlsDeframer := .new

/-! ## What a call does -/

theorem feed_remainingData (d : FuzzyTlsDeframer) (data) :
    (d.feed data).remainingData = d.remainingData ++ data := by
  cases d <;> rfl

/-- A deframer that needs more data: it holds at most the start of a handshake pattern, or less
than a record. -/
def Quiet : FuzzyTlsDeframer → Prop
  | .searching searchBuffer => searchBuffer.length < minTlsHandshakePatternLen
  | .deframing inner => inner.buffer.length < inner.wanted

def IsDeframing : FuzzyTlsDeframer → Prop
  | .searching _ => False
  | .deframing _ => True

theorem nextInner_record {record d'} (h : nextInner inner = (.ok (.tlsRecord record), d')) :
    ∃ inner', inner.nextRecord = (.ok (some record), inner') ∧ d' = .deframing inner' := by
  unfold nextInner at h
  split at h <;> cases h
  rename_i inner' h
  exact ⟨inner', h, rfl⟩

theorem nextInner_needData {d'} (h : nextInner inner = (.ok .needData, d')) :
    ∃ inner', inner.nextRecord = (.ok none, inner') ∧ d' = .deframing inner' := by
  unfold nextInner at h
  split at h <;> cases h
  rename_i inner' h
  exact ⟨inner', h, rfl⟩

theorem nextInner_error {e d'} (h : nextInner inner = (.error e, d')) : d' = .deframing inner := by
  unfold nextInner at h
  split at h <;> cases h
  rename_i inner' h
  rw [TlsDeframer.nextRecord_error h]

theorem nextInner_not_prefix {bytes d'} : nextInner inner ≠ (.ok (.unknownPrefix bytes), d') := by
  intro h
  unfold nextInner at h
  split at h <;> cases h

/-- What a call does in the state `Searching`. -/
inductive Searched (b : List UInt8) : Except IoError DeframeResult × FuzzyTlsDeframer → Prop
  | start (found : findTlsHandshakeStart b = some 0) :
      Searched b (nextInner (TlsDeframer.new.feed b))
  | found (offset : Nat) (pos : 0 < offset) (found : findTlsHandshakeStart b = some offset) :
      Searched b (.ok (.unknownPrefix (b.take offset)),
        .deframing (TlsDeframer.new.feed (b.drop offset)))
  | passed (none : findTlsHandshakeStart b = none) (short : findPotentialTlsSuffixLen b < b.length) :
      Searched b (.ok (.unknownPrefix (b.take (b.length - findPotentialTlsSuffixLen b))),
        .searching (b.drop (b.length - findPotentialTlsSuffixLen b)))
  | waiting (all : b.length ≤ findPotentialTlsSuffixLen b) :
      Searched b (.ok .needData, .searching b)

variable (b : List UInt8)

theorem nextRecord_searched : Searched b (nextRecord (.searching b)) := by
  unfold nextRecord
  dsimp only
  split
  next hnil => exact .waiting (by rw [hnil]; exact le_rfl)
  cases hfound : findTlsHandshakeStart b with
  | some offset =>
    dsimp only
    split
    next hpos => exact .found offset hpos hfound
    rename_i hzero
    obtain rfl : offset = 0 := by omega
    exact .start hfound
  | none =>
    dsimp only
    split
    next hshort => exact .passed hfound hshort
    next hall => exact .waiting (by omega)

theorem longestSuffix_le (data n) : longestSuffix data n ≤ n := by
  induction n with
  | zero => exact le_rfl
  | succ =>
    unfold longestSuffix
    split
    · exact le_rfl
    · omega

theorem longestSuffix_valid (data : List UInt8) (n) :
    isValidTlsHandshakePrefix (data.drop (data.length - longestSuffix data n)) = true := by
  induction n with
  | zero => simp [longestSuffix, isValidTlsHandshakePrefix]
  | succ n ih =>
    unfold longestSuffix
    split
    · assumption
    · exact ih

theorem longestSuffix_self {data} (h : isValidTlsHandshakePrefix data = true)
    (hlen : data.length ≤ 5) : findPotentialTlsSuffixLen data = data.length := by
  unfold findPotentialTlsSuffixLen
  rw [min_eq_left hlen]
  rcases data with _ | ⟨_, _⟩
  · rfl
  rw [length_cons, longestSuffix, if_pos]
  simpa using h

theorem suffixLen_le :
    findPotentialTlsSuffixLen b ≤ 5 ∧ findPotentialTlsSuffixLen b ≤ b.length := by
  have h := longestSuffix_le b (min b.length 5)
  unfold findPotentialTlsSuffixLen
  omega

theorem nextRecord_suffix :
    nextRecord (.searching (b.drop (b.length - findPotentialTlsSuffixLen b))) =
      (.ok .needData, .searching (b.drop (b.length - findPotentialTlsSuffixLen b))) := by
  have hle := suffixLen_le b
  have hlen : (b.drop (b.length - findPotentialTlsSuffixLen b)).length =
      findPotentialTlsSuffixLen b := by
    rw [length_drop]
    omega
  have hself : findPotentialTlsSuffixLen (b.drop (b.length - findPotentialTlsSuffixLen b)) =
      (b.drop (b.length - findPotentialTlsSuffixLen b)).length :=
    longestSuffix_self (longestSuffix_valid b (min b.length 5)) (by omega)
  have hnone : findTlsHandshakeStart (b.drop (b.length - findPotentialTlsSuffixLen b)) = none := by
    unfold findTlsHandshakeStart
    rw [if_pos (by rw [hlen, minTlsHandshakePatternLen]; omega)]
  unfold nextRecord
  dsimp only
  split
  · rfl
  rw [hnone]
  rw [if_neg (by omega)]

theorem findFrom_le {offset found data} (h : findFrom offset data = some found) :
    offset ≤ found ∧ found ≤ offset + data.length := by
  induction data generalizing offset with
  | nil => cases h
  | cons b data ih =>
    unfold findFrom at h
    rw [length_cons]
    split at h
    · split at h
      · cases h
      · split at h
        · cases h
          omega
        · have := ih h
          omega
    have := ih h
    omega

theorem head_of_start {b} (h : findTlsHandshakeStart b = some 0) : b.head? = some 0x16 := by
  obtain ⟨-, h⟩ := Option.ite_none_left_eq_some.mp h
  rcases b with _ | ⟨_, _⟩
  · cases h
  unfold findFrom at h
  split at h
  next hpattern =>
    rw [hpattern.1]
    rfl
  have := findFrom_le h
  omega

end FuzzyTlsDeframer

/-- The bytes that a result takes off the front. -/
def DeframeResult.bytes : DeframeResult → List UInt8
  | .tlsRecord record => record
  | .unknownPrefix bytes => bytes
  | .needData => []

namespace FuzzyTlsDeframer
variable {d d' : FuzzyTlsDeframer}

theorem nextInner_bytes {result}
    (h : nextInner inner = (.ok result, d')) : inner.buffer = result.bytes ++ d'.remainingData := by
  unfold nextInner at h
  split at h <;> cases h <;> rename_i h <;> exact TlsDeframer.nextRecord_bytes h

/-- **Bytes are conserved** by every call. -/
theorem nextRecord_bytes {result} (h : d.nextRecord = (.ok result, d')) :
    d.remainingData = result.bytes ++ d'.remainingData := by
  cases d with
  | deframing => exact nextInner_bytes h
  | searching b =>
    have hs := nextRecord_searched b
    rw [h] at hs
    generalize hout : (Except.ok result, d') = out at hs
    cases hs with
    | start => exact nextInner_bytes hout.symm
    | found | passed =>
      cases hout
      exact (take_append_drop _ _).symm
    | waiting =>
      cases hout
      rfl

theorem nextRecord_error {e} (h : d.nextRecord = (.error e, d')) :
    d'.remainingData = d.remainingData := by
  cases d with
  | deframing => rw [nextInner_error h]
  | searching b =>
    have hs := nextRecord_searched b
    rw [h] at hs
    generalize hout : (Except.error e, d') = out at hs
    cases hs with
    | start =>
      rw [nextInner_error hout.symm]
      rfl
    | found | passed | waiting => cases hout

/-- A packet is fed, or the next record is taken and kept with those before. -/
def call (s : List UInt8 × FuzzyTlsDeframer) : Option (List UInt8) → List UInt8 × FuzzyTlsDeframer
  | some data => (s.1, s.2.feed data)
  | none =>
    let (result, d) := s.2.nextRecord
    (s.1 ++ result.toOption.elim [] DeframeResult.bytes, d)

/-- **Bytes are conserved** by calls in any order, failing ones among them. -/
theorem calls_bytes (calls : List _) (s : List UInt8 × FuzzyTlsDeframer) :
    (calls.foldl call s).1 ++ (calls.foldl call s).2.remainingData =
      s.1 ++ s.2.remainingData ++ calls.flatMap (·.getD []) := by
  induction calls generalizing s with
  | nil => simp
  | cons c calls ih =>
    rw [foldl_cons, ih]
    cases c with
    | some data => simp [call, feed_remainingData]
    | none =>
      rcases hnext : s.2.nextRecord with ⟨e | result, d⟩
      · simp [call, hnext, nextRecord_error hnext, Except.toOption]
      · simp [call, hnext, nextRecord_bytes hnext, Except.toOption]

theorem nextRecord_quiet (h : d.nextRecord = (.ok .needData, d')) : d'.Quiet := by
  cases d with
  | deframing =>
    obtain ⟨inner', hinner, rfl⟩ := nextInner_needData h
    exact TlsDeframer.nextRecord_short hinner
  | searching b =>
    have hs := nextRecord_searched b
    rw [h] at hs
    generalize hout : (Except.ok DeframeResult.needData, d') = out at hs
    cases hs with
    | start =>
      obtain ⟨_, hinner, rfl⟩ := nextInner_needData hout.symm
      exact TlsDeframer.nextRecord_short hinner
    | found | passed => cases hout
    | waiting =>
      cases hout
      have := suffixLen_le b
      change b.length < 6
      omega

theorem five_le_wanted (inner : TlsDeframer) : 5 ≤ inner.wanted := by
  unfold TlsDeframer.wanted
  split
  · exact le_rfl
  · exact Nat.le_add_right _ _

theorem nextRecord_record {record} (h : d.nextRecord = (.ok (.tlsRecord record), d')) :
    5 ≤ record.length ∧ d'.IsDeframing := by
  have hinner : ∀ inner : TlsDeframer, nextInner inner = (.ok (.tlsRecord record), d') →
      5 ≤ record.length ∧ d'.IsDeframing := by
    intro inner hi
    obtain ⟨_, hrecord, rfl⟩ := nextInner_record hi
    exact ⟨(five_le_wanted inner).trans (TlsDeframer.wanted_le_record hrecord), trivial⟩
  cases d with
  | deframing inner => exact hinner inner h
  | searching b =>
    have hs := nextRecord_searched b
    rw [h] at hs
    generalize hout : (Except.ok (DeframeResult.tlsRecord record), d') = out at hs
    cases hs with
    | start => exact hinner _ hout.symm
    | found | passed | waiting => cases hout

theorem nextRecord_unknown {bytes} (h : d.nextRecord = (.ok (.unknownPrefix bytes), d')) :
    ¬d.IsDeframing ∧ 0 < bytes.length ∧ (d'.IsDeframing ∨ d'.nextRecord = (.ok .needData, d')) := by
  cases d with
  | deframing => exact absurd h nextInner_not_prefix
  | searching b =>
    refine ⟨id, ?_⟩
    have hs := nextRecord_searched b
    rw [h] at hs
    generalize hout : (Except.ok (DeframeResult.unknownPrefix bytes), d') = out at hs
    cases hs with
    | start => exact absurd hout.symm nextInner_not_prefix
    | found offset pos found =>
      cases hout
      refine ⟨?_, .inl trivial⟩
      obtain ⟨hlen, found⟩ := Option.ite_none_left_eq_some.mp found
      rw [length_take]
      simp only [minTlsHandshakePatternLen] at hlen
      omega
    | passed =>
      cases hout
      refine ⟨?_, .inr (nextRecord_suffix b)⟩
      rw [length_take]
      omega
    | waiting => cases hout

/-- **The first record of a packet** is longer than what was held before, or it is the start of a
handshake that was held in full but for its type. -/
theorem nextRecord_feed_record {data record} (hq : d.Quiet)
    (h : (d.feed data).nextRecord = (.ok (.tlsRecord record), d')) :
    d.remainingData.length < record.length ∨
      ∃ b, d = .searching b ∧ b.length ≤ 5 ∧ findTlsHandshakeStart (b ++ data) = some 0 ∧
        record.length = tlsRecordHeaderSize + TlsDeframer.payloadLen (b ++ data) ∧
        record.head? = some 0x16 := by
  cases d with
  | deframing =>
    obtain ⟨inner', hrecord, rfl⟩ := nextInner_record h
    have hwanted := TlsDeframer.wanted_le_record hrecord
    exact .inl (hq.trans_le hwanted)
  | searching b =>
    have hs := nextRecord_searched (b ++ data)
    have hfive := (nextRecord_record h).1
    have hbytes := nextRecord_bytes h
    change nextRecord (.searching (b ++ data)) = _ at h
    rw [h] at hs
    generalize hout : (Except.ok (DeframeResult.tlsRecord record), d') = out at hs
    cases hs with
    | start found =>
      obtain ⟨_, hrecord, rfl⟩ := nextInner_record hout.symm
      refine .inr ⟨b, rfl, Nat.le_of_lt_succ hq, found, TlsDeframer.nextRecord_length hrecord, ?_⟩
      have hhead := head_of_start found
      change b ++ data = record ++ _ at hbytes
      rw [hbytes] at hhead
      cases record with
      | nil => simp at hfive
      | cons => simpa using hhead
    | found | passed | waiting => cases hout

/-- **The first prefix of a packet** ends with the handshake that is found, or with what may become
one. -/
theorem nextRecord_feed_prefix {data bytes}
    (h : (d.feed data).nextRecord = (.ok (.unknownPrefix bytes), d')) : ∃ b, d = .searching b ∧
      ((∃ offset, 0 < offset ∧ findTlsHandshakeStart (b ++ data) = some offset ∧
          bytes.length = min offset (b.length + data.length)) ∨
        (findTlsHandshakeStart (b ++ data) = none ∧
          bytes.length = b.length + data.length - findPotentialTlsSuffixLen (b ++ data))) := by
  cases d with
  | deframing => exact absurd h nextInner_not_prefix
  | searching b =>
    refine ⟨b, rfl, ?_⟩
    have hs := nextRecord_searched (b ++ data)
    change nextRecord (.searching (b ++ data)) = _ at h
    rw [h] at hs
    generalize hout : (Except.ok (DeframeResult.unknownPrefix bytes), d') = out at hs
    cases hs with
    | start => exact absurd hout.symm nextInner_not_prefix
    | found offset pos found =>
      cases hout
      exact .inl ⟨offset, pos, found, by rw [length_take, length_append]⟩
    | passed none =>
      cases hout
      refine .inr ⟨none, ?_⟩
      rw [length_take, length_append]
      omega
    | waiting => cases hout

end FuzzyTlsDeframer

end Shoes.Vless.FuzzyDeframer
