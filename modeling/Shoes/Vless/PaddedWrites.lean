import Shoes.Lib.Machine
import Shoes.Vless.FuzzyDeframer
import Shoes.Vless.Filter
import Shoes.Vless.Pad

/-! # Padded writes

`poll_write_padding_tls`: what is written to a Vision stream is cut into TLS records and unknown
prefixes, each sent in a padding block of its own, until a record of application data or the end of
the filtering ends the padding. -/
namespace Shoes.Vless.PaddedWrites
open Lib.Io Lib.Machine Lib.Scanner FuzzyDeframer Filter List FuzzyTlsDeframer Bool
open TlsRecords VisionUnpad Unpadding Pad

/-! ## The writer -/

structure Writer where
  innerWriteDeframer : FuzzyTlsDeframer
  filter : VisionFilter
  writeFirstPacket : Bool
  vlessResponseToSend : Bool
  pendingDirectModeSwitch : Bool
  pendingTlsModeSwitch : Bool
  deriving DecidableEq

def Writer.new (vlessResponseToSend : Bool) : Writer where
  innerWriteDeframer := .new
  filter := .new
  writeFirstPacket := true
  vlessResponseToSend := vlessResponseToSend
  pendingDirectModeSwitch := false
  pendingTlsModeSwitch := false

/-- What `drain_all_writes_padding` comes to. -/
inductive Drain
  | ready
  | failed (e : IoError)
  | pending
  deriving DecidableEq

/-- What is answered about one block: an error of `write_to_session`, if there is one, the drain
behind it, and the random numbers of its padding. -/
structure Answer where
  written : Option IoError
  drain : Drain
  draw : Draw

/-- What is answered in one call: the write of the VLESS response, the drain before anything else,
and the blocks one by one. -/
structure Answers where
  response : Option IoError
  before : Drain
  block : Nat → Answer

inductive VisionMode
  | tls
  | direct
  deriving DecidableEq

/-- What a call comes to. A call that leaves the padding is answered by the other mode. -/
inductive Written
  | accepted (n : Nat)
  | pending
  | failed (e : IoError)
  | panicked
  | switched (mode : VisionMode)
  deriving DecidableEq

/-- The next block. The first one has the UUID in front. -/
def Writer.padBlock (w : Writer) (uuid : Uuid) (data : List UInt8) (command : UnpadCommand)
    (isTls : Bool) (draw : Draw) : List UInt8 :=
  pad data (if w.writeFirstPacket then some uuid else none) (commandByte command) isTls draw

/-- `processed_len - existing_inner_len`, which panics below zero. -/
def acceptedFor (processedLen existingInnerLen : Nat) : Written :=
  if processedLen < existingInnerLen then .panicked else .accepted (processedLen - existingInnerLen)

/-- The result of a call, the writer after it, and the bytes of its blocks. -/
abbrev Result := Written × Writer × List UInt8

/-- The block that ends the padding. `sound` is what is asserted before the drain. -/
def lastBlock (uuid : Uuid) (answer : Answer) (w : Writer) (data : List UInt8)
    (command : UnpadCommand) (isTls sound : Bool) (sent : List UInt8) (written : Written) : Result :=
  let block := w.padBlock uuid data command isTls answer.draw
  let w := { w with
    writeFirstPacket := false
    pendingDirectModeSwitch := w.pendingDirectModeSwitch || command == .direct
    pendingTlsModeSwitch := w.pendingTlsModeSwitch || command == .end_ }
  match answer.written with
  | some e => (.failed e, w, sent)
  | none =>
    if !sound then (.panicked, w, sent ++ block)
    else
      match answer.drain with
      | .failed e => (.failed e, w, sent ++ block)
      | _ => (written, { w with innerWriteDeframer := w.innerWriteDeframer.clear }, sent ++ block)

/-- The loop over what the deframer returns. Every round takes bytes off the deframer, so their
number is enough fuel. -/
def writeLoop (uuid : Uuid) (block : Nat → Answer) (buf : List UInt8) (existingInnerLen : Nat) :
    Nat → Nat → Writer → Nat → List UInt8 → Result
  | 0, _, w, _, sent => (.accepted buf.length, w, sent)
  | fuel + 1, k, w, processedLen, sent =>
    match w.innerWriteDeframer.nextRecord with
    | (.ok (.tlsRecord record), deframer) =>
      let processedLen := processedLen + record.length
      let filter := w.filter.filterRecord record
      let w := { w with innerWriteDeframer := deframer, filter }
      let isAppData := filter.isTls && decide (record.length ≥ 3) && record.getD 0 0 == 0x17 &&
        record.getD 1 0 == 0x03
      let nonTlsFilteringEnded := !isAppData && !filter.isFiltering && !filter.isTls12OrAbove
      if isAppData || nonTlsFilteringEnded then
        lastBlock uuid (block k) w record (if filter.supportsXtls then .direct else .end_) true
          (decide (processedLen > existingInnerLen)) sent
          (acceptedFor processedLen existingInnerLen)
      else
        let bytes := w.padBlock uuid record .continue_ filter.isTls (block k).draw
        let w := { w with writeFirstPacket := false }
        match (block k).written with
        | some e => (.failed e, w, sent)
        | none =>
          match (block k).drain with
          | .failed e => (.failed e, w, sent ++ bytes)
          | .ready =>
            writeLoop uuid block buf existingInnerLen fuel (k + 1) w processedLen (sent ++ bytes)
          | .pending =>
            -- the assertion on what is left to process
            if processedLen < existingInnerLen ∨ buf.length < processedLen - existingInnerLen ∨
                deframer.remainingData.length ≠ buf.length - (processedLen - existingInnerLen) then
              (.panicked, w, sent ++ bytes)
            else (.accepted (processedLen - existingInnerLen),
              { w with innerWriteDeframer := deframer.clear }, sent ++ bytes)
    | (.ok .needData, deframer) =>
      (.accepted buf.length, { w with innerWriteDeframer := deframer }, sent)
    | (.ok (.unknownPrefix bytes), deframer) =>
      let processedLen := processedLen + bytes.length
      let filter := w.filter.decrementFilterCount
      let w := { w with innerWriteDeframer := deframer, filter }
      if filter.isFiltering then
        let padded := w.padBlock uuid bytes .continue_ filter.isTls (block k).draw
        let w := { w with writeFirstPacket := false }
        match (block k).written with
        | some e => (.failed e, w, sent)
        | none =>
          match (block k).drain with
          | .failed e => (.failed e, w, sent ++ padded)
          | _ =>
            writeLoop uuid block buf existingInnerLen fuel (k + 1) w processedLen (sent ++ padded)
      else
        lastBlock uuid (block k) { w with innerWriteDeframer := deframer.clear } bytes .end_
          filter.isTls true sent (acceptedFor processedLen existingInnerLen)
    | (.error _, deframer) =>
      -- what is left is sent as it is
      let filter := w.filter.stopFiltering
      let w := { w with innerWriteDeframer := deframer, filter }
      lastBlock uuid (block k) w deframer.remainingData .end_ filter.isTls true sent
        (.accepted buf.length)

def pollWritePaddingTls (uuid : Uuid) (answers : Answers) (w : Writer) (buf : List UInt8) : Result :=
  match if w.vlessResponseToSend then answers.response else none with
  | some e => (.failed e, w, [])
  | none =>
    let w := { w with vlessResponseToSend := false }
    match answers.before with
    | .failed e => (.failed e, w, [])
    | .pending => (.pending, w, [])
    | .ready =>
      if w.pendingDirectModeSwitch then
        (.switched .direct, { w with pendingDirectModeSwitch := false }, [])
      else if w.pendingTlsModeSwitch then
        (.switched .tls, { w with pendingTlsModeSwitch := false }, [])
      else
        let existingInnerLen := w.innerWriteDeframer.remainingData.length
        let w := { w with innerWriteDeframer := w.innerWriteDeframer.feed buf }
        writeLoop uuid answers.block buf existingInnerLen
          (w.innerWriteDeframer.remainingData.length + 1) 0 w 0 []

/-! ## What the other side gets -/

/-- The blocks that have been sent, and their content. The padding is `ended` with a block that is
not a Continue block. -/
inductive Sent (uuid : Uuid) : (first ended : Bool) → (sent content : List UInt8) → Prop
  | nothing : Sent uuid true false [] []
  | blocks {bytes content : List UInt8}
      (scanned : scan readByte start bytes = (content, .more ⟨.command, false⟩)) :
      Sent uuid false false (uuid.val ++ bytes) content
  | ended {bytes content : List UInt8} (command : UnpadCommand)
      (scanned : scan readByte start bytes = (content, .stopped (.final command) [])) :
      Sent uuid false true (uuid.val ++ bytes) content

namespace Sent
variable {uuid : Uuid} {first ended : Bool} {sent content : List UInt8}

/-- **The unpadder of the other side** gets the content. -/
theorem unpadded (h : Sent uuid first ended sent content) : (feed uuid [sent]).1 = content := by
  have hscan : ∀ bytes : List UInt8,
      feed uuid [uuid.val ++ bytes] = outcome [] (scan readByte start bytes) := by
    intro bytes
    have htake : (uuid.val ++ bytes).take 16 = uuid.val := take_left' uuid.property
    have hdrop : (uuid.val ++ bytes).drop 16 = bytes := drop_left' uuid.property
    have hone := (feedFrom_iff start [] [bytes]).mpr (undisturbed_single start bytes)
    rw [feedFrom_uuid uuid _ [] htake, hdrop, hone, flatten_singleton]
  cases h with
  | nothing => rfl
  | blocks scanned => rw [hscan, scanned]; rfl
  | ended command scanned => rw [hscan, scanned]; simp [outcome]

theorem block (h : Sent uuid first false sent content) {w : Writer}
    (hw : w.writeFirstPacket = first)
    (command isTls draw) {data : List UInt8} (hlen : data.length ≤ 65535) :
    Sent uuid false (decide (command ≠ .continue_))
      (sent ++ w.padBlock uuid data command isTls draw) (content ++ data) := by
  have hscan : ∀ firstBlock, scan readByte ⟨.command, firstBlock⟩
      (pad data none (commandByte command) isTls draw) =
      (data ++ (resume readByte (afterBlock command) []).1,
        (resume readByte (afterBlock command) []).2) := by
    intro firstBlock
    have h := scan_pad data command isTls draw firstBlock hlen []
    rwa [append_nil] at h
  have hdone : ∀ bytes, scan readByte start bytes =
      (content ++ (data ++ (resume readByte (afterBlock command) []).1),
        (resume readByte (afterBlock command) []).2) →
      Sent uuid false (decide (command ≠ .continue_)) (uuid.val ++ bytes) (content ++ data) := by
    intro bytes hbytes
    cases command with
    | continue_ => exact .blocks (by simpa [afterBlock, scan] using hbytes)
    | end_ => exact .ended .end_ (by simpa [afterBlock] using hbytes)
    | direct => exact .ended .direct (by simpa [afterBlock] using hbytes)
  unfold Writer.padBlock
  rw [hw]
  cases h with
  | nothing => exact hdone _ (hscan true)
  | blocks scanned =>
    rw [append_assoc]
    refine hdone _ ?_
    rw [scan_append, scanned]
    simp only [false_eq_true, if_false, Ended.continue, hscan]

end Sent

/-! ## One call -/

/-- What a deframer makes of the bytes it holds: its records and prefixes, and what is left when
they cannot be a record. -/
def pieces : Nat → FuzzyTlsDeframer → List (List UInt8)
  | 0, _ => []
  | fuel + 1, d =>
    match d.nextRecord with
    | (.ok (.tlsRecord record), d') => record :: pieces fuel d'
    | (.ok (.unknownPrefix bytes), d') => bytes :: pieces fuel d'
    | (.ok .needData, _) => []
    | (.error _, d') => [d'.remainingData]

/-- The length field of a block holds the length of every piece. -/
def Fits (fuel : Nat) (d : FuzzyTlsDeframer) : Prop := ∀ piece ∈ pieces fuel d, piece.length ≤ 65535

instance (fuel : Nat) (d : FuzzyTlsDeframer) : Decidable (Fits fuel d) :=
  inferInstanceAs (Decidable (∀ piece ∈ pieces fuel d, piece.length ≤ 65535))

namespace Fits
variable {fuel : Nat} {d d' : FuzzyTlsDeframer} {result : DeframeResult}

theorem next (h : Fits (fuel + 1) d) (hnext : d.nextRecord = (.ok result, d'))
    (hdata : result ≠ .needData) : result.bytes.length ≤ 65535 ∧ Fits fuel d' := by
  unfold Fits pieces at h
  rw [hnext] at h
  cases result with
  | tlsRecord | unknownPrefix => exact forall_mem_cons.mp h
  | needData => exact absurd rfl hdata

theorem rest (h : Fits (fuel + 1) d) (hnext : d.nextRecord = (.error e, d')) :
    d'.remainingData.length ≤ 65535 := by
  unfold Fits pieces at h
  rw [hnext] at h
  exact h _ (mem_singleton_self _)

end Fits

/-- What the deframer returns next does not take less than what was held before the call, as far as
the padding may end with it. -/
structure Fine (existing processed : Nat) (filter : VisionFilter) (d : FuzzyTlsDeframer) : Prop where
  record : ∀ record d', d.nextRecord = (.ok (.tlsRecord record), d') →
    existing < processed + record.length ∨
      (existing = processed + record.length ∧ record.length = 5 ∧ record.head? = some 0x16 ∧
        (2 ≤ filter.recordFilterCount ∨ filter.isTls12OrAbove = true))
  unknown : ∀ bytes d', d.nextRecord = (.ok (.unknownPrefix bytes), d') →
    existing ≤ 5 ∧ (existing ≤ processed + bytes.length ∨ 2 ≤ filter.recordFilterCount)

namespace Fine
variable {existing processed : Nat} {filter filter' : VisionFilter} {d d' : FuzzyTlsDeframer}

theorem of_deframing (hd : d.IsDeframing) (h : existing < processed + 5) :
    Fine existing processed filter d where
  record := fun record d' hnext => by
    have hlen := (nextRecord_record hnext).1
    left
    omega
  unknown := fun bytes d' hnext => absurd hd (nextRecord_unknown hnext).1

theorem after_record {record} (h : Fine existing processed filter d)
    (hnext : d.nextRecord = (.ok (.tlsRecord record), d')) :
    Fine existing (processed + record.length) filter' d' := by
  refine .of_deframing (nextRecord_record hnext).2 ?_
  rcases h.record record d' hnext with hlt | ⟨heq, -⟩ <;> omega

theorem after_prefix (h : Fine existing processed filter d)
    (hnext : d.nextRecord = (.ok (.unknownPrefix bytes), d')) :
    Fine existing (processed + bytes.length) filter' d' := by
  obtain ⟨-, _, hd' | hneed⟩ := nextRecord_unknown hnext
  · have := (h.unknown bytes d' hnext).1
    exact .of_deframing hd' (by omega)
  constructor
  · intro record d'' hr
    cases hneed.symm.trans hr
  intro bytes' d'' hp
  cases hneed.symm.trans hp

theorem ends {record} (h : Fine existing processed filter d)
    (hnext : d.nextRecord = (.ok (.tlsRecord record), d'))
    (hend : ((filter.filterRecord record).isTls && decide (record.length ≥ 3) &&
        record.getD 0 0 == 0x17 && record.getD 1 0 == 0x03) = true ∨
      ((filter.filterRecord record).isFiltering = false ∧
        (filter.filterRecord record).isTls12OrAbove = false)) :
    existing < processed + record.length := by
  rcases h.record record d' hnext with hlt | ⟨-, hfive, hhead, hopen⟩
  · exact hlt
  exfalso
  rcases hend with happ | ⟨hover, htls12⟩
  · have hfirst : record.getD 0 0 = 0x16 := by
      cases record with
      | nil => cases hhead
      | cons => exact Option.some.inj hhead
    rw [hfirst] at happ
    simp at happ
  rw [VisionFilter.filterRecord_header filter hfive] at hover htls12
  rcases hopen with _ | htls
  · have hzero := of_decide_eq_false hover
    simp only [VisionFilter.decrementFilterCount] at hzero
    omega
  · cases htls.symm.trans htls12

end Fine

section
variable (uuid : Uuid) (held buf base content : List UInt8)

/-- The loop has sent the blocks of `done`. -/
structure Midway (w : Writer) (done sent : List UInt8) : Prop where
  bytes : held ++ buf = done ++ w.innerWriteDeframer.remainingData
  blocks : Sent uuid w.writeFirstPacket false (base ++ sent) (content ++ done)
  noDirect : w.pendingDirectModeSwitch = false
  noTls : w.pendingTlsModeSwitch = false

structure Accepted (n : Nat) (w : Writer) (sent : List UInt8) : Prop where
  le : n ≤ buf.length
  blocks : ∃ done,
    Sent uuid w.writeFirstPacket (w.pendingDirectModeSwitch || w.pendingTlsModeSwitch)
      (base ++ sent) (content ++ done) ∧
    done ++ w.innerWriteDeframer.remainingData = held ++ buf.take n
  quiet : w.innerWriteDeframer.Quiet
  cleared : (w.pendingDirectModeSwitch || w.pendingTlsModeSwitch) = true →
    w.innerWriteDeframer.remainingData = []

/-- The call has not panicked, and if it has accepted bytes, none is lost. -/
def Good : Result → Prop
  | (.accepted n, w, sent) => Accepted uuid held buf base content n w sent
  | (.failed _, _, _) => True
  | _ => False

variable {uuid held buf base content}

theorem accepted_of_done (hbytes : held ++ buf = done ++ rest) (hle : held.length ≤ done.length) :
    done.length - held.length ≤ buf.length ∧
      done = held ++ buf.take (done.length - held.length) := by
  have hlen := congrArg List.length hbytes
  simp only [length_append] at hlen
  refine ⟨by omega, ?_⟩
  have htake := congrArg (List.take done.length) hbytes
  rw [take_left, take_append, take_of_length_le hle] at htake
  exact htake.symm

theorem lastBlock_good {w : Writer} {done data sent : List UInt8}
    (hsent : Sent uuid w.writeFirstPacket false (base ++ sent) (content ++ done))
    (hno : w.pendingDirectModeSwitch = false ∧ w.pendingTlsModeSwitch = false)
    (hlen : data.length ≤ 65535) (hcommand : command ≠ .continue_) (hsound : sound = true)
    (hn : n ≤ buf.length) (hbytes : done ++ data = held ++ buf.take n) :
    Good uuid held buf base content
      (lastBlock uuid answer w data command isTls sound sent (.accepted n)) := by
  have hblock := hsent.block rfl command isTls answer.draw hlen
  have hover : (w.pendingDirectModeSwitch || command == .direct ||
      (w.pendingTlsModeSwitch || command == .end_)) = decide (command ≠ .continue_) := by
    rw [hno.1, hno.2]
    cases command <;> rfl
  unfold lastBlock
  rw [hsound]
  split
  · trivial
  rw [if_neg (by decide)]
  split
  · trivial
  refine ⟨hn, ⟨done ++ data, ?_, ?_⟩, ?_, fun _ => rfl⟩
  · rw [hover, ← append_assoc base, ← append_assoc content]
    exact hblock
  · rw [hbytes]
    exact append_nil _
  · exact Nat.zero_lt_succ _

namespace Midway
variable {w : Writer} {done sent data : List UInt8} {d' : FuzzyTlsDeframer}

section
variable (h : Midway uuid held buf base content w done sent)
include h

section
variable (hdata : w.innerWriteDeframer.remainingData = data ++ d'.remainingData)
include hdata

theorem bytes_next : held ++ buf = (done ++ data) ++ d'.remainingData := by
  rw [h.bytes, hdata, append_assoc]

theorem next (hlen : data.length ≤ 65535) (filter isTls draw) : Midway uuid held buf base content
      { w with innerWriteDeframer := d', filter, writeFirstPacket := false }
      (done ++ data) (sent ++ w.padBlock uuid data .continue_ isTls draw) where
  bytes := h.bytes_next hdata
  blocks := by
    rw [← append_assoc, ← append_assoc]
    exact h.blocks.block rfl .continue_ isTls draw hlen
  noDirect := h.noDirect
  noTls := h.noTls

theorem last (hlen : data.length ≤ 65535) (hle : held.length ≤ done.length + data.length)
    (filter d'') (hcommand : command ≠ .continue_) (hsound : sound = true) (answer) :
    Good uuid held buf base content
      (lastBlock uuid answer { w with innerWriteDeframer := d'', filter } data command isTls sound
        sent (acceptedFor (done.length + data.length) held.length)) := by
  rw [← length_append] at hle ⊢
  obtain ⟨hn, hbytes⟩ := accepted_of_done (h.bytes_next hdata) hle
  rw [acceptedFor, if_neg (not_lt.mpr hle)]
  exact lastBlock_good h.blocks ⟨h.noDirect, h.noTls⟩ hlen hcommand hsound hn hbytes

end

theorem stop (hle : held.length ≤ done.length) :
    Accepted uuid held buf base content (done.length - held.length)
      { w with innerWriteDeframer := w.innerWriteDeframer.clear } sent := by
  obtain ⟨hn, hbytes⟩ := accepted_of_done h.bytes hle
  refine ⟨hn, ⟨done, ?_, ?_⟩, Nat.zero_lt_succ _, fun _ => rfl⟩
  · rw [h.noDirect, h.noTls]
    exact h.blocks
  rw [← hbytes]
  exact append_nil _

theorem waiting (hnext : w.innerWriteDeframer.nextRecord = (.ok .needData, d')) :
    Accepted uuid held buf base content buf.length { w with innerWriteDeframer := d' } sent := by
  have hbytes := h.bytes_next (nextRecord_bytes hnext)
  refine ⟨le_rfl, ⟨done, ?_, ?_⟩, nextRecord_quiet hnext, ?_⟩
  · rw [h.noDirect, h.noTls]
    exact h.blocks
  · rw [take_length, hbytes]
    exact congrArg (· ++ _) (append_nil done).symm
  rw [h.noDirect, h.noTls]
  nofun

end

theorem rest {e} (h : Midway uuid held buf base content w done sent)
    (hnext : w.innerWriteDeframer.nextRecord = (.error e, d'))
    (hlen : d'.remainingData.length ≤ 65535) (answer) {filter isTls} :
    Good uuid held buf base content
      (lastBlock uuid answer { w with innerWriteDeframer := d', filter } d'.remainingData .end_ isTls
        true sent (.accepted buf.length)) := by
  have hdata : w.innerWriteDeframer.remainingData = d'.remainingData ++ new.remainingData := by
    rw [nextRecord_error hnext]
    exact (append_nil _).symm
  refine lastBlock_good h.blocks ⟨h.noDirect, h.noTls⟩ hlen nofun rfl le_rfl ?_
  rw [take_length, h.bytes_next hdata]
  exact (append_nil _).symm

end Midway

/-- **One call loses no byte.** -/
theorem writeLoop_good (block fuel k w done sent)
    (hfuel : w.innerWriteDeframer.remainingData.length < fuel)
    (h : Midway uuid held buf base content w done sent) (hfits : Fits fuel w.innerWriteDeframer)
    (hfine : Fine held.length done.length w.filter w.innerWriteDeframer) :
    Good uuid held buf base content
      (writeLoop uuid block buf held.length fuel k w done.length sent) := by
  induction fuel generalizing k w done sent with
  | zero => exact absurd hfuel (Nat.not_lt_zero _)
  | succ fuel ih =>
    rw [writeLoop]
    split
    next record d' hnext =>
      have hdata : w.innerWriteDeframer.remainingData = record ++ d'.remainingData :=
        nextRecord_bytes hnext
      have hfive := (nextRecord_record hnext).1
      obtain ⟨hlen, hfits'⟩ := hfits.next hnext nofun
      have hle : held.length ≤ done.length + record.length := by
        rcases hfine.record record d' hnext with hlt | ⟨heq, -⟩ <;> omega
      have hfuel' : d'.remainingData.length < fuel := by
        rw [hdata, length_append] at hfuel
        omega
      dsimp only
      split
      next hend =>
        have hlt := hfine.ends hnext (by
          simp only [or_eq_true, and_eq_true, not_eq_true'] at hend ⊢
          rcases hend with happ | ⟨⟨-, hover⟩, htls12⟩
          · exact .inl happ
          · exact .inr ⟨hover, htls12⟩)
        refine h.last hdata hlen hle _ _ ?_ (decide_eq_true hlt) _
        split <;> nofun
      have hnextMid := h.next hdata hlen (w.filter.filterRecord record)
        (w.filter.filterRecord record).isTls (block k).draw
      split
      · trivial
      split
      · trivial
      · rw [← length_append]
        exact ih (k + 1) _ _ _ hfuel' hnextMid hfits'
          (by rw [length_append]; exact hfine.after_record hnext)
      -- what is left is the tail of the buffer, so the assertion holds
      have hbytes := congrArg List.length (h.bytes_next hdata)
      simp only [length_append] at hbytes
      rw [if_neg (by omega), ← length_append]
      exact hnextMid.stop (by rw [length_append]; exact hle)
    · exact h.waiting (by assumption)
    next bytes d' hnext =>
      have hdata : w.innerWriteDeframer.remainingData = bytes ++ d'.remainingData :=
        nextRecord_bytes hnext
      have hpos := (nextRecord_unknown hnext).2.1
      obtain ⟨hlen, hfits'⟩ := hfits.next hnext nofun
      dsimp only
      split
      · have hnextMid := h.next hdata hlen w.filter.decrementFilterCount
          w.filter.decrementFilterCount.isTls (block k).draw
        have hfuel' : d'.remainingData.length < fuel := by
          rw [hdata, length_append] at hfuel
          omega
        split
        · trivial
        split
        · trivial
        rw [← length_append]
        exact ih (k + 1) _ _ _ hfuel' hnextMid hfits'
          (by rw [length_append]; exact hfine.after_prefix hnext)
      rename_i hover
      have hzero := of_decide_eq_false (eq_false_of_not_eq_true hover)
      have hle : held.length ≤ done.length + bytes.length := by
        rcases (hfine.unknown bytes d' hnext).2 with hle | _
        · exact hle
        simp only [VisionFilter.decrementFilterCount] at hzero
        omega
      exact h.last hdata hlen hle _ _ (by decide) rfl _
    next hnext => exact h.rest hnext (hfits.rest hnext) (block k)

end

/-! ## Runs of writes -/

/-- A new packet does not cut through what a searching deframer holds: no handshake is found inside
of it, no suffix that is kept reaches into it, and it is not the header of an empty record that is
going to be the last one. -/
def KeepsHeld (isTls12OrAbove : Bool) (buf : List UInt8) : FuzzyTlsDeframer → Prop
  | .deframing _ => True
  | .searching held =>
    match findTlsHandshakeStart (held ++ buf) with
    | some 0 => isTls12OrAbove = true ∨ held.length < tlsRecordHeaderSize ∨
        0 < TlsDeframer.payloadLen (held ++ buf)
    | some (offset + 1) => held.length ≤ offset + 1
    | none => findPotentialTlsSuffixLen (held ++ buf) ≤ buf.length ∨
        findPotentialTlsSuffixLen (held ++ buf) = held.length + buf.length

theorem Fine.start {d filter buf} (hq : d.Quiet)
    (h : filter.recordFilterCount ≤ 1 → KeepsHeld filter.isTls12OrAbove buf d) :
    Fine d.remainingData.length 0 filter (d.feed buf) where
  record := fun record d' hnext => by
    have hfive := (nextRecord_record hnext).1
    rcases nextRecord_feed_record hq hnext with
      hlt | ⟨b, rfl, hlen, found, hrecord, hhead⟩
    · left
      omega
    change b.length < _ ∨ b.length = _ ∧ _
    by_cases hlt : b.length < record.length
    · left
      omega
    refine .inr ⟨by omega, by omega, hhead, ?_⟩
    by_cases hcount : 2 ≤ filter.recordFilterCount
    · exact .inl hcount
    have hkeeps := h (by omega)
    simp only [KeepsHeld, found] at hkeeps
    rcases hkeeps with htls12 | _ | _
    · exact .inr htls12
    · omega
    simp only [tlsRecordHeaderSize] at hrecord
    omega
  unknown := fun bytes d' hnext => by
    have hpos := (nextRecord_unknown hnext).2.1
    obtain ⟨b, rfl, hcase⟩ := nextRecord_feed_prefix hnext
    refine ⟨Nat.le_of_lt_succ hq, ?_⟩
    change b.length ≤ _ ∨ _
    by_cases hcount : 2 ≤ filter.recordFilterCount
    · exact .inr hcount
    have hkeeps := h (by omega)
    rcases hcase with ⟨offset, hoffset, found, hlen⟩ | ⟨found, _⟩
    · obtain ⟨_, rfl⟩ := Nat.exists_eq_add_of_lt hoffset
      simp only [KeepsHeld, found, zero_add] at hkeeps
      left
      omega
    simp only [KeepsHeld, found] at hkeeps
    left
    omega

/-- A stream in padding mode, with the bytes of its blocks and the bytes it has accepted. -/
structure Stage where
  writer : Writer
  sent : List UInt8
  accepted : List UInt8

def Stage.start (vlessResponseToSend : Bool) : Stage := ⟨.new vlessResponseToSend, [], []⟩

def Stage.held (s : Stage) : List UInt8 := s.writer.innerWriteDeframer.remainingData

/-- A padding mode that a block has ended. -/
def Stage.ended (s : Stage) : Bool :=
  s.writer.pendingDirectModeSwitch || s.writer.pendingTlsModeSwitch

/-- The reading side works on the same filter. -/
inductive Event
  | write (buf : List UInt8) (answers : Answers)
  | read (filter : VisionFilter)

/-- One event. A stream that has failed, or has left the padding mode, takes no further one. -/
def next (uuid : Uuid) (s : Stage) : Event → Option Stage
  | .read filter => some { s with writer := { s.writer with filter } }
  | .write buf answers =>
    match pollWritePaddingTls uuid answers s.writer buf with
    | (.accepted n, writer, sent) => some ⟨writer, s.sent ++ sent, s.accepted ++ buf.take n⟩
    | (.pending, writer, sent) => some ⟨writer, s.sent ++ sent, s.accepted⟩
    | _ => none

/-- The pieces of a call fit into blocks, and if the first of them may end the filtering, the call
does not cut through what is held. -/
def Sound (s : Stage) : Event → Prop
  | .read _ => True
  | .write buf _ => Fits (s.held.length + buf.length + 1) (s.writer.innerWriteDeframer.feed buf) ∧
      (s.writer.filter.recordFilterCount ≤ 1 →
        KeepsHeld s.writer.filter.isTls12OrAbove buf s.writer.innerWriteDeframer)

structure Conserved (uuid : Uuid) (s : Stage) : Prop where
  blocks : ∃ content, Sent uuid s.writer.writeFirstPacket s.ended s.sent content ∧
    content ++ s.held = s.accepted
  quiet : s.writer.innerWriteDeframer.Quiet
  cleared : s.ended = true → s.held = []

theorem conserved_start (uuid response) : Conserved uuid (.start response) where
  blocks := ⟨[], .nothing, rfl⟩
  quiet := Nat.zero_lt_succ _
  cleared := nofun

/-- What a call may come to. -/
inductive Called (uuid : Uuid) (s : Stage) (buf : List UInt8) : Result → Prop
  | accepted {n : Nat} {writer : Writer} {sent : List UInt8} (le : n ≤ buf.length)
      (conserved : Conserved uuid ⟨writer, s.sent ++ sent, s.accepted ++ buf.take n⟩) :
      Called uuid s buf (.accepted n, writer, sent)
  | pending : Called uuid s buf (.pending, { s.writer with vlessResponseToSend := false }, [])
  | failed (e : IoError) (writer : Writer) (sent : List UInt8) :
      Called uuid s buf (.failed e, writer, sent)
  | switched (mode : VisionMode) (writer : Writer) : Called uuid s buf (.switched mode, writer, [])

theorem Called.of_good (haccepted : content ++ s.held = s.accepted)
    (h : Good uuid s.held buf s.sent content result) : Called uuid s buf result := by
  obtain ⟨written, writer, sent⟩ := result
  cases written with
  | accepted =>
    obtain ⟨hn, ⟨done, hsent, hdone⟩, hquiet, hcleared⟩ := h
    refine .accepted hn ⟨⟨content ++ done, hsent, ?_⟩, hquiet, hcleared⟩
    rw [append_assoc, ← haccepted, append_assoc]
    exact congrArg (content ++ ·) hdone
  | failed e => exact .failed e writer sent
  | pending | panicked | switched => exact h.elim

theorem pollWritePaddingTls_called (h : Conserved uuid s)
    (buf answers) (hsound : Sound s (.write buf answers)) :
    Called uuid s buf (pollWritePaddingTls uuid answers s.writer buf) := by
  unfold pollWritePaddingTls
  split
  · exact .failed _ _ _
  dsimp only
  split
  · exact .failed _ _ _
  · exact .pending
  split
  · exact .switched _ _
  split
  · exact .switched _ _
  rename_i hdirect htls
  have hdirect := eq_false_of_not_eq_true hdirect
  have htls := eq_false_of_not_eq_true htls
  obtain ⟨_, hsent, haccepted⟩ := h.blocks
  unfold Stage.ended at hsent
  rw [hdirect, htls] at hsent
  refine .of_good haccepted (writeLoop_good answers.block _ 0 _ [] [] (Nat.lt_succ_self _)
    ?_ ?_ (.start h.quiet hsound.2))
  · refine ⟨(feed_remainingData _ _).symm, ?_, hdirect, htls⟩
    rw [append_nil, append_nil]
    exact hsent
  rw [feed_remainingData, length_append]
  exact hsound.1

theorem next_conserved (hsound : Sound s event)
    (h : Conserved uuid s) (hnext : next uuid s event = some s') : Conserved uuid s' := by
  cases event with
  | read =>
    cases hnext
    exact { h with }
  | write buf answers =>
    have hcalled := pollWritePaddingTls_called h buf answers hsound
    unfold next at hnext
    dsimp only at hnext
    generalize pollWritePaddingTls uuid answers s.writer buf = result at hcalled hnext
    cases hcalled with
    | accepted le conserved =>
      cases hnext
      exact conserved
    | pending =>
      cases hnext
      rw [append_nil]
      exact { h with }
    | failed | switched => cases hnext

/-- **Padded writes lose no byte.** In every stage the other side has got, out of the blocks, what
was accepted but for what the deframer holds; the deframer holds nothing when the padding is over;
and no call panics or accepts more than it was given. -/
theorem padded_writes_conserved (uuid : Uuid) (response : Bool) (events : List Event) (s : Stage)
    (hsound : Throughout (next uuid) Sound (.start response) events)
    (hrun : run (next uuid) (.start response) events = some s) :
    (feed uuid [s.sent]).1 ++ s.held = s.accepted ∧ (s.ended = true → s.held = []) ∧
      ∀ buf answers, Sound s (.write buf answers) →
        (pollWritePaddingTls uuid answers s.writer buf).1 ≠ .panicked ∧
        ∀ n, (pollWritePaddingTls uuid answers s.writer buf).1 = .accepted n → n ≤ buf.length := by
  have h : Conserved uuid s := run_invariant (fun _ _ _ hok hi hn => next_conserved hok hi hn)
    events _ s hsound (conserved_start uuid response) hrun
  refine ⟨?_, h.cleared, ?_⟩
  · obtain ⟨_, hsent, haccepted⟩ := h.blocks
    rw [hsent.unpadded]
    exact haccepted
  intro buf answers hs
  have hcalled := pollWritePaddingTls_called h buf answers hs
  generalize pollWritePaddingTls uuid answers s.writer buf = result at hcalled
  cases hcalled with
  | accepted le =>
    refine ⟨nofun, ?_⟩
    rintro n ⟨⟩
    exact le
  | pending | failed | switched => exact ⟨nofun, nofun⟩

/-- Everything succeeds at once. -/
def promptly : Answers := ⟨none, .ready, fun _ => ⟨none, .ready, ⟨0, fun _ => 0⟩⟩⟩

theorem padded_writes_conserved_held : ∃ s, run (next sampleUuid) (.start true)
        [.write [0x61, 0x62, 0x16] promptly, .write [0x03] promptly] = some s ∧
      s.held = [0x16, 0x03] ∧
      (feed sampleUuid [s.sent]).1 ++ [0x16, 0x03] = [0x61, 0x62, 0x16, 0x03] := by
  refine ⟨_, rfl, rfl, (padded_writes_conserved sampleUuid true
    [.write [0x61, 0x62, 0x16] promptly, .write [0x03] promptly] _ ?_ rfl).1⟩
  refine ⟨⟨by decide, fun h => absurd h (by decide)⟩, ?_⟩
  rintro s ⟨⟩
  exact ⟨⟨by decide, fun h => absurd h (by decide)⟩, fun _ _ => trivial⟩

/-- **A prefix that ends the filtering inside of what is held.** Seven writes leave one record to
filter, and five bytes that may start a handshake are held. With the next byte four of them are a
prefix, and four less five is below zero. -/
theorem held_prefix_underflows : ∃ s, run (next sampleUuid) (.start false)
        (List.replicate 7 (.write [0x61] promptly) ++
          [.write [0x16, 0x03, 0x01, 0x05, 0x16] promptly]) = some s ∧
      s.held = [0x16, 0x03, 0x01, 0x05, 0x16] ∧
      (pollWritePaddingTls sampleUuid promptly s.writer [0x03]).1 = .panicked :=
  ⟨_, rfl, by decide, by decide⟩

end Shoes.Vless.PaddedWrites
