import Shoes.Lib.Io
import Shoes.V2board.UserDelta

/-! # The journal of user deltas

Beside the snapshot of a node lies a journal of the deltas that came after it. A record is its
length, its payload and a checksum. Reading stops at the first record that is not whole, which a
crash may have left at the end. -/
namespace Shoes.V2board.Journal
open Lib.Bytes Lib.Io Lib.SortedTable UserDelta List Option

structure Node where
  nodeId : Nat
  nodeType : List UInt8
  deriving DecidableEq

structure UserDeltaJournalRecord (U : Type) where
  schemaVersion : Nat
  nodeId : Nat
  nodeType : List UInt8
  userEtag : Option (List UInt8)
  userRevision : Nat
  updated : List U
  removed : List Nat
  deriving DecidableEq

structure NodeLkgSnapshot (U : Type) where
  userEtag : Option (List UInt8)
  userRevision : Option Nat
  users : List U
  deriving DecidableEq

structure Codec (U : Type) where
  encode : UserDeltaJournalRecord U → List UInt8
  decode : List UInt8 → Except String (UserDeltaJournalRecord U)
  hash : List UInt8 → UInt32
  decode_encode : ∀ r, decode (encode r) = .ok r

def journalSchemaVersion : Nat := 1
def journalCompactBytes : Nat := 8 * 1024 * 1024
def journalMaxRecordBytes : Nat := 64 * 1024 * 1024

variable {U : Type} (uid : U → Nat) (codec : Codec U) (node : Node)

section
variable (record : UserDeltaJournalRecord U)

/-- What an append writes, in three writes. -/
def lengthBytes : List UInt8 :=
  u32ToLeBytes (UInt32.ofNat (codec.encode record).length)

def checksumBytes : List UInt8 :=
  u32ToLeBytes (codec.hash (codec.encode record))

def frame : List UInt8 :=
  lengthBytes codec record ++ (codec.encode record ++ checksumBytes codec record)

def validateJournalRecord : Except IoError Unit :=
  if record.schemaVersion ≠ journalSchemaVersion then
    .error ⟨.invalidData, "unsupported LKG journal schema"⟩
  else if record.nodeId ≠ node.nodeId ∨ record.nodeType ≠ node.nodeType then
    .error ⟨.invalidData, "LKG journal belongs to a different V2Board node"⟩
  else .ok ()

end

/-- The records from an offset on, and where the readable part ends. -/
def scanJournal : Nat → Nat → List UInt8 → Except IoError (List (UserDeltaJournalRecord U) × Nat)
  | 0, offset, _ => .ok ([], offset)
  | fuel + 1, offset, rest =>
    if rest.length = 0 then .ok ([], offset)
    else if rest.length < 4 then .ok ([], offset)
    else
      let length := (u32FromLeBytes (rest.take 4)).toNat
      if length > journalMaxRecordBytes then .ok ([], offset)
      else if rest.length < 4 + length then .ok ([], offset)
      else if rest.length < 4 + length + 4 then .ok ([], offset)
      else
        let payload := slice rest 4 (4 + length)
        let expected := u32FromLeBytes (slice rest (4 + length) (4 + length + 4))
        if codec.hash payload ≠ expected then .ok ([], offset)
        else match codec.decode payload with
          | .error e => .error ⟨.invalidData, "failed to decode LKG journal record: " ++ e⟩
          | .ok record =>
            match validateJournalRecord node record with
            | .error e => .error e
            | .ok () =>
              match scanJournal fuel (offset + (4 + length + 4)) (rest.drop (4 + length + 4)) with
              | .error e => .error e
              | .ok (records, stop) => .ok (record :: records, stop)

/-- A record is applied unless the snapshot has its revision already. The flag says whether the
users are known to be in order. -/
def applyRecord (state : NodeLkgSnapshot U × Bool) (record : UserDeltaJournalRecord U) :
    NodeLkgSnapshot U × Bool :=
  if state.1.userRevision.any fun revision => decide (record.userRevision ≤ revision) then state
  else
    let users := if state.2 then state.1.users else sortByKey uid state.1.users
    (⟨record.userEtag, some record.userRevision,
      applyUserDelta uid users record.updated record.removed⟩, true)

def replayRecords (snapshot : NodeLkgSnapshot U) (records : List (UserDeltaJournalRecord U)) :
    NodeLkgSnapshot U :=
  (records.foldl (applyRecord uid) (snapshot, !outOfOrder uid snapshot.users)).1

/-- `replay_user_delta_journal_blocking`: the snapshot, and how much of the journal is kept. -/
def replayUserDeltaJournal (bytes : List UInt8) (snapshot : NodeLkgSnapshot U) :
    Except IoError (NodeLkgSnapshot U × Nat) :=
  match scanJournal codec node (bytes.length + 1) 0 bytes with
  | .error e => .error e
  | .ok (records, offset) => .ok (replayRecords uid snapshot records, offset)

/-! ## Reading back what was written -/

/-- A record that an append takes. -/
structure Valid (record : UserDeltaJournalRecord U) : Prop where
  length : (codec.encode record).length ≤ journalMaxRecordBytes
  node : validateJournalRecord node record = .ok ()

/-- What a crash may leave of a record: less than all of it. -/
def Torn (bs : List UInt8) : Prop :=
  bs = [] ∨ ∃ record : UserDeltaJournalRecord U, (codec.encode record).length ≤ journalMaxRecordBytes ∧
    ∃ k < (frame codec record).length, bs = (frame codec record).take k

/-- A whole record with its checksum stands at the front. -/
def Intact (bs : List UInt8) : Prop :=
  let length := (u32FromLeBytes (bs.take 4)).toNat
  4 ≤ bs.length ∧ length ≤ journalMaxRecordBytes ∧ 4 + length + 4 ≤ bs.length ∧
    codec.hash (slice bs 4 (4 + length)) = u32FromLeBytes (slice bs (4 + length) (4 + length + 4))

section
variable {uid codec node} {record : UserDeltaJournalRecord U} {bs : List UInt8}

theorem frame_length (codec : Codec U) (record) :
    (frame codec record).length = 4 + (codec.encode record).length + 4 := by
  simp only [frame, lengthBytes, checksumBytes, length_append, u32ToLeBytes_length]
  omega

theorem length_field (h : (codec.encode record).length ≤ journalMaxRecordBytes) :
    (u32FromLeBytes (lengthBytes codec record)).toNat = (codec.encode record).length := by
  rw [lengthBytes, u32FromLeBytes_toLeBytes]
  refine UInt32.toNat_ofNat_of_lt' (Nat.lt_of_le_of_lt h ?_)
  decide

theorem scanJournal_frame (h : Valid codec node record) (fuel offset rest) :
    scanJournal codec node (fuel + 1) offset (frame codec record ++ rest) =
      match scanJournal codec node fuel (offset + (frame codec record).length) rest with
      | .error e => .error e
      | .ok (records, stop) => .ok (record :: records, stop) := by
  have hlen := frame_length codec record
  have htake : (frame codec record ++ rest).take 4 = lengthBytes codec record := by
    rw [frame, append_assoc]
    exact take_left' (u32ToLeBytes_length _)
  have hfield := length_field h.length
  have hpayload : slice (frame codec record ++ rest) 4 (4 + (codec.encode record).length) =
      codec.encode record := by
    rw [frame, ← append_assoc, append_assoc]
    exact slice_append_left _ _ _ (u32ToLeBytes_length _) rfl
  have hchecksum : slice (frame codec record ++ rest) (4 + (codec.encode record).length)
      (4 + (codec.encode record).length + 4) = checksumBytes codec record := by
    rw [frame, ← append_assoc]
    refine slice_append_left _ _ _ ?_ ?_
    · rw [length_append, lengthBytes, u32ToLeBytes_length]
    · rw [checksumBytes, u32ToLeBytes_length]
  have hdrop : (frame codec record ++ rest).drop (4 + (codec.encode record).length + 4) = rest := by
    rw [← hlen, drop_left]
  have hmax := h.length
  rw [scanJournal]
  simp only [htake, hfield, hpayload, hchecksum, hdrop]
  rw [if_neg (by rw [length_append]; omega), if_neg (by rw [length_append]; omega),
    if_neg (by omega), if_neg (by rw [length_append]; omega),
    if_neg (by rw [length_append]; omega),
    if_neg (by rw [checksumBytes, u32FromLeBytes_toLeBytes]; simp), codec.decode_encode]
  dsimp only
  rw [h.node, hlen]

theorem Torn.not_intact (h : Torn codec bs) : ¬Intact codec bs := by
  rintro ⟨h4, -, hsum, -⟩
  rcases h with rfl | ⟨record, hmax, k, hk, rfl⟩
  · simp at h4
  have hlen := frame_length codec record
  have hbs : ((frame codec record).take k).length = k := length_take_of_le (by omega)
  rw [hbs] at h4 hsum
  have htake : ((frame codec record).take k).take 4 = lengthBytes codec record := by
    rw [take_take, min_eq_left h4, frame]
    exact take_left' (u32ToLeBytes_length _)
  rw [htake, length_field hmax] at hsum
  omega

theorem scanJournal_stop (h : ¬Intact codec bs) (fuel offset) :
    scanJournal codec node (fuel + 1) offset bs = .ok ([], offset) := by
  rw [scanJournal]
  dsimp only
  split_ifs with _ h4 hmax _ hsum hhash
  case neg =>
    exact absurd ⟨by omega, by omega, by omega, not_not.mp hhash⟩ h
  all_goals rfl

/-- **The records that were written are read back**, whatever is behind them that is not
one. -/
theorem scanJournal_records (h : ∀ r ∈ records, Valid codec node r) (hbs : ¬Intact codec bs) (fuel) :
    ∀ offset, records.length < fuel →
      scanJournal codec node fuel offset (records.flatMap (frame codec) ++ bs) =
        .ok (records, offset + (records.flatMap (frame codec)).length) := by
  induction records generalizing fuel with
  | nil =>
    intro offset hfuel
    obtain ⟨fuel, rfl⟩ := Nat.exists_eq_add_of_lt hfuel
    rw [flatMap_nil, nil_append, scanJournal_stop hbs]
    rfl
  | cons record records ih =>
    intro offset hfuel
    cases fuel with
    | zero => exact absurd hfuel (Nat.not_lt_zero _)
    | succ fuel =>
      obtain ⟨hrecord, hrest⟩ := forall_mem_cons.mp h
      rw [flatMap_cons, append_assoc, scanJournal_frame hrecord,
        ih hrest fuel _ (Nat.lt_of_succ_lt_succ hfuel), length_append, add_assoc]

theorem flatMap_frame_length (codec) (records : List (UserDeltaJournalRecord U)) :
    records.length ≤ (records.flatMap (frame codec)).length := by
  induction records with
  | nil => exact le_rfl
  | cons r records ih =>
    have := frame_length codec r
    rw [flatMap_cons, length_append, length_cons]
    omega

theorem replay_records (uid snapshot)
    (h : ∀ r ∈ records, Valid codec node r) (hbs : ¬Intact codec bs) :
    replayUserDeltaJournal uid codec node (records.flatMap (frame codec) ++ bs) snapshot =
      .ok (replayRecords uid snapshot records, (records.flatMap (frame codec)).length) := by
  have hlen := flatMap_frame_length codec records
  rw [replayUserDeltaJournal, scanJournal_records h hbs _ _
    (by rw [length_append]; omega), zero_add]

end

/-! ## Replaying -/

section
variable {uid} {snapshot : NodeLkgSnapshot U} {records : List (UserDeltaJournalRecord U)}
  {record : UserDeltaJournalRecord U}

theorem foldl_applyRecord (records : List (UserDeltaJournalRecord U))
    (h : Sorted uid snapshot.users) : (records.foldl (applyRecord uid) (snapshot, true)).2 = true ∧
      Sorted uid (records.foldl (applyRecord uid) (snapshot, true)).1.users := by
  induction records generalizing snapshot with
  | nil => exact ⟨rfl, h⟩
  | cons r records ih =>
    rw [foldl_cons]
    unfold applyRecord
    split
    · exact ih h
    · exact ih (applyUserDelta_sorted h r.updated r.removed)

theorem replayRecords_sorted (h : Sorted uid snapshot.users) :
    Sorted uid (replayRecords uid snapshot records).users := by
  rw [replayRecords, outOfOrder_sorted h]
  exact (foldl_applyRecord records h).2

theorem replayRecords_old (hsnapshot : snapshot.userRevision = some revision)
    (h : ∀ r ∈ records, r.userRevision ≤ revision) :
    replayRecords uid snapshot records = snapshot := by
  unfold replayRecords
  generalize (!outOfOrder uid snapshot.users) = sorted
  induction records with
  | nil => rfl
  | cons r records ih =>
    obtain ⟨hr, hrest⟩ := forall_mem_cons.mp h
    rw [foldl_cons, applyRecord, hsnapshot, any_some, if_pos (decide_eq_true hr)]
    exact ih hrest

theorem replayRecords_revision (h : Sorted uid snapshot.users)
    (hsnapshot : ∀ r, snapshot.userRevision = some r → r < revision)
    (hrecords : ∀ r ∈ records, r.userRevision < revision) :
    ∀ r, (replayRecords uid snapshot records).userRevision = some r → r < revision := by
  rw [replayRecords, outOfOrder_sorted h]
  clear h
  generalize (!false) = sorted
  induction records generalizing snapshot sorted with
  | nil => exact hsnapshot
  | cons r records ih =>
    obtain ⟨hr, hrest⟩ := forall_mem_cons.mp hrecords
    rw [foldl_cons]
    unfold applyRecord
    split
    · exact ih hsnapshot hrest sorted
    refine ih ?_ hrest true
    intro r' hr'
    cases hr'
    exact hr

/-- **A record with a new revision is applied to what the others leave.** -/
theorem replayRecords_append (h : Sorted uid snapshot.users)
    (hsnapshot : ∀ r, snapshot.userRevision = some r → r < record.userRevision)
    (hrecords : ∀ r ∈ records, r.userRevision < record.userRevision) :
    (replayRecords uid snapshot (records ++ [record])).users =
      applyUserDelta uid (replayRecords uid snapshot records).users record.updated
        record.removed := by
  have hrevision := replayRecords_revision h hsnapshot hrecords
  unfold replayRecords at hrevision ⊢
  rw [outOfOrder_sorted h] at hrevision ⊢
  obtain ⟨hflag, -⟩ := foldl_applyRecord records h
  rw [foldl_append, foldl_cons, foldl_nil]
  change (applyRecord uid (records.foldl (applyRecord uid) (snapshot, true)) record).1.users = _
  rw [applyRecord, if_neg, hflag]
  · rfl
  intro hany
  rcases hrev : (records.foldl (applyRecord uid) (snapshot, true)).1.userRevision with _ | r
  · simp [hrev] at hany
  have hlt := hrevision r hrev
  simp only [hrev, any_some, decide_eq_true_eq] at hany
  omega

/-- Every record applied, in order. -/
def applied (uid : U → Nat) (snapshot : NodeLkgSnapshot U)
    (records : List (UserDeltaJournalRecord U)) : NodeLkgSnapshot U :=
  match records.getLast? with
  | none => snapshot
  | some last =>
    ⟨last.userEtag, some last.userRevision,
      records.foldl (fun users r => applyUserDelta uid users r.updated r.removed)
        (sortIfNeeded uid snapshot.users)⟩

theorem applied_revision (hr : (applied uid snapshot records).userRevision = some r) :
    r ∈ snapshot.userRevision.toList ++ records.map (·.userRevision) := by
  unfold applied at hr
  rw [mem_append]
  split at hr
  · exact .inl (mem_toList.mpr hr)
  rename_i last hlast
  cases hr
  exact .inr (mem_map_of_mem (mem_of_getLast? hlast))

/-- **Records with increasing revisions are all applied.** -/
theorem replayRecords_applied
    (h : (snapshot.userRevision.toList ++ records.map (·.userRevision)).Pairwise (· < ·)) :
    replayRecords uid snapshot records = applied uid snapshot records := by
  have hfold : records.foldl (applyRecord uid) (snapshot, !outOfOrder uid snapshot.users) =
      (applied uid snapshot records, !records.isEmpty || !outOfOrder uid snapshot.users) := by
    induction records using reverseRecOn with
    | nil => rfl
    | append_singleton records record ih =>
      rw [map_append, ← append_assoc, pairwise_append] at h
      rw [foldl_append, ih h.1, foldl_cons, foldl_nil, applyRecord, if_neg]
      · cases records with
        | nil => cases horder : outOfOrder uid snapshot.users <;> simp [applied, sortIfNeeded, horder]
        | cons => simp [applied, getLast?_cons]
      intro hany
      rcases hr : (applied uid snapshot records).userRevision with _ | r
      · simp [hr] at hany
      have hlt := h.2.2 r (applied_revision hr) record.userRevision (by simp)
      simp only [hr, any_some, decide_eq_true_eq] at hany
      omega
  rw [replayRecords, hfold]

end

end Shoes.V2board.Journal
