import Shoes.Lib.Machine
import Shoes.V2board.Journal

/-! # The last-known-good state of a node

After a sync the controller appends the delta to the journal, or writes a new snapshot and removes
the journal. Both take several operations of the file system, and a crash may come between any two.
What was written to the journal and not synced may be lost from any point on. -/
namespace Shoes.V2board.Lkg
open Lib.Io Lib.Machine Lib.SortedTable UserDelta List
open Journal

variable {U : Type} [DecidableEq U]

/-! ## Files -/

structure JournalFile where
  synced : List UInt8
  unsynced : List UInt8
  deriving DecidableEq

def JournalFile.bytes (f : JournalFile) : List UInt8 := f.synced ++ f.unsynced

structure Disk (U : Type) where
  snapshot : Option (NodeLkgSnapshot U)
  journal : Option JournalFile
  deriving DecidableEq

def Disk.crash (d : Disk U) (kept : Nat) : Disk U :=
  { d with journal := d.journal.map fun f => ⟨f.synced ++ f.unsynced.take kept, []⟩ }

variable (uid : U → Nat) (codec : Codec U) (node : Node)

/-- `lkg::load`, which also cuts off what cannot be read of the journal. -/
def load (d : Disk U) : Except IoError (Option (NodeLkgSnapshot U) × Disk U) :=
  match d.snapshot with
  | none => .ok (none, d)
  | some snapshot =>
    match d.journal with
    | none => .ok (some snapshot, d)
    | some journal =>
      match replayUserDeltaJournal uid codec node journal.bytes snapshot with
      | .error e => .error e
      | .ok (snapshot, offset) =>
        .ok (some snapshot, { d with journal := some ⟨journal.bytes.take offset, []⟩ })

/-- The user list after a crash. -/
def recover (d : Disk U) (kept : Nat) : Except IoError (Option (List U)) :=
  match load uid codec node (d.crash kept) with
  | .error e => .error e
  | .ok (snapshot, _) => .ok (snapshot.map (·.users))

/-- The records that can be read from the journal. -/
def journalRecords (d : Disk U) : List (UserDeltaJournalRecord U) :=
  match d.journal with
  | none => []
  | some f =>
    match scanJournal codec node (f.bytes.length + 1) 0 f.bytes with
    | .error _ => []
    | .ok (records, _) => records

/-- An operation of the file system. Those on the temporary file of the snapshot do not touch what
`load` reads. -/
inductive Op (U : Type)
  | removeTmp
  | createTmp
  | writeTmp
  | syncTmp
  | rename (snapshot : NodeLkgSnapshot U)
  | setPermissions
  | removeJournal
  | syncDir
  | openJournal
  | writeJournal (bs : List UInt8)
  | syncJournal
  | measure (snapshot : NodeLkgSnapshot U)
  deriving DecidableEq

def Op.perform (d : Disk U) : Op U → Disk U
  | .rename snapshot => { d with snapshot := some snapshot }
  | .removeJournal => { d with journal := none }
  | .openJournal => { d with journal := some (d.journal.getD ⟨[], []⟩) }
  | .writeJournal bs =>
    { d with journal := d.journal.map fun f => { f with unsynced := f.unsynced ++ bs } }
  | .syncJournal => { d with journal := d.journal.map fun f => ⟨f.bytes, []⟩ }
  | _ => d

/-- A write that fails has written less than it was given. -/
def Op.performPart (d : Disk U) (written : Nat) : Op U → Disk U
  | .writeJournal bs => Op.perform d (.writeJournal (bs.take (min written (bs.length - 1))))
  | _ => d

/-- `persist_blocking`. -/
def persistOps (snapshot : NodeLkgSnapshot U) : List (Op U) :=
  [.removeTmp, .createTmp, .writeTmp, .syncTmp, .rename snapshot, .setPermissions, .removeJournal,
    .syncDir]

/-- `append_user_delta_blocking`, and then the compaction of a journal that has become long. -/
def appendOps (journalExisted : Bool) (record : UserDeltaJournalRecord U)
    (snapshot : NodeLkgSnapshot U) : List (Op U) :=
  [.openJournal, .writeJournal (lengthBytes codec record), .writeJournal (codec.encode record),
    .writeJournal (checksumBytes codec record), .syncJournal] ++
    (if journalExisted then [] else [.syncDir]) ++ [.measure snapshot]

/-! ## The controller -/

structure UserList (U : Type) where
  users : List U
  revision : Option Nat
  full : Bool
  removed : List Nat
  deriving DecidableEq

inductive UserListFetch (U : Type)
  | notModified
  | unchanged (etag : Option (List UInt8))
  | updated (etag : Option (List UInt8)) (value : UserList U)
  deriving DecidableEq

/-- A pull: the answer on the users, whether the rest of the configuration changed, whether there
is no runtime yet, and whether the pull fails before it is committed. -/
structure Pull (U : Type) where
  fetch : UserListFetch U
  nonUserChanged : Bool
  runtimeEmpty : Bool
  fails : Bool
  deriving DecidableEq

structure Controller (U : Type) where
  userEtag : Option (List UInt8)
  userRevision : Option Nat
  users : Option (List U)
  lkgPersistPending : Bool
  deriving DecidableEq

def Controller.invalidateUserCache (c : Controller U) : Controller U :=
  { c with userEtag := none, userRevision := none, users := none }

/-- What a pull would commit. -/
structure Candidate (U : Type) where
  userEtag : Option (List UInt8)
  userRevision : Option Nat
  users : Option (List U)
  usersChanged : Bool
  userDelta : Option (List U × List Nat)

/-- The candidate of an answer; there is none for a delta without a list to apply it to. -/
def Controller.candidate (c : Controller U) : UserListFetch U → Option (Candidate U)
  | .notModified => some ⟨c.userEtag, c.userRevision, c.users, false, none⟩
  | .unchanged etag => some ⟨etag, c.userRevision, c.users, false, none⟩
  | .updated etag value =>
    if !value.full && value.users.isEmpty && value.removed.isEmpty then
      c.users.map fun users => ⟨etag, value.revision, some users, false, none⟩
    else if value.full then
      let full := prepareFullUserList uid c.users value.users
      if full.2 then some ⟨etag, value.revision, some full.1, true, none⟩
      else some ⟨etag, value.revision, c.users, false, none⟩
    else
      c.users.map fun base =>
        let merged := mergeUserDelta uid base value.users value.removed
        ⟨etag, value.revision, some merged.1, merged.2,
          if merged.2 then some (value.users, value.removed) else none⟩

def Controller.snapshot (c : Controller U) (users : List U) : NodeLkgSnapshot U :=
  ⟨c.userEtag, c.userRevision, users⟩

def newRecord (etag : Option (List UInt8)) (revision : Nat) (updated : List U) (removed : List Nat) :
    UserDeltaJournalRecord U :=
  ⟨journalSchemaVersion, node.nodeId, node.nodeType, etag, revision, updated, removed⟩

/-- What the controller does to make the list durable. -/
inductive Plan (U : Type)
  | append (record : UserDeltaJournalRecord U)
  | persist

/-- How a committed candidate is persisted, if at all. A record that is too large is not
appended. -/
def Controller.plan (c : Controller U) (p : Pull U) (next : Candidate U) : Option (Plan U) :=
  let appliedGeneration := next.usersChanged || p.nonUserChanged || p.runtimeEmpty
  if appliedGeneration || c.lkgPersistPending then
    if !c.lkgPersistPending && !p.nonUserChanged then
      match next.userDelta, next.userRevision with
      | some (updated, removed), some revision =>
        let record := newRecord node next.userEtag revision updated removed
        if (codec.encode record).length > journalMaxRecordBytes then some .persist
        else some (.append record)
      | _, _ => some .persist
    else some .persist
  else none

/-- `restore_lkg`, if the runtime takes the snapshot. -/
def Controller.restored (snapshot : Option (NodeLkgSnapshot U)) (applies : Bool) : Controller U :=
  match snapshot, applies with
  | some snapshot, true =>
    ⟨snapshot.userEtag, snapshot.userRevision, some (sortIfNeeded uid snapshot.users), false⟩
  | _, _ => ⟨none, none, none, false⟩

/-! ## Runs -/

/-- The controller, the disk, and what is left of the persistence step in progress. `before` is the
disk when that step began; `durable` is the list of the last sync that was reported as persisted, or
what a restart recovered. -/
structure State (U : Type) where
  controller : Controller U
  disk : Disk U
  todo : List (Op U)
  before : Disk U
  durable : Option (List U)
  deriving DecidableEq

def State.new : State U := ⟨⟨none, none, none, false⟩, ⟨none, none⟩, [], ⟨none, none⟩, none⟩

inductive Event (U : Type)
  | pull (p : Pull U)
  | op
  | fail (written : Nat)
  | restart (kept : Nat) (applies : Bool)
  deriving DecidableEq

/-- `sync` up to the first operation of its persistence step. -/
def sync (s : State U) (p : Pull U) : State U :=
  match s.controller.candidate uid p.fetch with
  | none => { s with controller := s.controller.invalidateUserCache }
  | some next =>
    match next.users with
    | none => s
    | some users =>
      if p.fails then
        if s.controller.users.isNone then
          { s with controller := s.controller.invalidateUserCache }
        else s
      else
        let controller : Controller U :=
          { s.controller with
            userEtag := next.userEtag, userRevision := next.userRevision, users := some users }
        match s.controller.plan codec node p next with
        | none => { s with controller := controller }
        | some .persist =>
          { s with
            controller := controller
            todo := persistOps (controller.snapshot users)
            before := s.disk }
        | some (.append record) =>
          { s with
            controller := controller
            todo := appendOps codec s.disk.journal.isSome record (controller.snapshot users)
            before := s.disk }

/-- The persistence step has reported success. -/
def State.succeed (s : State U) : State U :=
  { s with
    controller := { s.controller with lkgPersistPending := false }
    todo := []
    durable := s.controller.users }

/-- What is left to do after an operation. -/
def Op.remaining (d : Disk U) (rest : List (Op U)) : Op U → List (Op U)
  | .measure snapshot =>
    if (d.journal.elim 0 fun f => f.bytes.length) ≥ journalCompactBytes then persistOps snapshot
    else rest
  | _ => rest

def next (s : State U) : Event U → Option (State U)
  | .pull p => if s.todo.isEmpty then some (sync uid codec node s p) else none
  | .op =>
    match s.todo with
    | [] => none
    | op :: rest =>
      let s := { s with disk := op.perform s.disk, todo := op.remaining s.disk rest }
      some (if s.todo.isEmpty then s.succeed else s)
  | .fail written =>
    match s.todo with
    | [] => none
    | op :: _ =>
      some { s with
        controller := { s.controller with lkgPersistPending := true }
        disk := op.performPart s.disk written
        todo := [] }
  | .restart kept applies =>
    match load uid codec node (s.disk.crash kept) with
    | .error _ => none
    | .ok (snapshot, disk) =>
      some ⟨.restored uid snapshot applies, disk, [], disk, snapshot.map (·.users)⟩

/-- **What recovery promises.** After a crash here the user list is the durable one, or that of the
sync in progress. -/
def Recovers (s : State U) : Prop :=
  ∀ kept, recover uid codec node s.disk kept = .ok s.durable ∨
    s.todo ≠ [] ∧ recover uid codec node s.disk kept = .ok s.controller.users

/-- What a plan needs of the revisions: a record must be newer than all that is on the disk, and
a snapshot must not be older than a record that lies beside it. -/
def Plan.Ordered (d : Disk U) (revision : Option Nat) : Plan U → Prop
  | .append record =>
    (∀ r ∈ d.snapshot.bind (·.userRevision), r < record.userRevision) ∧
      ∀ r ∈ journalRecords codec node d, r.userRevision < record.userRevision
  | .persist => ∀ r ∈ journalRecords codec node d, ∃ rev ∈ revision, r.userRevision ≤ rev

/-- A full list has no id twice. -/
def UserListFetch.SingleIds : UserListFetch U → Prop
  | .updated _ value => value.full = true → (value.users.map uid).Nodup
  | _ => True

/-- Steps that recovery can be trusted over: a full list has no id twice, the revisions are in
order, and an operation fails only as long as nothing of its step can be read from the disk. -/
def Safe (s : State U) : Event U → Prop
  | .pull p =>
    p.fetch.SingleIds uid ∧ ∀ next ∈ s.controller.candidate uid p.fetch,
      ∀ plan ∈ s.controller.plan codec node p next,
        plan.Ordered codec node s.disk next.userRevision
  | .fail _ =>
    s.disk.snapshot = s.before.snapshot ∧
      journalRecords codec node s.disk = journalRecords codec node s.before
  | .op => True
  | .restart _ _ => True

instance (d : Disk U) (revision : Option Nat) (plan : Plan U) :
    Decidable (plan.Ordered codec node d revision) :=
  match plan with
  | .append _ => inferInstanceAs (Decidable (_ ∧ _))
  | .persist => inferInstanceAs (Decidable (∀ r ∈ journalRecords codec node d, _))

instance (fetch : UserListFetch U) : Decidable (fetch.SingleIds uid) :=
  match fetch with
  | .updated _ value => inferInstanceAs (Decidable (value.full = true → _))
  | .unchanged _ | .notModified => inferInstanceAs (Decidable True)

instance (s : State U) (e : Event U) : Decidable (Safe uid codec node s e) :=
  match e with
  | .pull p => inferInstanceAs (Decidable (p.fetch.SingleIds uid ∧ _))
  | .fail _ => inferInstanceAs (Decidable (_ ∧ _))
  | .op | .restart _ _ => inferInstanceAs (Decidable True)

/-! ## What lies on the disk -/

/-- The user list of a disk with these records in its journal. -/
def contents (d : Disk U) (records : List (UserDeltaJournalRecord U)) : Option (List U) :=
  d.snapshot.map fun snapshot => (replayRecords uid snapshot records).users

/-- The journal has these records, synced, and behind them bytes that are not synced. -/
structure Holds (d : Disk U) (records : List (UserDeltaJournalRecord U)) (tail : List UInt8) :
    Prop where
  journal : d.journal = none ∧ records = [] ∧ tail = [] ∨
    d.journal = some ⟨records.flatMap (frame codec), tail⟩
  valid : ∀ r ∈ records, Valid codec node r

/-- What a crash leaves of a disk. -/
structure Left (d d' : Disk U) (records : List (UserDeltaJournalRecord U)) : Prop where
  snapshot : d'.snapshot = d.snapshot
  empty : d'.snapshot = none → d'.journal = none
  holds : Holds codec node d' records []

section
variable {uid codec node} {d : Disk U} {records : List (UserDeltaJournalRecord U)}
  {record : UserDeltaJournalRecord U} {tail : List UInt8}

omit [DecidableEq U]

theorem torn_nil : Torn codec [] := .inl rfl

theorem torn_take (h : Torn codec tail) (n) : Torn codec (tail.take n) := by
  rcases h with rfl | ⟨r, hmax, k, hk, rfl⟩
  · exact .inl (take_nil)
  refine .inr ⟨r, hmax, min n k, by omega, ?_⟩
  rw [take_take]

theorem journalRecords_eq (h : Holds codec node d records tail) (htorn : Torn codec tail) :
    journalRecords codec node d = records := by
  unfold journalRecords
  rcases h.journal with ⟨hnone, rfl, rfl⟩ | hsome
  · rw [hnone]
  have hscan := scanJournal_records h.valid htorn.not_intact
    ((records.flatMap (frame codec) ++ tail).length + 1) 0 ?_
  · rw [hsome]
    simp only [JournalFile.bytes, hscan]
  have := flatMap_frame_length codec records
  rw [length_append]
  omega

theorem load_crash (uid) (h : Holds codec node d records tail) (kept)
    (htorn : Torn codec (tail.take kept)) (hempty : d.snapshot = none → d.journal = none) :
    ∃ d', load uid codec node (d.crash kept) =
        .ok (d.snapshot.map fun snapshot => replayRecords uid snapshot records, d') ∧
      Left codec node d d' records := by
  rcases hsnapshot : d.snapshot with _ | snapshot
  · have hjournal := hempty hsnapshot
    rcases h.journal with ⟨-, rfl, rfl⟩ | hsome
    · have hcrash : (d.crash kept).journal = none := by simp [Disk.crash, hjournal]
      refine ⟨d.crash kept, ?_, rfl, fun _ => hcrash, ⟨.inl ⟨hcrash, rfl, rfl⟩, h.valid⟩⟩
      simp [load, Disk.crash, hsnapshot]
    · cases hjournal.symm.trans hsome
  rcases h.journal with ⟨hnone, rfl, rfl⟩ | hsome
  · have hcrash : (d.crash kept).journal = none := by simp [Disk.crash, hnone]
    refine ⟨d.crash kept, ?_, rfl, fun _ => hcrash, ⟨.inl ⟨hcrash, rfl, rfl⟩, h.valid⟩⟩
    simp [load, Disk.crash, hsnapshot, hnone, replayRecords]
  have hreplay := replay_records uid snapshot h.valid htorn.not_intact
  refine ⟨⟨some snapshot, some ⟨records.flatMap (frame codec), []⟩⟩, ?_, hsnapshot.symm,
    fun hnone => absurd hnone (Option.some_ne_none _), ⟨.inr rfl, h.valid⟩⟩
  simp only [load, Disk.crash, hsnapshot, hsome, Option.map_some, JournalFile.bytes,
    append_nil, hreplay, take_left]

theorem recover_eq (uid) (h : Holds codec node d records tail) (kept)
    (htorn : Torn codec (tail.take kept)) (hempty : d.snapshot = none → d.journal = none) :
    recover uid codec node d kept = .ok (contents uid d records) := by
  obtain ⟨d', hload, -⟩ := load_crash uid h kept htorn hempty
  rw [recover, hload]
  simp only [contents, Option.map_map]
  rfl

theorem frame_take (h : Valid codec node record) (kept) :
    Torn codec ((frame codec record).take kept) ∨
      (frame codec record).take kept = frame codec record := by
  by_cases hk : kept < (frame codec record).length
  · exact .inl (.inr ⟨record, h.length, kept, hk, rfl⟩)
  · exact .inr (take_of_length_le (not_lt.mp hk))

end

end Shoes.V2board.Lkg
