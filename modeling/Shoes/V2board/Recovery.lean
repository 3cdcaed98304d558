import Shoes.V2board.Lkg

/-! # Recovery over whole runs

The invariant says how far the persistence step in progress has come and what can be read from the
disk there. Every step that is safe keeps it, and wherever it holds a crash loses nothing. -/
namespace Shoes.V2board.Recovery
open Lib.Io Lib.Machine Lib.SortedTable UserDelta List
open Journal Lkg

variable {U : Type} (uid : U → Nat) (codec : Codec U) (node : Node)

/-! ## What a pull commits -/

section
variable {uid codec node} {c : Controller U} {next : Candidate U} {users : List U}

theorem candidate_spec [DecidableEq U] (h : c.candidate uid fetch = some next)
    (hc : ∀ us, c.users = some us → Sorted uid us)
    (hfull : fetch.SingleIds uid) (husers : next.users = some users) :
    Sorted uid users ∧ (next.usersChanged = false → c.users = some users) ∧
      ∀ updated removed, next.userDelta = some (updated, removed) →
        ∃ base, c.users = some base ∧ users = applyUserDelta uid base updated removed := by
  cases fetch with
  | notModified | unchanged =>
    cases h
    exact ⟨hc users husers, fun _ => husers, nofun⟩
  | updated =>
    simp only [Controller.candidate] at h
    split at h
    · -- an empty delta
      obtain ⟨_, hus, rfl⟩ := Option.map_eq_some_iff.mp h
      cases husers
      exact ⟨hc users hus, fun _ => hus, nofun⟩
    split at h
    · -- the full list
      rename_i hisFull
      have hsorted := sortByKey_sorted (hfull hisFull)
      split at h <;> cases h
      · cases husers
        exact ⟨hsorted, nofun, nofun⟩
      exact ⟨hc users husers, fun _ => husers, nofun⟩
    -- a delta
    obtain ⟨base, hbase, rfl⟩ := Option.map_eq_some_iff.mp h
    have hsorted := hc base hbase
    cases husers
    refine ⟨?_, ?_, ?_⟩
    · rw [mergeUserDelta_fst hsorted]
      exact applyUserDelta_sorted hsorted _ _
    · intro hunchanged
      rw [mergeUserDelta_unchanged hsorted hunchanged, hbase]
    intro updated removed hdelta
    dsimp only at hdelta
    obtain ⟨-, ⟨⟩⟩ := Option.ite_none_right_eq_some.mp hdelta
    exact ⟨base, hbase, mergeUserDelta_fst hsorted _ _⟩

theorem plan_none (h : c.plan codec node p next = none) :
    next.usersChanged = false ∧ c.lkgPersistPending = false := by
  unfold Controller.plan at h
  dsimp only at h
  split at h
  · split at h
    · split at h
      · split at h <;> cases h
      · cases h
    · cases h
  rename_i happlied
  simp only [Bool.or_eq_true, not_or, Bool.not_eq_true] at happlied
  exact ⟨happlied.1.1.1, happlied.2⟩

theorem plan_append (h : c.plan codec node p next = some (.append record)) :
    c.lkgPersistPending = false ∧ Valid codec node record ∧
      next.userRevision = some record.userRevision ∧
      next.userDelta = some (record.updated, record.removed) := by
  unfold Controller.plan at h
  dsimp only at h
  split at h
  swap
  · cases h
  split at h
  swap
  · cases h
  rename_i hdue
  simp only [Bool.and_eq_true, Bool.not_eq_true'] at hdue
  split at h
  next updated removed revision hdelta hrevision =>
    split at h <;> cases h
    rename_i hlen
    refine ⟨hdue.1, ⟨not_lt.mp hlen, ?_⟩, hrevision, hdelta⟩
    simp [validateJournalRecord, newRecord]
  · cases h

end

/-! ## The invariant -/

def isTmp : Op U → Bool
  | .removeTmp | .createTmp | .writeTmp | .syncTmp => true
  | _ => false

theorem tmpOps_isTmp :
    ∀ op ∈ ([.removeTmp, .createTmp, .writeTmp, .syncTmp] : List (Op U)), isTmp op = true := by
  intro op hop
  simp only [mem_cons, not_mem_nil, or_false] at hop
  rcases hop with rfl | rfl | rfl | rfl <;> rfl

/-- The journal has no record that is newer than the snapshot to come. -/
def Covered (revision : Option Nat) (records : List (UserDeltaJournalRecord U)) : Prop :=
  ∀ r ∈ records, ∃ rev ∈ revision, r.userRevision ≤ rev

/-- A record is being appended to these. -/
structure Appending (s : State U) (records : List (UserDeltaJournalRecord U))
    (record : UserDeltaJournalRecord U) (users : List U) : Prop where
  current : s.controller.users = some users
  valid : Valid codec node record
  old : contents uid s.disk records = s.durable
  new : contents uid s.disk (records ++ [record]) = some users
  covered : Covered s.controller.userRevision (records ++ [record])
  before : journalRecords codec node s.before = records

/-- What follows the sync of the journal. -/
def afterSync (existed : Bool) (snapshot : NodeLkgSnapshot U) : List (Op U) :=
  (if existed then [] else [.syncDir]) ++ [.measure snapshot]

/-- Between two syncs. -/
structure Idle (s : State U) (records : List (UserDeltaJournalRecord U)) (tail : List UInt8) :
    Prop where
  holds : Holds codec node s.disk records tail
  torn : Torn codec tail
  durable : contents uid s.disk records = s.durable
  settled : s.controller.lkgPersistPending = false →
    tail = [] ∧ ∀ users, s.controller.users = some users → s.durable = some users

/-- How far the persistence step in progress has come. -/
inductive Phase (s : State U) : Prop
  | idle (records : List (UserDeltaJournalRecord U)) (tail : List UInt8) (todo : s.todo = [])
      (idle : Idle uid codec node s records tail)
  | saving (records : List (UserDeltaJournalRecord U)) (tail : List UInt8) (tmp : List (Op U))
      (users : List U) (isTmp : ∀ op ∈ tmp, isTmp op = true)
      (todo : s.todo = tmp ++ [.rename (s.controller.snapshot users), .setPermissions,
        .removeJournal, .syncDir])
      (holds : Holds codec node s.disk records tail) (torn : Torn codec tail)
      (current : s.controller.users = some users)
      (contents : contents uid s.disk records = s.durable ∨
        contents uid s.disk records = some users)
      (covered : Covered s.controller.userRevision records)
  | renamed (records : List (UserDeltaJournalRecord U)) (tail : List UInt8) (users : List U)
      (todo : s.todo = [.setPermissions, .removeJournal, .syncDir] ∨
        s.todo = [.removeJournal, .syncDir])
      (holds : Holds codec node s.disk records tail) (torn : Torn codec tail)
      (current : s.controller.users = some users)
      (snapshot : s.disk.snapshot = some (s.controller.snapshot users))
      (covered : Covered s.controller.userRevision records)
  | removed (users : List U) (todo : s.todo = [.syncDir])
      (current : s.controller.users = some users)
      (snapshot : s.disk.snapshot = some (s.controller.snapshot users))
      (journal : s.disk.journal = none)
  | opening (records : List (UserDeltaJournalRecord U)) (record : UserDeltaJournalRecord U)
      (users : List U) (existed : Bool)
      (todo : s.todo = appendOps codec existed record (s.controller.snapshot users))
      (holds : Holds codec node s.disk records [])
      (appending : Appending uid codec node s records record users)
  | writing (records : List (UserDeltaJournalRecord U)) (record : UserDeltaJournalRecord U)
      (users : List U) (existed : Bool) (written : List UInt8) (left : List (List UInt8))
      (todo : s.todo = left.map .writeJournal ++ .writeJournal (checksumBytes codec record) ::
        .syncJournal :: afterSync existed (s.controller.snapshot users))
      (frame : written ++ (left.flatten ++ checksumBytes codec record) = frame codec record)
      (journal : s.disk.journal.isSome = true)
      (holds : Holds codec node s.disk records written)
      (appending : Appending uid codec node s records record users)
  | written (records : List (UserDeltaJournalRecord U)) (record : UserDeltaJournalRecord U)
      (users : List U) (existed : Bool)
      (todo : s.todo = .syncJournal :: afterSync existed (s.controller.snapshot users))
      (holds : Holds codec node s.disk records (Journal.frame codec record))
      (journal : s.disk.journal.isSome = true)
      (appending : Appending uid codec node s records record users)
  | logged (records : List (UserDeltaJournalRecord U)) (users : List U) (syncsDir : Bool)
      (todo : s.todo = afterSync (!syncsDir) (s.controller.snapshot users))
      (holds : Holds codec node s.disk records [])
      (current : s.controller.users = some users)
      (new : contents uid s.disk records = some users)
      (covered : Covered s.controller.userRevision records)

structure Inv (s : State U) : Prop where
  phase : Phase uid codec node s
  empty : s.disk.snapshot = none → s.disk.journal = none
  snapshotSorted : ∀ snapshot, s.disk.snapshot = some snapshot → Sorted uid snapshot.users
  usersSorted : ∀ users, s.controller.users = some users → Sorted uid users
  before : s.todo ≠ [] →
    contents uid s.before (journalRecords codec node s.before) = s.durable

section
variable {uid codec node} {s s' : State U}

variable {records : List (UserDeltaJournalRecord U)} {tail : List UInt8}

variable {d : Disk U}

theorem contents_covered (hsnapshot : d.snapshot = some snapshot)
    (h : Covered snapshot.userRevision records) : contents uid d records = some snapshot.users := by
  rw [contents, hsnapshot, Option.map_some]
  rcases records with _ | ⟨r, _⟩
  · rfl
  obtain ⟨_, hrev, -⟩ := h r (mem_cons_self ..)
  rw [replayRecords_old hrev]
  intro r' hr'
  obtain ⟨_, hrev', hle⟩ := h r' hr'
  cases hrev.symm.trans hrev'
  exact hle

theorem checksumBytes_length (record) :
    (checksumBytes codec record).length = 4 := Shoes.Lib.Bytes.u32ToLeBytes_length _

theorem torn_of_append (missing) (hvalid : Valid codec node record)
    (h : written ++ missing = frame codec record)
    (hmissing : 0 < missing.length) : Torn codec written := by
  refine .inr ⟨record, hvalid.length, written.length, ?_, ?_⟩
  · rw [← h, length_append]
    omega
  · rw [← h, take_left]

theorem journal_some (h : Holds codec node d records tail) (hsome : d.journal.isSome = true) :
    d.journal = some ⟨records.flatMap (frame codec), tail⟩ := by
  rcases h.journal with ⟨hnone, -, -⟩ | hjournal
  · simp [hnone] at hsome
  · exact hjournal

theorem holds_synced (h : Holds codec node d records (frame codec record))
    (hjournal : d.journal.isSome = true) (hvalid : Valid codec node record) :
    Holds codec node (Op.perform d .syncJournal) (records ++ [record]) [] := by
  refine ⟨.inr ?_, ?_⟩
  · simp [Op.perform, journal_some h hjournal, JournalFile.bytes]
  intro r hr
  rcases mem_append.mp hr with hr | hr
  · exact h.valid r hr
  obtain rfl := mem_singleton.mp hr
  exact hvalid

theorem empty_synced (h : d.snapshot = none → d.journal = none)
    (hnone : (Op.perform d .syncJournal).snapshot = none) :
    (Op.perform d .syncJournal).journal = none := by
  simp [Op.perform, h hnone]

theorem holds_nil (h : d.journal = none) : Holds codec node d [] [] :=
  ⟨.inl ⟨h, rfl, rfl⟩, fun _ h => absurd h not_mem_nil⟩

section
variable (h : Inv uid codec node s)
include h

/-- A crash leaves what it would leave of a disk whose journal has whole records and a torn one, and
these are what is to be recovered. -/
theorem Inv.crashed (kept) : ∃ d kept' records tail,
    s.disk.crash kept = d.crash kept' ∧ d.snapshot = s.disk.snapshot ∧
      (d.snapshot = none → d.journal = none) ∧ Holds codec node d records tail ∧
      Torn codec (tail.take kept') ∧ (contents uid d records = s.durable ∨
        s.todo ≠ [] ∧ contents uid d records = s.controller.users) := by
  cases h.phase with
  | idle records tail todo idle =>
    exact ⟨s.disk, kept, _, _, rfl, rfl, h.empty, idle.holds, torn_take idle.torn kept,
      .inl idle.durable⟩
  | saving records tail tmp users isTmp todo holds torn current contents =>
    exact ⟨s.disk, kept, _, _, rfl, rfl, h.empty, holds, torn_take torn kept,
      contents.imp_right fun hnew => ⟨by simp [todo], hnew.trans current.symm⟩⟩
  | renamed records tail users todo holds torn current snapshot covered =>
    refine ⟨s.disk, kept, _, _, rfl, rfl, h.empty, holds, torn_take torn kept,
      .inr ⟨by rcases todo with todo | todo <;> simp [todo], ?_⟩⟩
    rw [contents_covered snapshot covered, current]
    rfl
  | removed users todo current snapshot journal =>
    refine ⟨s.disk, kept, _, _, rfl, rfl, h.empty, holds_nil journal, torn_take torn_nil kept,
      .inr ⟨by simp [todo], ?_⟩⟩
    rw [contents_covered snapshot (fun _ h => absurd h not_mem_nil), current]
    rfl
  | opening records record users existed todo holds appending =>
    exact ⟨s.disk, kept, _, _, rfl, rfl, h.empty, holds, torn_take torn_nil kept,
      .inl appending.old⟩
  | writing records record users existed written left todo frame journal holds appending =>
    refine ⟨s.disk, kept, _, _, rfl, rfl, h.empty, holds,
      torn_take (torn_of_append _ appending.valid frame ?_) kept, .inl appending.old⟩
    rw [length_append, checksumBytes_length]
    omega
  | written records record users existed todo holds journal appending =>
    rcases frame_take appending.valid kept with htorn | hwhole
    · exact ⟨s.disk, kept, _, _, rfl, rfl, h.empty, holds, htorn, .inl appending.old⟩
    -- the record survives whole, as if it were synced
    refine ⟨Op.perform s.disk .syncJournal, 0, _, _, ?_, rfl, empty_synced h.empty,
      holds_synced holds journal appending.valid, torn_take torn_nil 0,
      .inr ⟨by simp [todo], appending.new.trans appending.current.symm⟩⟩
    simp [Disk.crash, Op.perform, journal_some holds journal, hwhole, JournalFile.bytes]
  | logged records users syncsDir todo holds current new =>
    exact ⟨s.disk, kept, _, _, rfl, rfl, h.empty, holds, torn_take torn_nil kept,
      .inr ⟨by simp [todo, afterSync], new.trans current.symm⟩⟩

/-- **Where the invariant holds a crash loses nothing.** -/
theorem Inv.recovers : Recovers uid codec node s := by
  intro kept
  obtain ⟨d, kept', records, _, hcrash, -, hempty, holds, torn, hcontents⟩ := h.crashed kept
  have hrecover : recover uid codec node s.disk kept = .ok (contents uid d records) := by
    rw [← recover_eq uid holds kept' torn hempty, recover, recover, hcrash]
  rw [hrecover]
  rcases hcontents with hold | ⟨hbusy, hnew⟩
  · exact .inl (by rw [hold])
  · exact .inr ⟨hbusy, by rw [hnew]⟩

section
variable (hempty : d.snapshot = none → d.journal = none)
include hempty

theorem Inv.done
    (hsorted : ∀ snapshot, d.snapshot = some snapshot → Sorted uid snapshot.users)
    (current : s.controller.users = some users) (holds : Holds codec node d records [])
    (new : contents uid d records = some users) :
    Inv uid codec node (State.succeed { s with disk := d, todo := [] }) where
  phase := .idle records [] rfl ⟨holds, torn_nil, new.trans current.symm,
    fun _ => ⟨rfl, fun _ h => h⟩⟩
  empty := hempty
  snapshotSorted := hsorted
  usersSorted := h.usersSorted
  before := fun hne => absurd rfl hne

theorem Inv.failed
    (hsnapshot : d.snapshot = s.disk.snapshot) (holds : Holds codec node d records tail)
    (torn : Torn codec tail) (durable : contents uid d records = s.durable) :
    Inv uid codec node { s with
      controller := { s.controller with lkgPersistPending := true }
      disk := d
      todo := [] } where
  phase := .idle records tail rfl ⟨holds, torn, durable, nofun⟩
  empty := hempty
  snapshotSorted := by
    rw [hsnapshot]
    exact h.snapshotSorted
  usersSorted := h.usersSorted
  before := fun hne => absurd rfl hne

end

theorem Inv.unread (hbusy : s.todo ≠ [])
    (holds : Holds codec node s.disk records tail)
    (torn : Torn codec tail) (hsnapshot : s.disk.snapshot = s.before.snapshot)
    (hrecords : journalRecords codec node s.disk = journalRecords codec node s.before) :
    contents uid s.disk records = s.durable := by
  rw [← h.before hbusy, ← hrecords, journalRecords_eq holds torn, contents, hsnapshot]
  rfl

theorem Inv.loads (kept) :
    ∃ records d', load uid codec node (s.disk.crash kept) =
        .ok (s.disk.snapshot.map fun snapshot => replayRecords uid snapshot records, d') ∧
      Left codec node s.disk d' records := by
  obtain ⟨d, kept', records, _, hcrash, hsnapshot, hempty, holds, torn, -⟩ := h.crashed kept
  obtain ⟨d', hd', hleft⟩ := load_crash uid holds kept' torn hempty
  rw [hcrash, ← hsnapshot]
  exact ⟨records, d', hd', hleft.snapshot.trans hsnapshot, hleft.empty, hleft.holds⟩

theorem Inv.idle (htodo : s.todo = []) :
    ∃ records tail, Idle uid codec node s records tail := by
  cases h.phase with
  | idle records tail todo idle => exact ⟨records, tail, idle⟩
  | saving records tail tmp users isTmp todo
  | renamed records tail users todo
  | removed users todo => simp [htodo] at todo
  | opening records record users existed todo => simp [htodo, appendOps] at todo
  | writing records record users existed written left todo
  | written records record users existed todo => simp [htodo] at todo
  | logged records users syncsDir todo => simp [htodo, afterSync] at todo

theorem Inv.invalidate (htodo : s.todo = [])
    (idle : Idle uid codec node s records tail) :
    Inv uid codec node { s with controller := s.controller.invalidateUserCache } where
  phase := .idle records tail htodo ⟨idle.holds, idle.torn, idle.durable,
    fun hp => ⟨(idle.settled hp).1, nofun⟩⟩
  empty := h.empty
  snapshotSorted := h.snapshotSorted
  usersSorted := nofun
  before := fun hne => absurd htodo hne

end

theorem new_inv : Inv uid codec node (State.new : State U) where
  phase := .idle [] [] rfl ⟨holds_nil rfl, torn_nil, rfl, fun _ => ⟨rfl, nofun⟩⟩
  empty := fun _ => rfl
  snapshotSorted := nofun
  usersSorted := nofun
  before := fun hne => absurd rfl hne

/-! ## One step -/

variable [DecidableEq U]

theorem Inv.more (h : Inv uid codec node s) (hnext : next uid codec node s .op = some s')
    (htodo : s.todo = op :: rest) (hrest : op.remaining s.disk rest = todo) (hne : todo ≠ [])
    (hempty : (op.perform s.disk).snapshot = none → (op.perform s.disk).journal = none)
    (hsorted : ∀ snapshot, (op.perform s.disk).snapshot = some snapshot → Sorted uid snapshot.users)
    (phase : Phase uid codec node { s with disk := op.perform s.disk, todo }) :
    Inv uid codec node s' := by
  obtain ⟨o, os, rfl⟩ := exists_cons_of_ne_nil hne
  simp only [Lkg.next, htodo, hrest, Option.some.injEq] at hnext
  subst hnext
  exact ⟨phase, hempty, hsorted, h.usersSorted, fun _ => h.before (by simp [htodo])⟩

theorem next_op_done (h : s.todo = op :: rest) (hrest : op.remaining s.disk rest = []) :
    next uid codec node s .op =
      some (State.succeed { s with disk := op.perform s.disk, todo := [] }) := by
  simp [Lkg.next, h, hrest]

theorem op_inv (h : Inv uid codec node s) (hnext : next uid codec node s .op = some s') :
    Inv uid codec node s' := by
  have hempty := h.empty
  have hsorted := h.snapshotSorted
  cases h.phase with
  | idle records tail todo => simp [Lkg.next, todo] at hnext
  | saving records tail tmp users isTmp todo holds torn current contents covered =>
    rcases tmp with _ | ⟨op, tmp⟩
    · -- the snapshot takes its place
      refine h.more hnext todo rfl (cons_ne_nil _ _) nofun ?_ (.renamed records tail users
        (.inl rfl) ⟨?_, holds.valid⟩ torn current rfl covered)
      · intro snapshot hsnapshot
        cases hsnapshot
        exact h.usersSorted users current
      · exact holds.journal
    obtain ⟨hop, htmp⟩ := forall_mem_cons.mp isTmp
    have hdisk : op.perform s.disk = s.disk := by cases op <;> first | rfl | cases hop
    have hremaining (rest : List (Op U)) : op.remaining s.disk rest = rest := by
      cases op <;> first | rfl | cases hop
    refine h.more hnext todo (hremaining _) (by simp) ?_ ?_ ?_
    all_goals rw [hdisk]
    · exact hempty
    · exact hsorted
    · exact .saving records tail tmp users htmp rfl holds torn current contents covered
  | renamed records tail users todo holds torn current snapshot covered =>
    rcases todo with todo | todo
    · exact h.more hnext todo rfl (cons_ne_nil _ _) hempty hsorted
        (.renamed records tail users (.inr rfl) holds torn current snapshot covered)
    exact h.more hnext todo rfl (cons_ne_nil _ _) (fun _ => rfl) hsorted
      (.removed users rfl current snapshot rfl)
  | removed users todo current snapshot journal =>
    rw [next_op_done todo rfl] at hnext
    cases hnext
    exact h.done hempty hsorted current (holds_nil journal)
      (contents_covered snapshot fun _ h => absurd h not_mem_nil)
  | opening records record users existed todo holds appending =>
    have hsome : s.disk.snapshot ≠ none := by
      intro hnone
      have hnew := appending.new
      rw [contents, hnone] at hnew
      cases hnew
    refine h.more hnext todo rfl (by simp [Op.remaining]) (fun hnone => absurd hnone hsome) hsorted
      (.writing records record users existed [] [lengthBytes codec record, codec.encode record]
        (by simp [Op.remaining, afterSync]) ?_ rfl ⟨.inr ?_, holds.valid⟩ { appending with })
    · simp [frame]
    rcases holds.journal with ⟨hnone, rfl, -⟩ | hsome
    · simp [Op.perform, hnone]
    · simp [Op.perform, hsome]
  | writing records record users existed written left todo frame journal holds appending =>
    have hjournal := journal_some holds journal
    have hempty' : ∀ bs, (Op.perform s.disk (.writeJournal bs)).snapshot = none →
        (Op.perform s.disk (.writeJournal bs)).journal = none := by
      intro bs hnone
      cases hjournal.symm.trans (hempty hnone)
    rcases left with _ | ⟨piece, left⟩
    · refine h.more hnext todo rfl (cons_ne_nil _ _) (hempty' _) hsorted
        (.written records record users existed rfl ⟨.inr ?_, holds.valid⟩ ?_ { appending with })
      · simp only [Op.perform, hjournal, Option.map_some]
        rw [← frame]
        rfl
      · simp [Op.perform, hjournal]
    refine h.more hnext todo rfl (by simp [Op.remaining]) (hempty' _) hsorted
      (.writing records record users existed (written ++ piece) left rfl ?_ ?_
        ⟨.inr ?_, holds.valid⟩ { appending with })
    · rw [← frame]
      simp
    · simp [Op.perform, hjournal]
    · simp [Op.perform, hjournal]
  | written records record users existed todo holds journal appending =>
    refine h.more hnext todo rfl (by simp [Op.remaining, afterSync]) (empty_synced hempty) hsorted
      (.logged (records ++ [record]) users (!existed) ?_
        (holds_synced holds journal appending.valid) appending.current appending.new
        appending.covered)
    rw [Bool.not_not]
    rfl
  | logged records users syncsDir todo holds current new covered =>
    cases syncsDir with
    | true =>
      exact h.more hnext todo rfl (cons_ne_nil _ _) hempty hsorted
        (.logged records users false rfl holds current new covered)
    | false =>
      by_cases hlarge : (s.disk.journal.elim 0 fun f => f.bytes.length) ≥ journalCompactBytes
      · exact h.more hnext todo (if_pos hlarge) (cons_ne_nil _ _) hempty hsorted
          (.saving records [] [.removeTmp, .createTmp, .writeTmp, .syncTmp] users tmpOps_isTmp rfl
            holds torn_nil current (.inr new) covered)
      rw [next_op_done todo (if_neg hlarge)] at hnext
      cases hnext
      exact h.done hempty hsorted current holds new

theorem next_fail (written) (h : s.todo = op :: rest) : next uid codec node s (.fail written) =
      some { s with
        controller := { s.controller with lkgPersistPending := true }
        disk := op.performPart s.disk written
        todo := [] } := by
  simp only [Lkg.next, h]

section
variable (h : Inv uid codec node s)
include h

theorem fail_inv (hsafe : Safe uid codec node s (.fail written))
    (hnext : next uid codec node s (.fail written) = some s') : Inv uid codec node s' := by
  obtain ⟨hsnapshot, hrecords⟩ := hsafe
  have hempty := h.empty
  -- an operation other than a write of the journal leaves the disk as it is
  have hquiet : ∀ {records tail op rest}, s.todo = op :: rest →
      op.performPart s.disk written = s.disk → Holds codec node s.disk records tail →
      Torn codec tail → Inv uid codec node s' := by
    intro records tail op rest htodo hdisk holds torn
    rw [next_fail written htodo, hdisk] at hnext
    cases hnext
    exact h.failed hempty rfl holds torn (h.unread (by simp [htodo]) holds torn hsnapshot hrecords)
  cases h.phase with
  | idle records tail todo => simp [Lkg.next, todo] at hnext
  | saving records tail tmp users isTmp todo holds torn =>
    rcases tmp with _ | ⟨op, _⟩
    · exact hquiet todo rfl holds torn
    refine hquiet todo ?_ holds torn
    have hop := isTmp op (mem_cons_self ..)
    cases op <;> first | rfl | cases hop
  | renamed records tail users todo holds torn =>
    rcases todo with todo | todo <;> exact hquiet todo rfl holds torn
  | removed users todo current snapshot journal => exact hquiet todo rfl (holds_nil journal) torn_nil
  | opening records record users existed todo holds => exact hquiet todo rfl holds torn_nil
  | writing records record users existed done left todo frame journal holds appending =>
    have hjournal := journal_some holds journal
    -- whichever piece is being written, part of it leaves the record torn
    have hpart : ∀ piece more rest, s.todo = .writeJournal piece :: rest →
        done ++ (piece ++ more) = Journal.frame codec record → 0 < piece.length + more.length →
        Inv uid codec node s' := by
      intro piece more rest htodo hframe hpos
      rw [next_fail written htodo] at hnext
      cases hnext
      have hn : min written (piece.length - 1) ≤ piece.length - 1 := min_le_right ..
      generalize hpart : min written (piece.length - 1) = n at hn
      have htorn : Torn codec (done ++ piece.take n) := by
        refine torn_of_append (piece.drop n ++ more) appending.valid ?_ ?_
        · rw [append_assoc, ← append_assoc (piece.take n), take_append_drop, hframe]
        rw [length_append, length_drop]
        omega
      refine h.failed ?_ rfl ⟨.inr ?_, holds.valid⟩ htorn appending.old
      · intro hnone
        cases hjournal.symm.trans (hempty hnone)
      · simp [Op.performPart, Op.perform, hjournal, hpart]
    rcases left with _ | ⟨piece, left⟩
    · refine hpart (checksumBytes codec record) [] _ todo (by rw [append_nil]; exact frame) ?_
      rw [checksumBytes_length]
      omega
    refine hpart piece (left.flatten ++ checksumBytes codec record) _ todo ?_ ?_
    · rw [← frame, flatten_cons, append_assoc]
    rw [length_append, checksumBytes_length]
    omega
  | written records record users existed todo holds journal appending =>
    -- the record can be read already
    have hread := journalRecords_eq (holds_synced holds journal appending.valid) torn_nil
    have hsame : journalRecords codec node (Op.perform s.disk .syncJournal) =
        journalRecords codec node s.disk := by
      simp [journalRecords, Op.perform, journal_some holds journal, JournalFile.bytes]
    rw [← hsame, hread, appending.before] at hrecords
    simp at hrecords
  | logged records users syncsDir todo holds =>
    cases syncsDir <;> exact hquiet todo rfl holds torn_nil

theorem restart_inv
    (hnext : next uid codec node s (.restart kept applies) = some s') : Inv uid codec node s' := by
  obtain ⟨records, d', hload, hleft⟩ := h.loads kept
  have hsorted : ∀ snapshot, d'.snapshot = some snapshot → Sorted uid snapshot.users := by
    rw [hleft.snapshot]
    exact h.snapshotSorted
  have hreplayed : ∀ replayed, (s.disk.snapshot.map fun snapshot =>
      replayRecords uid snapshot records) = some replayed → Sorted uid replayed.users := by
    intro replayed hreplayed
    obtain ⟨snapshot, hsnapshot, rfl⟩ := Option.map_eq_some_iff.mp hreplayed
    exact replayRecords_sorted (h.snapshotSorted snapshot hsnapshot)
  have hcontents : contents uid d' records = (s.disk.snapshot.map fun snapshot =>
      replayRecords uid snapshot records).map (·.users) := by
    rw [contents, hleft.snapshot, Option.map_map]
    rfl
  simp only [Lkg.next, hload, Option.some.injEq] at hnext
  subst hnext
  generalize (s.disk.snapshot.map fun snapshot => replayRecords uid snapshot records) = replayed
    at hreplayed hcontents ⊢
  have hrestored : ∀ users, (Controller.restored uid replayed applies).users = some users →
      replayed.map (·.users) = some users ∧ Sorted uid users := by
    intro users husers
    rcases replayed with _ | snapshot
    · cases husers
    rcases applies with _ | _
    · cases husers
    have hs := hreplayed snapshot rfl
    simp only [Controller.restored, sortIfNeeded_sorted hs, Option.some.injEq] at husers
    subst husers
    exact ⟨rfl, hs⟩
  exact {
    phase := .idle records [] rfl ⟨hleft.holds, torn_nil, hcontents,
      fun _ => ⟨rfl, fun users husers => (hrestored users husers).1⟩⟩
    empty := hleft.empty
    snapshotSorted := hsorted
    usersSorted := fun users husers => (hrestored users husers).2
    before := fun hne => absurd rfl hne }

theorem pull_inv (hsafe : Safe uid codec node s (.pull p))
    (hnext : next uid codec node s (.pull p) = some s') : Inv uid codec node s' := by
  obtain ⟨hnodup, hordered⟩ := hsafe
  have htodo : s.todo = [] := by
    by_contra hne
    simp [Lkg.next, hne] at hnext
  obtain ⟨records, tail, idle⟩ := h.idle htodo
  have hrecords := journalRecords_eq idle.holds idle.torn
  simp only [Lkg.next, htodo, isEmpty_nil, if_true, Option.some.injEq] at hnext
  subst hnext
  unfold sync
  rcases hcandidate : s.controller.candidate uid p.fetch with _ | next
  · exact h.invalidate htodo idle
  rcases husers : next.users with _ | users
  · simp only [husers]
    exact h
  simp only [husers]
  split
  · split
    · exact h.invalidate htodo idle
    · exact h
  obtain ⟨hsorted, hunchanged, hdelta⟩ :=
    candidate_spec hcandidate h.usersSorted hnodup husers
  have hsorted' : ∀ us, some users = some us → Sorted uid us := by
    intro us hus
    cases hus
    exact hsorted
  have hbefore : contents uid s.disk (journalRecords codec node s.disk) = s.durable := by
    rw [hrecords]
    exact idle.durable
  rcases hplan : s.controller.plan codec node p next with _ | plan
  · -- nothing has changed, so what is on the disk is still right
    obtain ⟨hsame, hpending⟩ := plan_none hplan
    obtain ⟨htail, hsettled⟩ := idle.settled hpending
    have hdurable := hsettled users (hunchanged hsame)
    refine ⟨.idle records tail htodo ⟨idle.holds, idle.torn, idle.durable,
      fun _ => ⟨htail, ?_⟩⟩, h.empty, h.snapshotSorted, hsorted', fun hne => absurd htodo hne⟩
    intro us hus
    cases hus
    exact hdurable
  have horder := hordered next hcandidate plan hplan
  cases plan with
  | persist =>
    simp only [Plan.Ordered, hrecords] at horder
    exact ⟨.saving records tail [.removeTmp, .createTmp, .writeTmp, .syncTmp] users
      tmpOps_isTmp rfl idle.holds idle.torn rfl (.inl idle.durable) horder, h.empty,
      h.snapshotSorted, hsorted', fun _ => hbefore⟩
  | append record =>
    simp only [Plan.Ordered, hrecords] at horder
    obtain ⟨hsnapshotOrder, hrecordsOrder⟩ := horder
    obtain ⟨hpending, hvalid, hrevision, hdelta'⟩ := plan_append hplan
    obtain ⟨rfl, hsettled⟩ := idle.settled hpending
    obtain ⟨base, hbase, rfl⟩ := hdelta _ _ hdelta'
    have hold := idle.durable
    have hdurable := hsettled base hbase
    refine ⟨.opening records record _ s.disk.journal.isSome rfl idle.holds
      ⟨rfl, hvalid, idle.durable, ?_, ?_, hrecords⟩, h.empty, h.snapshotSorted, hsorted',
      fun _ => hbefore⟩
    · -- the record applies to what the journal has so far, which is the current list
      rw [hdurable, contents] at hold
      obtain ⟨snapshot, hsnapshot, hreplayed⟩ := Option.map_eq_some_iff.mp hold
      rw [contents, hsnapshot, Option.map_some,
        replayRecords_append (h.snapshotSorted snapshot hsnapshot)
          (fun r hr => hsnapshotOrder r (by rw [hsnapshot]; exact hr)) hrecordsOrder,
        hreplayed]
    intro r hr
    refine ⟨record.userRevision, hrevision, ?_⟩
    rcases mem_append.mp hr with hr | hr
    · exact (hrecordsOrder r hr).le
    obtain rfl := mem_singleton.mp hr
    exact le_rfl

theorem step_inv (hsafe : Safe uid codec node s e)
    (hnext : next uid codec node s e = some s') : Inv uid codec node s' := by
  cases e with
  | pull => exact pull_inv h hsafe hnext
  | op => exact op_inv h hnext
  | fail => exact fail_inv h hsafe hnext
  | restart => exact restart_inv h hnext

end

end

/-! ## A serializer of small users, and what a run may begin with -/

/-- A number in unary, and a list behind its length. -/
def putNat (n : Nat) : List UInt8 := replicate n 1 ++ [0]

def getNat : List UInt8 → Option (Nat × List UInt8)
  | [] => none
  | b :: bs => if b = 0 then some (0, bs) else (getNat bs).map fun (n, rest) => (n + 1, rest)

def putNats (ns : List Nat) : List UInt8 := putNat ns.length ++ ns.flatMap putNat

def getItems : Nat → List UInt8 → Option (List Nat × List UInt8)
  | 0, bs => some ([], bs)
  | n + 1, bs => (getNat bs).bind fun (k, bs) => (getItems n bs).map fun (ks, bs) => (k :: ks, bs)

def getNats (bs : List UInt8) : Option (List Nat × List UInt8) :=
  (getNat bs).bind fun (n, bs) => getItems n bs

theorem getNat_putNat (n rest) : getNat (putNat n ++ rest) = some (n, rest) := by
  induction n with
  | zero => rfl
  | succ n ih =>
    rw [putNat, append_assoc] at ih ⊢
    rw [replicate_succ, cons_append]
    simp only [getNat, ih]
    rfl

theorem getNats_putNats (ns rest) : getNats (putNats ns ++ rest) = some (ns, rest) := by
  have hitems : getItems ns.length (ns.flatMap putNat ++ rest) = some (ns, rest) := by
    induction ns with
    | nil => rfl
    | cons n ns ih => simp [getItems, append_assoc, getNat_putNat, ih]
  simp [getNats, putNats, append_assoc, getNat_putNat, hitems]

/-- The fields of a record of small users as lists of numbers. -/
def recordFields (r : UserDeltaJournalRecord (Nat × Nat)) : List (List Nat) :=
  [[r.schemaVersion, r.nodeId, r.userRevision], r.nodeType.map UInt8.toNat,
    if r.userEtag.isSome then [1] else [], (r.userEtag.getD []).map UInt8.toNat,
    r.updated.map Prod.fst, r.updated.map Prod.snd, r.removed]

def ofFields : List (List Nat) → Option (UserDeltaJournalRecord (Nat × Nat))
  | [[schemaVersion, nodeId, userRevision], nodeType, hasEtag, etag, ids, secrets, removed] =>
    some ⟨schemaVersion, nodeId, nodeType.map UInt8.ofNat,
      if hasEtag.isEmpty then none else some (etag.map UInt8.ofNat), userRevision,
      ids.zip secrets, removed⟩
  | _ => none

def getFields : Nat → List UInt8 → List (List Nat)
  | 0, _ => []
  | n + 1, bs =>
    match getNats bs with
    | none => []
    | some (ns, rest) => ns :: getFields n rest

theorem getFields_put (fields rest) :
    getFields fields.length (fields.flatMap putNats ++ rest) = fields := by
  induction fields with
  | nil => rfl
  | cons ns fields ih => simp [getFields, append_assoc, getNats_putNats, ih]

theorem ofFields_recordFields (r) : ofFields (recordFields r) = some r := by
  obtain ⟨_, _, _, etag, _, updated, _⟩ := r
  have hbytes (bs : List UInt8) : (bs.map UInt8.toNat).map UInt8.ofNat = bs := by
    simp [map_map, Function.comp_def]
  have hzip : (updated.map Prod.fst).zip (updated.map Prod.snd) = updated :=
    (zip_of_prod rfl rfl).symm
  cases etag with
  | none | some => simp [recordFields, ofFields, hbytes, hzip]

/-- A serializer for small users. -/
def unaryCodec : Codec (Nat × Nat) where
  encode r := (recordFields r).flatMap putNats
  decode bs :=
    match ofFields (getFields 7 bs) with
    | none => .error "no record"
    | some r => .ok r
  hash bs := UInt32.ofNat bs.length
  decode_encode r := by
    have hfields := getFields_put (recordFields r) []
    rw [append_nil, show (recordFields r).length = 7 from rfl] at hfields
    simp only [hfields, ofFields_recordFields]

def savedFull (revision : Option Nat) : List (Event (Nat × Nat)) :=
  .pull ⟨.updated none ⟨[(1, 10)], revision, true, []⟩, false, false, false⟩ ::
    replicate 8 .op

def savedDelta (revision : Nat) (ops : Nat) : List (Event (Nat × Nat)) :=
  .pull ⟨.updated none ⟨[(2, 20)], some revision, false, []⟩, false, false, false⟩ ::
    replicate ops .op

/-- **Recovery after a crash anywhere in a run.** -/
theorem lkg_recovers_in_order {U : Type} [DecidableEq U] (uid : U → Nat) (codec : Codec U)
    (node : Node) (events : List (Event U)) (s : State U)
    (hsafe : Throughout (next uid codec node) (Safe uid codec node) State.new events)
    (hrun : run (next uid codec node) State.new events = some s) : Recovers uid codec node s :=
  (run_invariant (fun _ _ _ hok hinv hnext => step_inv hinv hok hnext) events State.new s hsafe
    new_inv hrun).recovers

/-- A delta stopped while its record is written. -/
theorem lkg_recovers_in_order_append : ∃ s, run (next Prod.fst unaryCodec ⟨0, []⟩) State.new
        (savedFull (some 1) ++ savedDelta 2 4) = some s ∧
      Throughout (next Prod.fst unaryCodec ⟨0, []⟩) (Safe Prod.fst unaryCodec ⟨0, []⟩) State.new
        (savedFull (some 1) ++ savedDelta 2 4) ∧
      Recovers Prod.fst unaryCodec ⟨0, []⟩ s := by
  have hsafe : Throughout (next Prod.fst unaryCodec ⟨0, []⟩) (Safe Prod.fst unaryCodec ⟨0, []⟩)
      State.new (savedFull (some 1) ++ savedDelta 2 4) := by decide
  have hsome : (run (next Prod.fst unaryCodec ⟨0, []⟩) State.new
      (savedFull (some 1) ++ savedDelta 2 4)).isSome := by decide
  obtain ⟨s, hs⟩ := Option.isSome_iff_exists.mp hsome
  exact ⟨s, hs, hsafe, lkg_recovers_in_order _ _ _ _ s hsafe hs⟩

/-- After a panel reset the delta of a lower revision is saved, and passed over by the replay. -/
theorem lower_revision_delta_lost : ∃ s, run (next Prod.fst unaryCodec ⟨0, []⟩) State.new
        (savedFull (some 5) ++ savedDelta 3 7) = some s ∧
      s.todo = [] ∧ s.durable = some [(1, 10), (2, 20)] ∧
      recover Prod.fst unaryCodec ⟨0, []⟩ s.disk 0 = .ok (some [(1, 10)]) ∧
      ¬ Recovers Prod.fst unaryCodec ⟨0, []⟩ s := by
  have hview : (run (next Prod.fst unaryCodec ⟨0, []⟩) State.new
      (savedFull (some 5) ++ savedDelta 3 7)).map (fun s =>
        (s.todo, s.durable, recover Prod.fst unaryCodec ⟨0, []⟩ s.disk 0)) =
      some ([], some [(1, 10), (2, 20)], .ok (some [(1, 10)])) := rfl
  obtain ⟨s, hs, hview⟩ := Option.map_eq_some_iff.mp hview
  simp only [Prod.mk.injEq] at hview
  obtain ⟨htodo, hdurable, hrecover⟩ := hview
  refine ⟨s, hs, htodo, hdurable, hrecover, fun hrecovers => ?_⟩
  rcases hrecovers 0 with h | ⟨h, -⟩
  · rw [hrecover, hdurable] at h
    cases h
  · exact h htodo

/-! ## The durable prefix of a journal -/

/-- A complete append. -/
def appended {U : Type} (codec : Codec U) (snapshot : NodeLkgSnapshot U) (d : Disk U)
    (record : UserDeltaJournalRecord U) : Disk U :=
  (appendOps codec true record snapshot).foldl Op.perform d

theorem foldl_appended {U : Type} (codec snapshot) (records : List (UserDeltaJournalRecord U)) :
    ∀ bs, records.foldl (appended codec snapshot) ⟨some snapshot, some ⟨bs, []⟩⟩ =
      ⟨some snapshot, some ⟨bs ++ records.flatMap (frame codec), []⟩⟩ := by
  induction records with
  | nil => simp
  | cons record records ih =>
    intro bs
    have hone : appended codec snapshot ⟨some snapshot, some ⟨bs, []⟩⟩ record =
        ⟨some snapshot, some ⟨bs ++ frame codec record, []⟩⟩ := by
      simp [appended, appendOps, Op.perform, JournalFile.bytes, frame]
    rw [foldl_cons, hone, ih, flatMap_cons, append_assoc]

/-- **Exactly the intact records are replayed**, and what is appended behind them is replayed by the
next load. -/
theorem intact_prefix_replayed {U : Type} (uid : U → Nat) (codec : Codec U) (node : Node)
    (snapshot : NodeLkgSnapshot U) (records later : List (UserDeltaJournalRecord U))
    (tail : List UInt8) (hvalid : ∀ r ∈ records ++ later, Valid codec node r)
    (hrevisions : (snapshot.userRevision.toList ++
      (records ++ later).map (·.userRevision)).Pairwise (· < ·)) (htail : ¬Intact codec tail) :
    ∃ d, load uid codec node ⟨some snapshot, some ⟨records.flatMap (frame codec) ++ tail, []⟩⟩ =
        .ok (some (applied uid snapshot records), d) ∧
      d.journal = some ⟨records.flatMap (frame codec), []⟩ ∧
      load uid codec node (later.foldl (appended codec snapshot) d) =
        .ok (some (applied uid snapshot (records ++ later)),
          later.foldl (appended codec snapshot) d) := by
  have hload : ∀ rs ts, (∀ r ∈ rs, Valid codec node r) → (snapshot.userRevision.toList ++
      rs.map (·.userRevision)).Pairwise (· < ·) → ¬Intact codec ts →
      load uid codec node ⟨some snapshot, some ⟨rs.flatMap (frame codec) ++ ts, []⟩⟩ =
        .ok (some (applied uid snapshot rs), ⟨some snapshot, some ⟨rs.flatMap (frame codec), []⟩⟩) := by
    intro rs ts hv hr ht
    simp only [load, JournalFile.bytes, append_nil, replay_records uid snapshot hv ht,
      replayRecords_applied hr, take_left]
  refine ⟨_, hload records tail (fun r hr => hvalid r (mem_append_left _ hr)) ?_ htail, rfl, ?_⟩
  · exact hrevisions.sublist ((Sublist.refl _).append ((sublist_append_left ..).map _))
  rw [foldl_appended, ← flatMap_append]
  have hnext := hload _ [] hvalid hrevisions (by simp [Intact])
  rwa [append_nil] at hnext

/-- The record with which the next revision adds a user and removes the given ones. -/
def sampleRecord (revision : Nat) (removed : List Nat) : UserDeltaJournalRecord (Nat × Nat) :=
  ⟨1, 0, [], none, revision, [(revision, 10 * revision)], removed⟩

/-- Two records are replayed from the torn journal, and a third is appended then. -/
theorem intact_prefix_replayed_torn : ∃ d, load Prod.fst unaryCodec ⟨0, []⟩ ⟨some ⟨none, some 1, []⟩,
        some ⟨[sampleRecord 2 [], sampleRecord 3 [2]].flatMap (frame unaryCodec) ++ [7], []⟩⟩ =
        .ok (some ⟨none, some 3, [(3, 30)]⟩, d) ∧
      d.journal =
        some ⟨[sampleRecord 2 [], sampleRecord 3 [2]].flatMap (frame unaryCodec), []⟩ ∧
      load Prod.fst unaryCodec ⟨0, []⟩
          (appended unaryCodec ⟨none, some 1, []⟩ d (sampleRecord 4 [])) =
        .ok (some ⟨none, some 4, [(3, 30), (4, 40)]⟩,
          appended unaryCodec ⟨none, some 1, []⟩ d (sampleRecord 4 [])) := by
  have hvalid : ∀ r ∈ [sampleRecord 2 [], sampleRecord 3 [2], sampleRecord 4 []],
      Valid unaryCodec ⟨0, []⟩ r := by
    simp only [List.forall_mem_cons]
    exact ⟨⟨by decide, rfl⟩, ⟨by decide, rfl⟩, ⟨by decide, rfl⟩, nofun⟩
  exact intact_prefix_replayed Prod.fst unaryCodec ⟨0, []⟩ ⟨none, some 1, []⟩
    [sampleRecord 2 [], sampleRecord 3 [2]] [sampleRecord 4 []] [7] hvalid (by decide)
    (by simp [Intact])

end Shoes.V2board.Recovery
