import Shoes.Transport.SmuxWriter

/-! # The barriers of the smux session writer

A logical stream that flushes sends a barrier through the queue of its session and waits for the
answer. The session writer answers it when it has written and flushed the batch that it has ended;
when it cannot, it ends, and answers the barriers that are left with its error. -/
namespace Shoes.Transport.SmuxBarriers
open Lib.Io Smux VirtualStream SmuxWriter List Lib.Machine Option

/-- Where the session writer is: in its `select!`, in the loop that drains the queues, in
`write_all`, in `flush`, in front of the answer to the barrier, or behind its loop. -/
inductive Phase
  | selecting
  | draining
  | writing (rest : List UInt8)
  | flushing
  | written (result : Except IoError Unit)
  | ended (outcome : Except IoError Unit)
  | finished (outcome : Except IoError Unit)

/-- The session writer and its queues. `sent` is all that was ever sent, of which the first `taken`
have been received; a barrier is known by its place there. The transport has taken `wire` and
flushed its first `flushed` bytes. `dequeued` records what was batched. -/
structure Task where
  updates : List WindowUpdate
  sent : List OutboundCommand
  taken : Nat
  -- no more commands can come: the queue is closed and nobody holds a permit
  closed : Bool
  batch : FrameBatch
  barrier : Option Nat
  phase : Phase
  wire : List UInt8
  flushed : Nat
  answers : List (Nat × Except IoError Unit)
  dequeued : List Push

/-- Something is sent; the queue is closed; the writer wakes up in its `select!` or goes round the
loop that drains the queues; the transport takes some bytes, flushes, or fails or stalls; the
writer goes on behind the write; and, behind its loop, it receives what is left. -/
inductive Event
  | arriveUpdate (u : WindowUpdate)
  | arriveCommand (c : OutboundCommand)
  | close
  | select (arm : Arm)
  | drain
  | write (n : Nat)
  | flush
  | fail (e : IoError)
  | answer
  | discard

namespace Task

def new : Task := ⟨[], [], 0, false, .default, none, .selecting, [], 0, [], []⟩

section
variable (version : UInt8) (t : Task)

/-- A push that fails ends the loop. -/
def push (p : Push) : Task :=
  match t.batch.push version p with
  | .error e => { t with phase := .ended (.error e) }
  | .ok batch => { t with batch, phase := .draining, dequeued := t.dequeued ++ [p] }

/-- The sender of a barrier goes into the batch. -/
def keepBarrier (t : Task) : OutboundCommand → Option Nat
  | .barrier => some t.taken
  | _ => t.barrier

def pushCommand (c : OutboundCommand) : Task :=
  ({ t with taken := t.taken + 1, barrier := t.keepBarrier c }).push version (.command c)

def select : Arm → Option Task
  | .update =>
    match t.updates with
    | [] => none
    | u :: us => some (({ t with updates := us }).push version (.update u))
  | .command =>
    match t.sent[t.taken]? with
    | some c => some (t.pushCommand version c)
    | none => if t.closed then some { t with phase := .ended (.ok ()) } else none
  | .ping => some (t.push version .ping)
  | .idle => some { t with phase := .draining }

/-- `write_to`, up to its first await. -/
def writeTo (t : Task) : Task :=
  { t with
    batch := .default
    phase :=
      if t.batch.bytes.isEmpty then if t.barrier.isNone then .selecting else .flushing
      else .writing t.batch.bytes }

def drain : Task :=
  if t.batch.acceptsMore then
    match t.updates, t.sent[t.taken]? with
    | u :: us, _ => ({ t with updates := us }).push version (.update u)
    | [], some c => t.pushCommand version c
    | [], none => t.writeTo
  else t.writeTo

/-- The transport has taken `n` bytes of what is left to write. -/
def wrote (t : Task) (rest : List UInt8) (n : Nat) : Task :=
  { t with
    wire := t.wire ++ rest.take n
    phase := if (rest.drop n).isEmpty then .flushing else .writing (rest.drop n) }

def answerBarrier (t : Task) (result : Except IoError Unit) : Task :=
  { t with
    barrier := none
    answers := match t.barrier with
      | none => t.answers
      | some k => (k, result) :: t.answers
    phase := match result with
      | .ok () => .selecting
      | .error e => .ended (.error e) }

/-- What a barrier is told that is received behind the loop. -/
def reported (version : UInt8) : Except IoError Unit → Except IoError Unit
  | .ok () => .error ⟨.brokenPipe,
      s!"smux v{version.toNat} session ended before the flush completed"⟩
  | .error e => .error e

def discard (outcome : Except IoError Unit) : Option Task :=
  match t.sent[t.taken]? with
  | some .barrier =>
    some { t with
      taken := t.taken + 1
      answers := (t.taken, reported version outcome) :: t.answers }
  | some _ => some { t with taken := t.taken + 1 }
  | none => if t.closed then some { t with phase := .finished outcome } else none

def next : Event → Option Task
  | .arriveUpdate u => some { t with updates := t.updates ++ [u] }
  | .arriveCommand c => if t.closed then none else some { t with sent := t.sent ++ [c] }
  | .close => some { t with closed := true }
  | .select arm =>
    match t.phase with
    | .selecting => t.select version arm
    | _ => none
  | .drain =>
    match t.phase with
    | .draining => some (t.drain version)
    | _ => none
  | .write n =>
    match t.phase with
    | .writing rest => if 0 < n ∧ n ≤ rest.length then some (t.wrote rest n) else none
    | _ => none
  | .flush =>
    match t.phase with
    | .flushing => some { t with flushed := t.wire.length, phase := .written (.ok ()) }
    | _ => none
  | .fail e =>
    match t.phase with
    | .writing _ => some { t with phase := .written (.error e) }
    | .flushing => some { t with phase := .written (.error e) }
    | _ => none
  | .answer =>
    match t.phase with
    | .written result => some (t.answerBarrier result)
    | _ => none
  | .discard =>
    match t.phase with
    | .ended outcome => t.discard version outcome
    | _ => none

end

end Task

/-! ## What the bytes are -/

/-- What has been put into a batch and waits to be written. -/
def Task.pending (t : Task) : List UInt8 :=
  match t.phase with
  | .draining => t.batch.bytes
  | .writing rest => rest
  | _ => []

/-- The writer has met an error. -/
def Phase.failed : Phase → Bool
  | .written (.error _) => true
  | .ended (.error _) => true
  | .finished (.error _) => true
  | _ => false

/-- The writer is in its loop. -/
def Phase.looping : Phase → Bool
  | .ended _ => false
  | .finished _ => false
  | _ => true

def encodings (version : UInt8) (pushes : List Push) : List UInt8 :=
  encodeAll version (framesOf pushes)

theorem encodings_append (version ps qs) :
    encodings version (ps ++ qs) = encodings version ps ++ encodings version qs := by
  unfold encodings
  rw [framesOf_append, encodeAll_append]

/-- The commands that were put into a batch. -/
def commandsOf (pushes : List Push) : List OutboundCommand := pushes.filterMap Push.commandOf

/-- The bytes that were written, and what they are followed by, encode what was dequeued; nothing
is missing unless the writer has failed. -/
structure Task.Wire (version : UInt8) (t : Task) : Prop where
  bytes : ∃ lost, t.wire ++ t.pending ++ lost = encodings version t.dequeued ∧
    (t.phase.failed = false → lost = [])
  flushed : t.flushed ≤ t.wire.length
  written : t.phase = .written (.ok ()) → t.flushed = t.wire.length

/-- The barrier that ends the batch is held with it, and nothing is dequeued behind it before it is
answered. -/
structure Task.Holds (t : Task) : Prop where
  empty : t.phase.looping = true → t.phase = .draining ∨ t.batch = .default
  selecting : t.phase = .selecting → t.barrier = none
  draining : t.phase = .draining → t.batch.barrier = t.barrier.isSome
  ended : t.phase.looping = false → t.barrier = none
  taken : t.taken ≤ t.sent.length
  commands : commandsOf t.dequeued <+: t.sent
  looping : t.phase.looping = true → (commandsOf t.dequeued).length = t.taken
  last : ∀ k, t.barrier = some k →
    ∃ ps, t.dequeued = ps ++ [.command .barrier] ∧ (commandsOf ps).length = k

/-- The answers that barrier `k` has got. -/
def Task.answersTo (t : Task) (k : Nat) : Nat := t.answers.countP fun a => a.1 == k

/-- A barrier that was received is held or has been answered, once. -/
def Task.Once (t : Task) : Prop :=
  ∀ k, t.answersTo k + (if t.barrier = some k then 1 else 0) =
    if k < t.taken ∧ t.sent[k]? = some .barrier then 1 else 0

def Task.Covered (version : UInt8) (t : Task) (k : Nat) : Prop :=
  ∃ ps qs, t.dequeued = ps ++ .command .barrier :: qs ∧ (commandsOf ps).length = k ∧
    encodings version ps <+: t.wire.take t.flushed

def Task.Told (version : UInt8) (t : Task) : Prop :=
  ∀ k, (k, .ok ()) ∈ t.answers → t.Covered version k

structure Task.Sound (version : UInt8) (t : Task) : Prop where
  wire : t.Wire version
  holds : t.Holds
  once : t.Once
  told : t.Told version

/-- The batch of the writer may take more. -/
structure Task.Open (t : Task) : Prop where
  pending : t.pending = t.batch.bytes
  failed : t.phase.failed = false
  looping : t.phase.looping = true
  barrier : t.barrier = none
  flag : t.batch.barrier = false

section
variable {version : UInt8} {t t' : Task} {p : Push}

theorem Task.Holds.batch_default (h : t.Holds) (hloop : t.phase.looping = true)
    (hphase : t.phase ≠ .draining) : t.batch = .default :=
  (h.empty hloop).resolve_left hphase

theorem Task.Holds.openSelecting (h : t.Holds) (hphase : t.phase = .selecting) : t.Open := by
  have hbatch : t.batch = .default := h.batch_default (by rw [hphase]; rfl) (by rw [hphase]; simp)
  refine ⟨?_, ?_, ?_, h.selecting hphase, ?_⟩
  · rw [Task.pending, hphase, hbatch]
    rfl
  · rw [hphase]
    rfl
  · rw [hphase]
    rfl
  rw [hbatch]
  rfl

theorem Task.Holds.openDraining (h : t.Holds) (hphase : t.phase = .draining)
    (hmore : t.batch.acceptsMore = true) : t.Open := by
  have hflag : t.batch.barrier = false := by simpa using (Bool.and_eq_true_iff.mp hmore).1
  refine ⟨?_, ?_, ?_, ?_, hflag⟩
  · rw [Task.pending, hphase]
  · rw [hphase]
    rfl
  · rw [hphase]
    rfl
  rw [h.draining hphase] at hflag
  exact isNone_iff_eq_none.mp (by simpa using hflag)

/-- Behind the loop no barrier is held. -/
theorem Task.Holds.out (hphase : t.phase.looping = false) (hnone : t.barrier = none)
    (htaken : t.taken ≤ t.sent.length) (hcommands : commandsOf t.dequeued <+: t.sent) : t.Holds := by
  have hne : ∀ phase : Phase, phase.looping = true → t.phase ≠ phase := by
    rintro _ hloop rfl
    cases hphase.symm.trans hloop
  exact ⟨fun hloop => absurd rfl (hne _ hloop), fun hp => absurd hp (hne _ rfl),
    fun hp => absurd hp (hne _ rfl), fun _ => hnone, htaken, hcommands,
    fun hloop => absurd rfl (hne _ hloop), fun k hk => by cases hnone.symm.trans hk⟩

/-- A command is received: if it is a barrier, it has to be held or answered. -/
theorem Task.Once.take (h : t.Once) (hnone : t.barrier = none) (hc : t.sent[t.taken]? = some c)
    (k) : t.answersTo k + (if c = .barrier ∧ t.taken = k then 1 else 0) =
      if k < t.taken + 1 ∧ t.sent[k]? = some .barrier then 1 else 0 := by
  have hk := h k
  rw [hnone] at hk
  by_cases heq : t.taken = k
  · subst heq
    rw [hc] at hk ⊢
    by_cases hbarrier : c = .barrier <;> simp_all
  have hiff : k < t.taken + 1 ↔ k < t.taken := by omega
  simp_all

/-! ## What is told stays true -/

theorem Task.Covered.grows (h : t.Covered version k) (hdequeued : t.dequeued <+: t'.dequeued)
    (hwire : t.wire <+: t'.wire) (hflushed : t.flushed ≤ t'.flushed) : t'.Covered version k := by
  obtain ⟨ps, qs, hps, hk, hprefix⟩ := h
  obtain ⟨more, hmore⟩ := hdequeued
  refine ⟨ps, qs ++ more, ?_, hk, ?_⟩
  · rw [← hmore, hps, append_assoc, cons_append]
  have htake : t.wire.take t.flushed <+: t'.wire.take t.flushed := by
    obtain ⟨_, hrest⟩ := hwire
    rw [← hrest, take_append]
    exact prefix_append _ _
  exact hprefix.trans (htake.trans (take_prefix_take_left hflushed))

theorem Task.Told.grows (h : t.Told version) (hanswers : t'.answers = t.answers)
    (hdequeued : t.dequeued <+: t'.dequeued) (hwire : t.wire <+: t'.wire)
    (hflushed : t.flushed ≤ t'.flushed) : t'.Told version := by
  intro k hk
  rw [hanswers] at hk
  exact (h k hk).grows hdequeued hwire hflushed

theorem Task.Told.refused (h : t.Told version)
    (hanswers : t'.answers = (k, .error e) :: t.answers) (hdequeued : t'.dequeued = t.dequeued)
    (hwire : t'.wire = t.wire) (hflushed : t'.flushed = t.flushed) : t'.Told version := by
  intro j hj
  rw [hanswers] at hj
  rcases mem_cons.mp hj with hj | hj
  · cases hj
  · exact (h j hj).grows (hdequeued ▸ prefix_rfl) (hwire ▸ prefix_rfl) (hflushed.ge)

/-! ## Pushing -/

theorem Task.Wire.push (h : t.Wire version) (hopen : t.Open)
    (hw : t'.wire = t.wire) (hf : t'.flushed = t.flushed) (hb : t'.batch = t.batch)
    (hd : t'.dequeued = t.dequeued) : (t'.push version p).Wire version := by
  obtain ⟨_, hbytes, hlost⟩ := h.bytes
  obtain rfl := hlost hopen.failed
  rw [append_nil, hopen.pending] at hbytes
  unfold Task.push
  split
  · refine ⟨⟨t.batch.bytes, ?_, nofun⟩, ?_, nofun⟩
    · show t'.wire ++ [] ++ t.batch.bytes = encodings version t'.dequeued
      rw [hw, hd, append_nil, hbytes]
    · rw [hf, hw]
      exact h.flushed
  rename_i batch hpush
  rw [hb] at hpush
  obtain ⟨hpushed, -⟩ := push_ok hpush
  refine ⟨⟨[], ?_, fun _ => rfl⟩, ?_, nofun⟩
  · show t'.wire ++ batch.bytes ++ [] = encodings version (t'.dequeued ++ [p])
    rw [hw, hd, append_nil, hpushed, encodings_append, ← hbytes, append_assoc]
    rfl
  rw [hf, hw]
  exact h.flushed

theorem push_barrier {b b' : FrameBatch} (h : b.push version p = .ok b')
    (hp : p ≠ .command .barrier) : b'.barrier = b.barrier := by
  have control {command : UInt8} {streamId : UInt32} {payload : List UInt8}
      (h : b.pushControl version command streamId payload = .ok b') : b'.barrier = b.barrier := by
    obtain ⟨length, -, h⟩ := exists_of_bind_ok h
    cases h
    rfl
  cases p with
  | update | ping => exact control h
  | command c =>
    cases c with
    | finished => exact control h
    | barrier => exact absurd rfl hp
    | data =>
      obtain ⟨_, -, h⟩ := exists_of_bind_ok h
      cases h
      rfl

theorem Task.push_frame (t : Task) (p) :
    (t.push version p).answers = t.answers ∧ (t.push version p).barrier = t.barrier ∧
      (t.push version p).taken = t.taken ∧ (t.push version p).sent = t.sent ∧
      t.wire <+: (t.push version p).wire ∧ t.flushed ≤ (t.push version p).flushed ∧
      t.dequeued <+: (t.push version p).dequeued := by
  unfold Task.push
  split
  · exact ⟨rfl, rfl, rfl, rfl, prefix_rfl, le_rfl, prefix_rfl⟩
  · exact ⟨rfl, rfl, rfl, rfl, prefix_rfl, le_rfl, prefix_append _ _⟩

theorem Task.Sound.push (h : t.Sound version) (hopen : t.Open) (hp : p.commandOf = none) (updates) :
    (({ t with updates := updates } : Task).push version p).Sound version := by
  have hne : p ≠ .command .barrier := by
    intro hp'
    rw [hp'] at hp
    cases hp
  have hframe := @Task.push_frame version { t with updates := updates } p
  obtain ⟨hanswers, hbarrier, htaken, hsent, hwire, hflushed, hdequeued⟩ := hframe
  refine ⟨h.wire.push hopen rfl rfl rfl rfl, ?_, ?_, ?_⟩
  · have hcommands : commandsOf (t.dequeued ++ [p]) = commandsOf t.dequeued := by
      unfold commandsOf
      rw [filterMap_append]
      simp [hp]
    unfold Task.push
    split
    · exact .out rfl hopen.barrier h.holds.taken h.holds.commands
    rename_i batch hpush
    have hflag : batch.barrier = t.barrier.isSome := by
      rw [push_barrier hpush hne, hopen.barrier]
      exact hopen.flag
    refine ⟨fun _ => .inl rfl, nofun, fun _ => hflag, nofun,
      h.holds.taken, ?_, ?_, fun k hk => by cases hopen.barrier.symm.trans hk⟩
    · rw [hcommands]
      exact h.holds.commands
    intro _
    rw [hcommands]
    exact h.holds.looping hopen.looping
  · intro k
    unfold Task.answersTo
    rw [hanswers, hbarrier, htaken, hsent]
    exact h.once k
  · exact Task.Told.grows h.told hanswers hdequeued hwire hflushed

theorem Task.Sound.pushCommand (h : t.Sound version) (hopen : t.Open)
    (hc : t.sent[t.taken]? = some c) : (t.pushCommand version c).Sound version := by
  have hlt : t.taken < t.sent.length := (List.getElem?_eq_some_iff.mp hc).1
  have hcommands : commandsOf t.dequeued = t.sent.take t.taken := by
    rw [← h.holds.looping hopen.looping]
    exact prefix_iff_eq_take.mp h.holds.commands
  have hnext : commandsOf (t.dequeued ++ [.command c]) = t.sent.take (t.taken + 1) := by
    have happend : commandsOf (t.dequeued ++ [.command c]) = commandsOf t.dequeued ++ [c] := by
      unfold commandsOf
      rw [filterMap_append]
      rfl
    rw [happend, hcommands, take_add_one, hc]
    rfl
  have hkept : ∀ k, t.keepBarrier c = some k ↔ c = .barrier ∧ t.taken = k := by
    intro k
    unfold Task.keepBarrier
    cases c with
    | barrier => simp
    | data | finished => simp [hopen.barrier]
  have hframe := @Task.push_frame version
    { t with taken := t.taken + 1, barrier := t.keepBarrier c } (.command c)
  obtain ⟨hanswers, hbarrier, htaken, hsent, hwire, hflushed, hdequeued⟩ := hframe
  refine ⟨h.wire.push hopen rfl rfl rfl rfl, ?_, ?_, ?_⟩
  · unfold Task.pushCommand Task.push
    split
    next e hpush =>
      have hne : c ≠ .barrier := by
        intro hc'
        subst hc'
        cases hpush
      have hnone : t.keepBarrier c = none := by
        cases hk : t.keepBarrier c with
        | none => rfl
        | some k => exact absurd ((hkept k).mp hk).1 hne
      exact .out rfl hnone hlt h.holds.commands
    rename_i batch hpush
    refine ⟨fun _ => .inl rfl, nofun, fun _ => ?_, nofun, hlt, ?_, ?_, ?_⟩
    · cases c with
      | barrier => cases hpush; rfl
      | data | finished =>
        rw [push_barrier hpush (by simp)]
        exact (congrArg isSome hopen.barrier).symm ▸ hopen.flag
    · rw [hnext]
      exact take_prefix _ _
    · intro _
      show (commandsOf (t.dequeued ++ [.command c])).length = t.taken + 1
      rw [hnext, length_take]
      omega
    intro k hk
    obtain ⟨rfl, rfl⟩ := (hkept k).mp hk
    refine ⟨t.dequeued, rfl, h.holds.looping hopen.looping⟩
  · intro k
    unfold Task.answersTo Task.pushCommand
    rw [hanswers, hbarrier, htaken, hsent, if_congr (hkept k) rfl rfl]
    exact h.once.take hopen.barrier hc k
  · exact Task.Told.grows h.told hanswers hdequeued hwire hflushed

/-! ## Writing and answering -/

theorem Task.Holds.toIo (h : t.Holds) {phase} (hloop : t.phase.looping = true)
    (hbatch : t'.batch = .default)
    (ht : t' = { t with phase, batch := t'.batch, wire := t'.wire, flushed := t'.flushed })
    (hphase : phase ≠ .selecting ∧ phase ≠ .draining ∧ phase.looping = true) : t'.Holds := by
  rw [ht]
  obtain ⟨hselecting, hdraining, hlooping⟩ := hphase
  exact ⟨fun _ => .inr hbatch, fun hp => absurd hp hselecting, fun hp => absurd hp hdraining,
    fun hp => (by cases hlooping.symm.trans hp), h.taken, h.commands, fun _ => h.looping hloop,
    h.last⟩

theorem Task.Sound.writeTo (h : t.Sound version) (hphase : t.phase = .draining) :
    t.writeTo.Sound version := by
  have hloop : t.phase.looping = true := by rw [hphase]; rfl
  obtain ⟨_, hbytes, hlost⟩ := h.wire.bytes
  obtain rfl := hlost (by rw [hphase]; rfl)
  rw [Task.pending, hphase] at hbytes
  unfold Task.writeTo
  split_ifs with hempty hnone
  · rw [List.isEmpty_iff.mp hempty] at hbytes
    exact ⟨⟨⟨[], hbytes, fun _ => rfl⟩, h.wire.flushed, nofun⟩,
      ⟨fun _ => .inr rfl, fun _ => isNone_iff_eq_none.mp hnone, nofun, nofun, h.holds.taken,
        h.holds.commands, fun _ => h.holds.looping hloop, h.holds.last⟩, h.once, h.told⟩
  · rw [List.isEmpty_iff.mp hempty] at hbytes
    exact ⟨⟨⟨[], hbytes, fun _ => rfl⟩, h.wire.flushed, nofun⟩,
      h.holds.toIo hloop rfl rfl ⟨nofun, nofun, rfl⟩, h.once, h.told⟩
  exact ⟨⟨⟨[], hbytes, fun _ => rfl⟩, h.wire.flushed, nofun⟩,
    h.holds.toIo hloop rfl rfl ⟨nofun, nofun, rfl⟩, h.once, h.told⟩

theorem Task.Sound.wrote (h : t.Sound version) (hphase : t.phase = .writing rest)
    (n) : (t.wrote rest n).Sound version := by
  obtain ⟨_, hbytes, hlost⟩ := h.wire.bytes
  obtain rfl := hlost (by rw [hphase]; rfl)
  rw [Task.pending, hphase, append_nil] at hbytes
  have hgrows : t.wire <+: (t.wrote rest n).wire := prefix_append _ _
  have hpending : (t.wrote rest n).pending = rest.drop n := by
    unfold Task.wrote Task.pending
    by_cases hempty : (rest.drop n).isEmpty = true
    · rw [if_pos hempty]
      exact (isEmpty_iff.mp hempty).symm
    · rw [if_neg hempty]
  refine ⟨⟨⟨[], ?_, fun _ => rfl⟩, ?_, ?_⟩, ?_, h.once, ?_⟩
  · rw [hpending, append_nil]
    show t.wire ++ rest.take n ++ rest.drop n = encodings version t.dequeued
    rw [append_assoc, take_append_drop, hbytes]
  · exact h.wire.flushed.trans hgrows.length_le
  · intro hw
    unfold Task.wrote at hw
    split at hw <;> cases hw
  · have hloop : t.phase.looping = true := by rw [hphase]; rfl
    refine h.holds.toIo hloop (h.holds.batch_default hloop (by rw [hphase]; simp)) rfl ?_
    split <;> exact ⟨by simp, by simp, rfl⟩
  · exact h.told.grows rfl prefix_rfl hgrows le_rfl

theorem Task.Sound.flush (h : t.Sound version) (hphase : t.phase = .flushing) :
    ({ t with flushed := t.wire.length, phase := .written (.ok ()) } : Task).Sound version := by
  obtain ⟨_, hbytes, hlost⟩ := h.wire.bytes
  rw [Task.pending, hphase] at hbytes
  refine ⟨⟨⟨[], ?_, fun _ => rfl⟩, le_rfl, fun _ => rfl⟩, ?_, h.once, ?_⟩
  · obtain rfl := hlost (by rw [hphase]; rfl)
    exact hbytes
  · have hloop : t.phase.looping = true := by rw [hphase]; rfl
    exact h.holds.toIo hloop (h.holds.batch_default hloop (by rw [hphase]; simp)) rfl
      ⟨nofun, nofun, rfl⟩
  · exact h.told.grows rfl prefix_rfl prefix_rfl h.wire.flushed

theorem Task.Sound.fail (h : t.Sound version) (hloop : t.phase.looping = true)
    (hdrained : t.phase ≠ .draining) (e) :
    ({ t with phase := .written (.error e) } : Task).Sound version := by
  obtain ⟨lost, hbytes, -⟩ := h.wire.bytes
  refine ⟨⟨⟨t.pending ++ lost, ?_, nofun⟩, h.wire.flushed,
    nofun⟩, h.holds.toIo hloop (h.holds.batch_default hloop hdrained) rfl ⟨nofun, nofun, rfl⟩,
    h.once, h.told⟩
  show t.wire ++ [] ++ (t.pending ++ lost) = encodings version t.dequeued
  rw [append_nil, ← append_assoc, hbytes]

/-- **A barrier is told that all before it was flushed only when it was.** -/
theorem Task.Sound.answer (h : t.Sound version)
    (hphase : t.phase = .written result) : (t.answerBarrier result).Sound version := by
  have hbatch : t.batch = .default :=
    h.holds.batch_default (by rw [hphase]; rfl) (by rw [hphase]; simp)
  obtain ⟨lost, hbytes, hlost⟩ := h.wire.bytes
  rw [Task.pending, hphase] at hbytes
  have hloop : (commandsOf t.dequeued).length = t.taken := h.holds.looping (by rw [hphase]; rfl)
  have honce : (t.answerBarrier result).Once := by
    intro k
    have hk := h.once k
    unfold Task.answerBarrier Task.answersTo at *
    rcases hb : t.barrier with _ | j
    · rw [hb] at hk
      exact hk
    rw [hb] at hk
    rw [countP_cons, ← hk]
    by_cases hj : j = k <;> simp [hj]
  have htold : (t.answerBarrier result).Told version := by
    rcases hb : t.barrier with _ | k
    · have hanswers : (t.answerBarrier result).answers = t.answers := by
        unfold Task.answerBarrier
        rw [hb]
      exact h.told.grows hanswers prefix_rfl prefix_rfl le_rfl
    have hanswers : (t.answerBarrier result).answers = (k, result) :: t.answers := by
      unfold Task.answerBarrier
      rw [hb]
    rcases result with _ | _
    · exact h.told.refused hanswers rfl rfl rfl
    intro j hj
    rw [hanswers] at hj
    rcases mem_cons.mp hj with hj | hj
    swap
    · exact (h.told j hj).grows prefix_rfl prefix_rfl le_rfl
    cases hj
    obtain ⟨ps, hps, hk⟩ := h.holds.last k hb
    obtain rfl := hlost (by rw [hphase]; rfl)
    refine ⟨ps, [], hps, hk, ?_⟩
    show encodings version ps <+: t.wire.take t.flushed
    rw [h.wire.written hphase, take_length]
    rw [append_nil, append_nil, hps, encodings_append] at hbytes
    exact ⟨_, hbytes.symm⟩
  cases result with
  | ok =>
    obtain rfl := hlost (by rw [hphase]; rfl)
    exact ⟨⟨⟨[], hbytes, fun _ => rfl⟩, h.wire.flushed, nofun⟩,
      ⟨fun _ => .inr hbatch, fun _ => rfl, nofun, fun _ => rfl, h.holds.taken,
        h.holds.commands, fun _ => hloop, nofun⟩, honce, htold⟩
  | error =>
    exact ⟨⟨⟨lost, hbytes, nofun⟩, h.wire.flushed, nofun⟩,
      .out rfl rfl h.holds.taken h.holds.commands, honce, htold⟩

/-! ## Behind the loop -/

theorem Task.Sound.ended (h : t.Sound version) (hphase : t.phase = .selecting) :
    ({ t with phase := .ended (.ok ()) } : Task).Sound version := by
  obtain ⟨lost, hbytes, hlost⟩ := h.wire.bytes
  rw [Task.pending, hphase] at hbytes
  exact ⟨⟨⟨lost, hbytes, fun _ => hlost (by rw [hphase]; rfl)⟩, h.wire.flushed, nofun⟩,
    .out rfl (h.holds.selecting hphase) h.holds.taken h.holds.commands, h.once, h.told⟩

theorem reported_error (outcome) : ∃ e, Task.reported version outcome = .error e := by
  cases outcome with
  | ok => exact ⟨_, rfl⟩
  | error e => exact ⟨e, rfl⟩

section
variable (h : t.Sound version)
include h

theorem Task.Sound.discard (hphase : t.phase = .ended outcome)
    (ht : t.discard version outcome = some t') : t'.Sound version := by
  have hout : t.phase.looping = false := by rw [hphase]; rfl
  have hnone := h.holds.ended hout
  have hwire (answers : List (Nat × Except IoError Unit)) :
      ({ t with taken := t.taken + 1, answers := answers } : Task).Wire version :=
    ⟨h.wire.bytes, h.wire.flushed, h.wire.written⟩
  unfold Task.discard at ht
  split at ht
  next hc =>
    cases ht
    have hlt := (List.getElem?_eq_some_iff.mp hc).1
    obtain ⟨e, he⟩ := @reported_error version outcome
    refine ⟨hwire _, .out hout hnone hlt h.holds.commands, fun k => ?_, ?_⟩
    · rw [← h.once.take hnone hc k]
      unfold Task.answersTo
      rw [countP_cons, hnone]
      simp
    rw [he]
    exact h.told.refused rfl rfl rfl rfl
  next c hbarrier hc =>
    cases ht
    have hlt := (List.getElem?_eq_some_iff.mp hc).1
    refine ⟨hwire _, .out hout hnone hlt h.holds.commands, fun k => ?_, h.told⟩
    rw [← h.once.take hnone hc k, hnone, if_neg (by simp), if_neg fun hc' => hbarrier hc'.1]
    rfl
  split at ht <;> cases ht
  obtain ⟨lost, hbytes, hlost⟩ := h.wire.bytes
  rw [Task.pending, hphase] at hbytes
  refine ⟨⟨⟨lost, hbytes, fun hp => hlost ?_⟩, h.wire.flushed, nofun⟩,
    .out rfl hnone h.holds.taken h.holds.commands, h.once, h.told⟩
  rw [hphase]
  cases outcome <;> exact hp

theorem Task.Sound.arrive (updates more done) :
    ({ t with updates := updates, sent := t.sent ++ more, closed := done } : Task).Sound
      version := by
  obtain ⟨rest, hrest⟩ := h.holds.commands
  have htaken := h.holds.taken
  refine ⟨⟨h.wire.bytes, h.wire.flushed, h.wire.written⟩, ⟨h.holds.empty, h.holds.selecting,
    h.holds.draining, h.holds.ended, ?_, ⟨rest ++ more, ?_⟩, h.holds.looping, h.holds.last⟩,
    fun k => ?_, h.told⟩
  · show t.taken ≤ (t.sent ++ more).length
    rw [length_append]
    omega
  · rw [← append_assoc, hrest]
  refine (h.once k).trans (if_congr (and_congr_right fun hlt => ?_) rfl rfl).symm
  rw [List.getElem?_append_left (by omega)]

theorem Task.Sound.select (hphase : t.phase = .selecting)
    (ht : t.select version arm = some t') : t'.Sound version := by
  have hopen := h.holds.openSelecting hphase
  unfold Task.select at ht
  split at ht
  · split at ht <;> cases ht
    exact h.push hopen rfl _
  · split at ht
    next c hc =>
      cases ht
      exact h.pushCommand hopen hc
    · split at ht <;> cases ht
      exact h.ended hphase
  · cases ht
    exact h.push hopen rfl t.updates
  cases ht
  obtain ⟨lost, hbytes, hlost⟩ := h.wire.bytes
  rw [hopen.pending] at hbytes
  refine ⟨⟨⟨lost, hbytes, fun _ => hlost hopen.failed⟩, h.wire.flushed, nofun⟩,
    ⟨fun _ => .inl rfl, nofun, fun _ => ?_, nofun,
      h.holds.taken, h.holds.commands, fun _ => h.holds.looping hopen.looping, h.holds.last⟩,
    h.once, h.told⟩
  rw [hopen.flag, hopen.barrier]
  rfl

end

theorem Task.Sound.drain (h : t.Sound version) (hphase : t.phase = .draining) :
    (t.drain version).Sound version := by
  unfold Task.drain
  split
  swap
  · exact h.writeTo hphase
  rename_i hmore
  have hopen := h.holds.openDraining hphase hmore
  split
  · exact h.push hopen rfl _
  next hc => exact h.pushCommand hopen hc
  · exact h.writeTo hphase

theorem Task.Sound.new : Task.new.Sound version where
  wire := ⟨⟨[], rfl, fun _ => rfl⟩, le_rfl, nofun⟩
  holds := ⟨fun _ => .inr rfl, fun _ => rfl, nofun, fun _ => rfl, le_rfl,
    prefix_rfl, fun _ => rfl, nofun⟩
  once := fun k => by simp [Task.answersTo, Task.new]
  told := nofun

/-- The writer is done when nothing more can come. -/
def Task.Drained (t : Task) : Prop :=
  ∀ outcome, t.phase = .finished outcome → t.closed = true ∧ t.taken = t.sent.length

theorem Task.Drained.of_phase (h : ∀ outcome, t.phase ≠ .finished outcome) : t.Drained :=
  fun outcome ho => absurd ho (h outcome)

theorem Task.push_drained (t : Task) (p) : (t.push version p).Drained := by
  refine .of_phase fun outcome => ?_
  unfold Task.push
  split <;> simp

theorem Task.writeTo_drained (t : Task) : t.writeTo.Drained := by
  refine .of_phase fun outcome => ?_
  unfold Task.writeTo
  split
  · split <;> simp
  · simp

theorem Task.select_drained (ht : t.select version arm = some t') : t'.Drained := by
  unfold Task.select at ht
  split at ht
  · split at ht <;> cases ht
    exact Task.push_drained _ _
  · split at ht
    · cases ht
      exact Task.push_drained _ _
    · split at ht <;> cases ht
      exact .of_phase fun outcome => by simp
  · cases ht
    exact Task.push_drained _ _
  cases ht
  exact .of_phase fun outcome => by simp

theorem Task.drain_drained (t : Task) : (t.drain version).Drained := by
  unfold Task.drain
  split
  · split
    · exact Task.push_drained _ _
    · exact Task.push_drained _ _
    · exact t.writeTo_drained
  · exact t.writeTo_drained

theorem Task.discard_drained (hphase : t.phase = .ended outcome)
    (ht : t.discard version outcome = some t') (htaken : t.taken ≤ t.sent.length) : t'.Drained := by
  unfold Task.discard at ht
  split at ht
  iterate 2
    · cases ht
      exact .of_phase fun outcome => by simp [hphase]
  rename_i hnone
  obtain ⟨hclosed, ⟨⟩⟩ := ite_none_right_eq_some.mp ht
  intro o _
  have hlength : t.sent.length ≤ t.taken := List.getElem?_eq_none_iff.mp hnone
  exact ⟨hclosed, le_antisymm htaken hlength⟩

theorem Task.Sound.next (h : t.Sound version) (hdrained : t.Drained)
    (ht : t.next version e = some t') : t'.Sound version ∧ t'.Drained := by
  cases e with
  | arriveUpdate u =>
    cases ht
    have harrive := h.arrive (t.updates ++ [u]) [] t.closed
    rw [append_nil] at harrive
    exact ⟨harrive, hdrained⟩
  | arriveCommand c =>
    obtain ⟨hopen, ⟨⟩⟩ := ite_none_left_eq_some.mp ht
    exact ⟨h.arrive t.updates [c] t.closed, fun outcome ho => absurd (hdrained outcome ho).1 hopen⟩
  | close =>
    cases ht
    have harrive := h.arrive t.updates [] true
    rw [append_nil] at harrive
    exact ⟨harrive, fun outcome ho => ⟨rfl, (hdrained outcome ho).2⟩⟩
  | select =>
    rw [Task.next] at ht
    split at ht
    next hphase => exact ⟨h.select hphase ht, Task.select_drained ht⟩
    · cases ht
  | drain =>
    rw [Task.next] at ht
    split at ht <;> cases ht
    rename_i hphase
    exact ⟨h.drain hphase, t.drain_drained⟩
  | write n =>
    rw [Task.next] at ht
    split at ht
    next rest hphase =>
      split at ht <;> cases ht
      refine ⟨h.wrote hphase n, .of_phase fun outcome => ?_⟩
      unfold Task.wrote
      split <;> simp
    · cases ht
  | flush =>
    rw [Task.next] at ht
    split at ht <;> cases ht
    rename_i hphase
    exact ⟨h.flush hphase, .of_phase fun outcome => by simp⟩
  | fail e =>
    rw [Task.next] at ht
    split at ht <;> cases ht
    all_goals
      rename_i hphase
      exact ⟨h.fail (by rw [hphase]; rfl) (by rw [hphase]; simp) e, .of_phase fun o => by simp⟩
  | answer =>
    rw [Task.next] at ht
    split at ht <;> cases ht
    rename_i result hphase
    refine ⟨h.answer hphase, .of_phase fun outcome => ?_⟩
    cases result <;> simp [Task.answerBarrier]
  | discard =>
    rw [Task.next] at ht
    split at ht
    next outcome hphase => exact ⟨h.discard hphase ht, Task.discard_drained hphase ht h.holds.taken⟩
    · cases ht

end

/-- **The session writer keeps its word.** Whatever is sent to it, however its batches fall and
wherever the transport stops: what it has written, with what it has yet to write, is the encoding of
what it has dequeued, in that order, and only an error makes it leave out an end of that; the
commands are dequeued in the order in which they were sent; no barrier is answered twice, and each
has been answered when the writer is done; and a barrier is answered well only when all that was
dequeued before it has been written and flushed. -/
theorem writer_answers_barriers (version : UInt8) (events : List Event) (t : Task)
    (hrun : run (Task.next version) .new events = some t) :
    (∃ lost, t.wire ++ t.pending ++ lost = encodings version t.dequeued ∧
      (t.phase.failed = false → lost = [])) ∧ commandsOf t.dequeued <+: t.sent ∧
    (∀ k, t.answersTo k ≤ 1) ∧ (∀ outcome, t.phase = .finished outcome →
      ∀ k, t.answersTo k = if t.sent[k]? = some .barrier then 1 else 0) ∧
    (∀ k, (k, .ok ()) ∈ t.answers → t.Covered version k) := by
  obtain ⟨hsound, hdrained⟩ :=
    @run_invariant _ _ _ _ (fun t => t.Sound version ∧ t.Drained)
      (fun t e t' _ hi hnext => hi.1.next hi.2 hnext) events _ t (throughout_true events _)
      ⟨.new, .of_phase fun outcome => by simp [Task.new]⟩ hrun
  refine ⟨hsound.wire.bytes, hsound.holds.commands, ?_, ?_, hsound.told⟩
  · intro k
    have hk := hsound.once k
    split at hk <;> split at hk <;> omega
  intro outcome hphase k
  have hk := hsound.once k
  have hnone := hsound.holds.ended (by rw [hphase]; rfl)
  obtain ⟨-, htaken⟩ := hdrained outcome hphase
  have hiff : (k < t.taken ∧ t.sent[k]? = some .barrier) ↔ t.sent[k]? = some .barrier := by
    refine ⟨And.right, fun hb => ⟨?_, hb⟩⟩
    rw [htaken]
    exact (List.getElem?_eq_some_iff.mp hb).1
  rw [hnone, if_congr hiff rfl rfl] at hk
  simpa using hk

/-- A payload and a barrier in one batch that is written in two pieces; then the queue is closed
with another barrier in it, for which the flush fails. -/
def brokenSession : List Event :=
  [.arriveCommand (.data 3 (.copyFrom [1, 2])), .arriveCommand .barrier, .select .command, .drain,
    .drain, .write 4, .write 6, .flush, .answer, .arriveCommand (.finished 3),
    .arriveCommand .barrier, .close, .select .command, .drain, .drain, .write 3,
    .fail ⟨.brokenPipe, "broken pipe"⟩, .answer, .discard]

theorem writer_answers_barriers_broken : ∃ t, run (Task.next 1) .new brokenSession = some t ∧
      t.phase = .finished (.error ⟨.brokenPipe, "broken pipe"⟩) ∧ t.wire.length = 13 ∧
      t.Covered 1 1 ∧ t.answersTo 3 = 1 := by
  obtain ⟨-, -, -, honce, htold⟩ := writer_answers_barriers 1 brokenSession _ rfl
  exact ⟨_, rfl, rfl, rfl, htold 1 (mem_cons_of_mem _ (mem_cons_self ..)), honce _ rfl 3⟩

/-- A payload that no frame can hold. -/
def oversized : OutboundFrame := .copyFrom (List.replicate 65536 0)

theorem push_oversized (version) (b : FrameBatch) (streamId) :
    b.push version (.command (.data streamId oversized)) =
      .error ⟨.invalidData, "smux payload exceeds 65535 bytes"⟩ := by
  have hlength : oversized.payload.length = 65536 := by
    rw [oversized, OutboundFrame.copyFrom_payload, length_replicate]
  have hrefused : frameLength 65536 =
      .error ⟨.invalidData, "smux payload exceeds 65535 bytes"⟩ := rfl
  show b.pushData version streamId oversized = _
  rw [FrameBatch.pushData, hlength, hrefused]
  rfl

/-- The writer has a `FIN` in its batch, and data next in its queue. -/
def besideData (frame : OutboundFrame) : Task :=
  ⟨[], [.finished 3, .data 5 frame], 1, false, ⟨frameHeader 1 cmdFin 3 0 ++ [], false⟩, none,
    .draining, [], 0, [], [.command (.finished 3)]⟩

/-- **A frame in the batch of one that cannot be encoded is lost.** The `FIN` has been dequeued,
and the error ends the writer before the batch is written. -/
theorem batch_lost_on_oversized : ∃ t, run (Task.next 1) .new
        [.arriveCommand (.finished 3), .arriveCommand (.data 5 oversized), .select .command,
          .drain] = some t ∧
      t.phase = .ended (.error ⟨.invalidData, "smux payload exceeds 65535 bytes"⟩) ∧
      t.dequeued = [.command (.finished 3)] ∧ t.wire = [] ∧ t.pending = [] ∧
      (encodings 1 t.dequeued).length = 8 := by
  have hrun (frame : OutboundFrame) : run (Task.next 1) .new
      [.arriveCommand (.finished 3), .arriveCommand (.data 5 frame), .select .command, .drain] =
        some ((besideData frame).pushCommand 1 (.data 5 frame)) := rfl
  have hpush : (besideData oversized).pushCommand 1 (.data 5 oversized) =
      { besideData oversized with
        taken := 2
        phase := .ended (.error ⟨.invalidData, "smux payload exceeds 65535 bytes"⟩) } := by
    rw [Task.pushCommand, Task.push, push_oversized]
    rfl
  exact ⟨_, (hrun oversized).trans (congrArg some hpush), rfl, rfl, rfl, rfl, rfl⟩

end Shoes.Transport.SmuxBarriers
