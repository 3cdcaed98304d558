import Shoes.Lib.Machine
import Shoes.Xudp.ClientFrames

/-! # Sessions over a whole run

The polls of a message stream, taken apart into the steps that touch the session tables: bytes
come in, a frame is decoded, a message gets its session, a reply is written. Every poll is a run of
these steps, so what holds over all their runs holds over all polls. -/
namespace Shoes.Xudp.SessionRuns
open Lib.Io Lib.Bytes Lib.Assoc Lib.Cursor Lib.Machine
open Net.Location
open Frame Sessions MessageStream ClientFrames
open XudpMessageStream (Write)

/-- A step of a message stream. `deliver` looks up the session of a message, and hands the message
out if an address is given. -/
inductive Event
  | receive (bs : List UInt8)
  | decode
  | deliver (resolved original : NetLocation) (addr : Option SocketAddr)
  | reply (id : UInt16) (target : SocketAddr)
  deriving DecidableEq

/-- A step: the error it comes to, if any, and the core after it. -/
def step (core : Core) : Event → Option IoError × Core
  | .receive bs => (none, { core with readBuffer := core.readBuffer ++ bs })
  | .decode =>
    match core.decodeFrame with
    | .more => (none, core)
    | .again core => (none, core)
    | .message _ _ core => (none, core)
    | .failed e core => (some e, core)
    | .panicked => (none, core)
  | .deliver resolved original addr =>
    match core.tables.getOrCreateSession resolved original with
    | .error e => (some e, core)
    | .ok ((id, _), tables) =>
      let core := { core with tables }
      (none, addr.elim core (core.handOut id))
  | .reply id target =>
    match core.tables.replyLocation id target with
    | .error e => (some e, core)
    | .ok (_, tables) => (none, { core with tables })

/-! ## Polls are runs -/

def Reaches (core core' : Core) : Prop := ∃ events, core' = after step core events

theorem Reaches.refl (core) : Reaches core core := ⟨[], rfl⟩

theorem Reaches.trans (h₁ : Reaches a b) (h₂ : Reaches b c) : Reaches a c := by
  obtain ⟨es₁, rfl⟩ := h₁
  obtain ⟨es₂, rfl⟩ := h₂
  exact ⟨es₁ ++ es₂, (after_append step es₁ es₂ a).symm⟩

theorem Reaches.one (e) (h : (step core e).2 = core') : Reaches core core' :=
  ⟨[e], h.symm⟩

/-- The core that an attempt leaves behind. -/
def Attempt.core : Attempt → Option Core
  | .none core => some core
  | .message _ _ core => some core
  | .failed _ core => some core
  | .panicked => none

theorem tryDecodeLoop_reaches (fuel core) :
    ∀ core' ∈ Attempt.core (tryDecodeLoop fuel core), Reaches core core' := by
  induction fuel generalizing core with
  | zero =>
    rintro _ ⟨⟩
    exact .refl core
  | succ fuel ih =>
    have hstep : ∀ core', core.decodeFrame = .again core' → Reaches core core' :=
      fun core' h => .one .decode (by rw [step, h])
    unfold tryDecodeLoop
    cases h : core.decodeFrame with
    | more =>
      rintro _ ⟨⟩
      exact .refl core
    | again core₁ => exact fun core' h' => (hstep core₁ h).trans (ih core₁ core' h')
    | message | failed =>
      rintro _ ⟨⟩
      exact .one .decode (by rw [step, h])
    | panicked => rintro _ ⟨⟩

section
variable (st : XudpMessageStream) (resolver again : NetLocation → Resolution) (room : Nat)

theorem pollDecoded_reaches (data destination) :
    Reaches st.toCore (st.pollDecoded resolver room data destination).2.toCore := by
  unfold XudpMessageStream.pollDecoded
  split
  · exact .refl _
  · exact .refl _
  rename_i addr _
  split
  · exact .refl _
  rename_i h
  split
  · exact .one (.deliver addr.location destination none) (by simp only [step, h]; rfl)
  · exact .one (.deliver addr.location destination (some addr)) (by simp only [step, h]; rfl)

/-- The end of `pollIncoming`, with the destination resolved. -/
def created (m : Incoming) (resolved : NetLocation) : Polled Message × XudpMessageStream :=
  match st.tables.getOrCreateSession resolved m.originalDestination with
  | .error e => (.failed e, { st with incomingMessage := none })
  | .ok ((id, _), tables) =>
    let st := { st with incomingMessage := none, tables }
    match pollResolve again m.originalDestination with
    | .ready addr => (.ready ⟨id, addr, m.data⟩, { st with toCore := st.toCore.handOut id addr })
    | .failed e => (.failed e, st)
    | .pending => (.pending, st)

theorem created_reaches (m resolved) :
    Reaches st.toCore (created st again m resolved).2.toCore := by
  unfold created
  split
  · exact .refl _
  rename_i h
  split
  next addr _ =>
    exact .one (.deliver resolved m.originalDestination (some addr)) (by simp only [step, h]; rfl)
  all_goals exact .one (.deliver resolved m.originalDestination none) (by simp only [step, h]; rfl)

theorem pollIncoming_reaches (m) :
    Reaches st.toCore (st.pollIncoming resolver again room m).2.toCore := by
  unfold XudpMessageStream.pollIncoming
  split
  · exact .refl _
  cases m.resolvedDestination with
  | some resolved => exact created_reaches st again m resolved
  | none =>
    cases pollResolve resolver m.originalDestination with
    | ready addr => exact created_reaches st again m addr.location
    | failed | pending => exact .refl _

theorem pollLoop_reaches (st reads) :
    Reaches st.toCore (XudpMessageStream.pollLoop resolver room st reads).2.1.toCore := by
  have hreaches := tryDecodeLoop_reaches (st.readBuffer.length + 1) st.toCore
  unfold XudpMessageStream.pollLoop tryDecodeOneFrame
  generalize tryDecodeLoop (st.readBuffer.length + 1) st.toCore = attempt at hreaches
  cases attempt with
  | panicked => exact .refl _
  | failed e core => exact hreaches core rfl
  | message data destination core =>
    exact (hreaches core rfl).trans (pollDecoded_reaches { st with toCore := core } resolver room
      data destination)
  | none core =>
    rcases reads with _ | ⟨read, reads⟩
    · exact hreaches core rfl
    cases read with
    | pending | failed => exact hreaches core rfl
    | bytes bs =>
      rcases bs with _ | ⟨b, bs⟩
      · exact hreaches core rfl
      exact ((hreaches core rfl).trans (.one (.receive (b :: bs)) rfl)).trans (pollLoop_reaches
        { st with toCore := { core with readBuffer := core.readBuffer ++ b :: bs } } reads)
termination_by reads.length

/-- **A poll for a message** is a run of steps. -/
theorem pollRead_reaches (reads) :
    Reaches st.toCore (st.pollReadSessionMessage resolver again room reads).2.1.toCore := by
  unfold XudpMessageStream.pollReadSessionMessage
  split
  · exact pollIncoming_reaches st resolver again room _
  split
  · exact .refl _
  · exact pollLoop_reaches resolver room st reads

theorem pollFlush_core (writes) : (st.pollFlush writes).2.1.toCore = st.toCore := by
  induction writes generalizing st with
  | nil =>
    unfold XudpMessageStream.pollFlush
    split <;> rfl
  | cons write writes ih =>
    unfold XudpMessageStream.pollFlush
    split
    · rfl
    match write with
    | .pending => rfl
    | .failed e => rfl
    | .accepted 0 => rfl
    | .accepted (n + 1) => exact ih _

/-- **A reply** is at most one step. -/
theorem pollWrite_reaches (id data target writes) :
    Reaches st.toCore (st.pollWriteSessionMessage id data target writes).2.1.toCore := by
  unfold XudpMessageStream.pollWriteSessionMessage
  split
  · exact .refl _
  have hflush := pollFlush_core st writes
  split
  swap
  · rw [hflush]; exact .refl _
  rename_i st₁ writes₁ hout
  rw [hout] at hflush
  dsimp only
  split
  · rw [hflush]; exact .refl _
  rename_i location tables h
  have hone : Reaches st.toCore { st₁.toCore with tables } :=
    .one (.reply id target) (by rw [hflush] at h ⊢; simp only [step, h])
  split
  · exact hone
  rw [pollFlush_core]
  exact hone

end

/-- What the owner of a stream does with it. -/
inductive Op
  | read (resolver again : NetLocation → Resolution) (room : Nat) (reads : List Read)
  | write (id : UInt16) (data : List UInt8) (target : SocketAddr) (writes : List Write)

def Op.apply (st : XudpMessageStream) : Op → XudpMessageStream
  | .read resolver again room reads => (st.pollReadSessionMessage resolver again room reads).2.1
  | .write id data target writes => (st.pollWriteSessionMessage id data target writes).2.1

/-- **Polls in any order** are a run of steps. -/
theorem ops_reaches (ops : List Op) (st : XudpMessageStream) :
    Reaches st.toCore (ops.foldl Op.apply st).toCore := by
  induction ops generalizing st with
  | nil => exact .refl _
  | cons op ops ih =>
    refine Reaches.trans ?_ (ih (op.apply st))
    cases op with
    | read resolver again room reads => exact pollRead_reaches st resolver again room reads
    | write id data target writes => exact pollWrite_reaches st id data target writes

/-! ## What a step does to the sessions -/

theorem learn_readBuffer (core : Core) (buf metadata) :
    { core with readBuffer := buf }.learn metadata =
      (core.learn metadata).map fun core => { core with readBuffer := buf } := by
  unfold Core.learn
  rcases metadata.target with _ | target
  · rfl
  dsimp only
  cases core.tables.learnTarget metadata.sessionId target <;> rfl

/-- What a step does, apart from the buffer. A frame may have its target learned, and an End frame
ends the session then. -/
inductive Stepped (core : Core) : Event → Core → Prop
  | same (e : Event) (buf : List UInt8) : Stepped core e { core with readBuffer := buf }
  | learned {metadata : FrameMetadata} {rest : List UInt8} {mid : Core} (buf : List UInt8)
      (decoded : FrameMetadata.decode core.readBuffer = .ok (some metadata) rest)
      (learned : core.learn metadata = .ok mid) :
      Stepped core .decode { mid with readBuffer := buf }
  | ended {metadata : FrameMetadata} {rest : List UInt8} (mid : Core) (buf : List UInt8)
      (decoded : FrameMetadata.decode core.readBuffer = .ok (some metadata) rest)
      (learned : core.learn metadata = .ok mid) :
      Stepped core .decode { mid.endSession metadata.sessionId with readBuffer := buf }
  | delivered {resolved original : NetLocation} (addr : Option SocketAddr) {id : UInt16}
      {isNew : Bool} {t' : Tables}
      (created : core.tables.getOrCreateSession resolved original = .ok ((id, isNew), t')) :
      Stepped core (.deliver resolved original addr)
        (addr.elim { core with tables := t' } ({ core with tables := t' }.handOut id))
  | replied {id : UInt16} {target : SocketAddr} {location : NetLocation} {t' : Tables}
      (found : core.tables.replyLocation id target = .ok (location, t')) :
      Stepped core (.reply id target) { core with tables := t' }

/-- The core that a round leaves behind. -/
def Decoded.core : Decoded → Option Core
  | .more => none
  | .again core => some core
  | .message _ _ core => some core
  | .failed _ core => some core
  | .panicked => none

section
variable {core : Core}

theorem decodeControl_stepped : ∀ core' ∈ Decoded.core core.decodeControl,
    Stepped core .decode core' := by
  unfold Core.decodeControl
  cases hdec : FrameMetadata.decode core.readBuffer with
  | panic => rintro _ ⟨⟩
  | err e rest =>
    rintro _ ⟨⟩
    exact .same _ rest
  | ok metadata rest =>
    rcases metadata with _ | metadata
    · rintro _ ⟨⟩
    dsimp only
    rw [learn_readBuffer]
    rcases hl : core.learn metadata with _ | mid
    · rintro _ ⟨⟩
      exact .same _ rest
    dsimp only [Except.map]
    split
    · rintro _ ⟨⟩
      exact .ended mid rest hdec hl
    rintro _ ⟨⟩
    exact .learned rest hdec hl

theorem decodeData_stepped (dataLen) :
    ∀ core' ∈ Decoded.core (core.decodeData dataLen), Stepped core .decode core' := by
  unfold Core.decodeData
  cases hdec : FrameMetadata.decode core.readBuffer with
  | panic => rintro _ ⟨⟩
  | err e rest =>
    rintro _ ⟨⟩
    exact .same _ rest
  | ok metadata rest =>
    rcases metadata with _ | metadata
    · rintro _ ⟨⟩
    dsimp only
    split
    · rintro _ ⟨⟩
      exact .same _ rest
    split
    · rintro _ ⟨⟩
      exact .same _ rest
    rw [learn_readBuffer]
    rcases hl : core.learn metadata with _ | _
    · rintro _ ⟨⟩
      exact .same _ rest
    dsimp only [Except.map]
    repeat' split
    all_goals rintro _ ⟨⟩
    all_goals exact .learned _ hdec hl

theorem decodeFrame_stepped : ∀ core' ∈ Decoded.core core.decodeFrame,
    Stepped core .decode core' := by
  unfold Core.decodeFrame
  dsimp only
  split
  · rintro _ ⟨⟩
  split
  · rintro _ ⟨⟩
  split
  · rintro _ ⟨⟩
    exact .same _ core.readBuffer
  split
  · exact decodeControl_stepped
  split
  · rintro _ ⟨⟩
  split
  · rintro _ ⟨⟩
  · exact decodeData_stepped _

end

theorem stepped_step (core e) : Stepped core e (step core e).2 := by
  cases e with
  | receive => exact .same _ _
  | decode =>
    have hall := @decodeFrame_stepped core
    unfold step
    generalize core.decodeFrame = decoded at hall
    cases decoded with
    | more | panicked => exact .same _ core.readBuffer
    | again core' | message data destination core' | failed e core' => exact hall core' rfl
  | deliver resolved original addr =>
    dsimp only [step]
    split
    · exact .same _ core.readBuffer
    next hc => exact .delivered addr hc
  | reply =>
    dsimp only [step]
    split
    · exact .same _ core.readBuffer
    next hr => exact .replied hr

theorem learn_ok {core mid : Core} {metadata : FrameMetadata} (h : core.learn metadata = .ok mid) :
    mid = core ∨ ∃ target t', metadata.target = some target ∧
      core.tables.learnTarget metadata.sessionId target = .ok t' ∧
      mid = { core with
        tables := t'
        clientSessions := core.clientSessions.insert metadata.sessionId target } := by
  unfold Core.learn at h
  split at h
  · cases h
    exact .inl rfl
  rename_i target ht
  rcases hl : core.tables.learnTarget metadata.sessionId target with _ | t'
  · rw [hl] at h; cases h
  rw [hl] at h
  cases h
  exact .inr ⟨target, t', ht, hl, rfl⟩

/-! ## In every run -/


/-- The tables know the sessions that the client has open. -/
def Agree (opened : Map UInt16 NetLocation) (t : Tables) : Prop :=
  ∀ id destination, opened.get id = some destination →
    t.sessionToDestination.get id = some destination

theorem agree_getOrCreate {opened} {t t' : Tables} (h : Agree opened t) {resolved original id isNew}
    (hc : t.getOrCreateSession resolved original = .ok ((id, isNew), t')) : Agree opened t' := by
  rcases Tables.getOrCreateSession_cases hc with ⟨-, rfl⟩ | ⟨-, hfresh, -, hs2d, -⟩
  · exact h
  intro id' destination hid
  have hne : id' ≠ id := by
    rintro rfl
    rw [h id' destination hid] at hfresh
    cases hfresh
  rw [hs2d, Map.get_insert_ne _ hne]
  exact h id' destination hid

/-- The tables know the client's sessions, and every session has an original destination. -/
structure Linked (core : Core) : Prop where
  agree : Agree core.clientSessions core.tables
  known : ∀ id, core.tables.sessionToOriginalDestination.get id = none →
    core.tables.sessionToDestination.get id = none

variable {id : UInt16}

namespace Linked
variable {core : Core}

theorem start : Linked .new := ⟨(fun _ _ h => nomatch h), fun _ _ => rfl⟩

section
variable (h : Linked core)
include h

theorem buffer (buf) : Linked { core with readBuffer := buf } :=
  ⟨h.agree, h.known⟩

theorem learn (hl : core.learn metadata = .ok mid) : Linked mid := by
  rcases learn_ok hl with rfl | ⟨target, _, -, hlearn, rfl⟩
  · exact h
  obtain ⟨-, hs2d, horig⟩ := Tables.learnTarget_ok hlearn
  constructor
  · unfold Agree
    rw [hs2d]
    exact Map.some_of_insert h.agree metadata.sessionId target
  rw [hs2d, horig]
  exact Map.none_of_insert h.known metadata.sessionId target target

theorem endSession (id) : Linked (core.endSession id) :=
  ⟨Map.some_of_remove h.agree id, Map.none_of_remove h.known id⟩

theorem create (hc : core.tables.getOrCreateSession resolved original =
      .ok ((id, isNew), t')) : Linked { core with tables := t' } := by
  refine ⟨agree_getOrCreate h.agree hc, ?_⟩
  rcases Tables.getOrCreateSession_cases hc with ⟨-, rfl⟩ | ⟨-, -, -, hs2d, horig⟩
  · exact h.known
  rw [hs2d, horig]
  exact Map.none_of_insert h.known id resolved original

theorem reply (hr : core.tables.replyLocation id target = .ok (location, t')) :
    Linked { core with tables := t' } := by
  rcases Tables.replyLocation_cases hr with ⟨-, rfl⟩ | ⟨hnone, rfl⟩
  · exact h
  refine ⟨fun id' destination hid => ?_,
    Map.none_of_insert h.known id target.location target.location⟩
  have hknown := h.agree id' destination hid
  have hne : id' ≠ id := by
    rintro rfl
    rw [h.known id' hnone] at hknown
    cases hknown
  change (core.tables.sessionToDestination.insert id target.location).get id' = some destination
  rwa [Map.get_insert_ne _ hne]

theorem step (hs : Stepped core e core') : Linked core' := by
  cases hs with
  | same _ buf => exact h.buffer buf
  | learned buf decoded learned => exact (h.learn learned).buffer buf
  | ended mid buf decoded learned => exact ((h.learn learned).endSession _).buffer buf
  | delivered addr created =>
    have hcreated := h.create created
    cases addr <;> exact ⟨hcreated.agree, hcreated.known⟩
  | replied found => exact h.reply found

end

end Linked

/-- **The client's sessions are known** after polls in any order: each has its destination in the
tables, whatever the client has sent and the server made up. -/
theorem polls_linked (ops : List Op) : Linked (ops.foldl Op.apply .new).toCore := by
  obtain ⟨events, hrun⟩ := ops_reaches ops .new
  rw [hrun]
  exact (along_true step _ events).invariant
    (fun core e _ h => h.step (stepped_step core e)) Linked.start

/-! ## Replies go back on the client's session

This is so in runs whose steps keep to a rule: the server learns a session of the client only when
it has that very session for its destination already. -/

/-- The two maps are inverse to each other. -/
def Inverse (t : Tables) : Prop :=
  ∀ destination id, t.destinationToSession.get destination = some id ↔
    t.sessionToDestination.get id = some destination

/-- The rule. A target that a frame names belongs to the session of the frame already; a message is
handed out with the address that its session was looked up with; a reply is for a message that was
handed out, or for a destination without a session. -/
def Aligned (core : Core) : Event → Prop
  | .receive _ => True
  | .decode => ∀ metadata rest, FrameMetadata.decode core.readBuffer = .ok (some metadata) rest →
      ∀ target ∈ metadata.target,
        core.tables.destinationToSession.get target = some metadata.sessionId
  | .deliver resolved _ addr => ∀ a ∈ addr, a.location = resolved
  | .reply id target => (id, target) ∈ core.handedOut ∨
      core.tables.destinationToSession.get target.location = none

/-- The maps are inverse, and a message that was handed out still has its session. -/
structure Paired (core : Core) : Prop extends Linked core where
  inverse : Inverse core.tables
  handed : ∀ out ∈ core.handedOut,
    core.tables.destinationToSession.get out.2.location = some out.1

namespace Paired
variable {core : Core}

theorem start : Paired .new :=
  { Linked.start with
    inverse := fun _ _ => ⟨(fun h => nomatch h), fun h => nomatch h⟩
    handed := fun _ h => nomatch h }

theorem inverse_insert (h : Inverse t) (hd : t.destinationToSession.get destination = none)
    (hid : t.sessionToDestination.get id = none) (destination' id') :
    (t.destinationToSession.insert destination id).get destination' = some id' ↔
      (t.sessionToDestination.insert id destination).get id' = some destination' := by
  rw [Map.get_insert, Map.get_insert]
  by_cases h₁ : destination' = destination <;> by_cases h₂ : id' = id
  · simp [h₁, h₂]
  · have hnot : t.sessionToDestination.get id' ≠ some destination' := by
      rw [h₁]
      intro hsome
      rw [(h destination id').mpr hsome] at hd
      cases hd
    rw [if_pos h₁, if_neg h₂]
    exact ⟨fun he => absurd (Option.some.inj he).symm h₂, fun he => absurd he hnot⟩
  · have hnot : t.destinationToSession.get destination' ≠ some id' := by
      rw [h₂]
      intro hsome
      rw [(h destination' id).mp hsome] at hid
      cases hid
    rw [if_neg h₁, if_pos h₂]
    exact ⟨fun he => absurd he hnot, fun he => absurd (Option.some.inj he).symm h₁⟩
  · simpa [h₁, h₂] using h destination' id'

section
variable (h : Paired core)
include h

theorem buffer (buf) : Paired { core with readBuffer := buf } :=
  { h.toLinked.buffer buf with inverse := h.inverse, handed := h.handed }

theorem learn (hknown : ∀ target ∈ metadata.target,
      core.tables.destinationToSession.get target = some metadata.sessionId)
    (hl : core.learn metadata = .ok mid) : Paired mid := by
  refine { h.toLinked.learn hl with inverse := ?_, handed := ?_ }
  · rcases learn_ok hl with rfl | ⟨target, t', ht, hlearn, rfl⟩
    · exact h.inverse
    · obtain ⟨hd2s, hs2d, -⟩ := Tables.learnTarget_ok hlearn
      have hsame := (h.inverse target metadata.sessionId).mp (hknown target (by simp [ht]))
      intro destination id
      rw [hd2s, hs2d, Map.get_insert, h.inverse destination id]
      split
      next hk => rw [hk, hsame]
      · rfl
  rcases learn_ok hl with rfl | ⟨_, _, -, hlearn, rfl⟩
  · exact h.handed
  obtain ⟨hd2s, -, -⟩ := Tables.learnTarget_ok hlearn
  rw [hd2s]
  exact h.handed

theorem endSession (id) : Paired (core.endSession id) := by
  have hd2s : ∀ destination, (core.tables.endSession id).destinationToSession.get destination =
      if core.tables.sessionToDestination.get id = some destination then none
      else core.tables.destinationToSession.get destination := by
    intro destination
    unfold Tables.endSession
    rcases hs : core.tables.sessionToDestination.get id with _ | destination'
    · simp
    rw [Map.get_remove]
    by_cases hk : destination = destination'
    · simp [hk]
    · simp [hk, Ne.symm hk]
  refine { h.toLinked.endSession id with inverse := ?_, handed := ?_ }
  · intro destination id'
    change (core.tables.endSession id).destinationToSession.get destination = some id' ↔
      (core.tables.sessionToDestination.remove id).get id' = some destination
    rw [hd2s, Map.get_remove]
    split
    next hs =>
      refine ⟨by simp, fun he => ?_⟩
      split at he
      · cases he
      rename_i hne
      have h₁ := (h.inverse destination id').mpr he
      rw [(h.inverse destination id).mpr hs] at h₁
      exact absurd (Option.some.inj h₁).symm hne
    rename_i hs
    rw [h.inverse destination id']
    split
    next hk =>
      rw [hk]
      exact ⟨fun he => absurd he hs, by simp⟩
    · rfl
  intro out hout
  obtain ⟨hmem, hne⟩ := List.mem_filter.mp hout
  have hkept := h.handed out hmem
  change (core.tables.endSession id).destinationToSession.get out.2.location = some out.1
  rw [hd2s, if_neg, hkept]
  intro hs
  rw [(h.inverse _ id).mpr hs] at hkept
  exact absurd (Option.some.inj hkept).symm (by simpa using hne)

theorem create (hc : core.tables.getOrCreateSession resolved original = .ok ((id, isNew), t')) :
    Paired { core with tables := t' } ∧ t'.destinationToSession.get resolved = some id := by
  rcases Tables.getOrCreateSession_cases hc with ⟨hfound, rfl⟩ | ⟨hnone, hfresh, hd2s, hs2d, -⟩
  · exact ⟨h, hfound⟩
  refine ⟨{ h.toLinked.create hc with inverse := ?_, handed := ?_ }, ?_⟩
  · intro destination id'
    rw [hd2s, hs2d]
    exact inverse_insert h.inverse hnone hfresh destination id'
  · intro out hout
    have hkept := h.handed out hout
    rw [hd2s, Map.get_insert_ne, hkept]
    rintro hk
    rw [hk, hnone] at hkept
    cases hkept
  · rw [hd2s, Map.get_insert_self]

theorem handOut
    (hid : core.tables.destinationToSession.get addr.location = some id) :
    Paired (core.handOut id addr) :=
  { agree := h.agree, known := h.known, inverse := h.inverse
    handed := fun out hout => by
      rcases List.mem_cons.mp hout with rfl | hmem
      · exact hid
      · exact h.handed out hmem }

theorem reply (haligned : Aligned core (.reply id target))
    (hr : core.tables.replyLocation id target = .ok (location, t')) :
    Paired { core with tables := t' } := by
  rcases Tables.replyLocation_cases hr with ⟨-, rfl⟩ | ⟨hnone, rfl⟩
  · exact h
  have hfresh := h.known id hnone
  have hfree : core.tables.destinationToSession.get target.location = none := by
    rcases haligned with hmem | hfree
    · have hs := (h.inverse _ id).mp (h.handed _ hmem)
      cases hfresh.symm.trans hs
    · exact hfree
  refine { h.toLinked.reply hr with inverse := ?_, handed := ?_ }
  · exact inverse_insert h.inverse hfree hfresh
  intro out hout
  have hkept := h.handed out hout
  change (core.tables.destinationToSession.insert target.location id).get out.2.location = _
  rw [Map.get_insert_ne, hkept]
  intro hk
  rw [hk, hfree] at hkept
  cases hkept

theorem step (haligned : Aligned core e)
    (hs : Stepped core e core') : Paired core' := by
  cases hs with
  | same _ buf => exact h.buffer buf
  | learned buf decoded learned => exact (h.learn (haligned _ _ decoded) learned).buffer buf
  | ended mid buf decoded learned =>
    exact ((h.learn (haligned _ _ decoded) learned).endSession _).buffer buf
  | delivered addr created =>
    obtain ⟨hcreated, hid⟩ := h.create created
    cases addr with
    | none => exact hcreated
    | some a => exact hcreated.handOut (by rw [haligned a rfl]; exact hid)
  | replied found => exact h.reply haligned found

end

end Paired

theorem replyFrame_sessionId (h : XudpMessageStream.replyFrame id isNew location data = .ok frame) :
    slice frame 2 4 = u16ToBeBytes id := by
  obtain ⟨_, hbytes, rfl⟩ := exists_of_map_ok h
  obtain ⟨_, -, rfl⟩ := exists_of_map_ok hbytes
  rfl

/-- **Replies go back on the client's session** in every run that keeps to the rule: the maps are
inverse to each other in every state, and the frame of a reply from the destination of a session
that the client has open carries that session's id. -/
theorem replies_on_session (events : List Event) (h : Along step Aligned .new events) :
    (∀ pre post, events = pre ++ post → Inverse (after step .new pre).tables) ∧
    ∀ pre id target post, events = pre ++ .reply id target :: post →
      ∀ s, (after step .new pre).clientSessions.get s = some target.location →
        ∀ isNew location data frame,
          XudpMessageStream.replyFrame id isNew location data = .ok frame →
            slice frame 2 4 = u16ToBeBytes s := by
  have hpaired : ∀ pre post, events = pre ++ post → Paired (after step .new pre) := by
    rintro pre post rfl
    exact h.left.invariant (fun core e hok hi => hi.step hok (stepped_step core e)) Paired.start
  refine ⟨fun pre post he => (hpaired pre post he).inverse, ?_⟩
  rintro pre _ _ _ rfl s hs _ _ _ _ hframe
  have hp := hpaired pre _ rfl
  have hsession := (hp.inverse _ s).mpr (hp.agree s _ hs)
  rcases h.at with hmem | hfree
  · have hid := hp.handed _ hmem
    rw [hsession] at hid
    rw [Option.some.inj hid]
    exact replyFrame_sessionId hframe
  · cases hsession.symm.trans hfree

def sampleAddr : SocketAddr := .v4 ⟨1, 2, 3, 4⟩ 53

/-- The server forwards on session 7 first, and the client then opens this session. -/
def forwardedRun : List Event :=
  [.reply 7 sampleAddr, .receive (sampleNew 7 1).bytes, .decode,
    .deliver sampleAddr.location sampleAddr.location (some sampleAddr)]

theorem replies_on_session_forwarded :
    ∃ frame, XudpMessageStream.replyFrame 7 false sampleAddr.location [9] = .ok frame ∧
      slice frame 2 4 = u16ToBeBytes 7 := by
  have hdecode : FrameMetadata.decode (sampleNew 7 1).bytes =
      .ok (some (sampleNew 7 1).metadata) (sampleNew 7 1).dataBytes := by
    decide
  have halong : Along step Aligned .new (forwardedRun ++ [.reply 7 sampleAddr]) := by
    refine ⟨.inr rfl, trivial, fun metadata rest h => ?_, ?_, ?_, trivial⟩
    · obtain ⟨⟩ := hdecode.symm.trans h
      decide
    · rintro _ ⟨⟩
      rfl
    · exact .inl (by decide)
  exact ⟨_, rfl, (replies_on_session (forwardedRun ++ [.reply 7 sampleAddr]) halong).2 forwardedRun
    7 sampleAddr [] rfl 7 (by decide) false sampleAddr.location [9] _ rfl⟩

/-- The stream that has read the first message of a client. -/
def afterFirst : Polled Message × XudpMessageStream × List Read :=
  XudpMessageStream.new.pollReadSessionMessage (fun d => .ready (sampleResolve d))
    (fun d => .ready (sampleResolve d)) 65535 (answers [framesBytes [sampleNew 5 7]])

/-- **A session that the server makes up.** The client opens session 5, but its message is handed
out under session 1, and so the reply goes out under session 1. -/
theorem reply_on_other_session : afterFirst.1 = .ready ⟨1, sampleAddr, [7]⟩ ∧
      afterFirst.2.1.clientSessions.get 5 = some sampleAddr.location ∧
      ¬Inverse afterFirst.2.1.tables ∧
      slice (afterFirst.2.1.pollWriteSessionMessage 1 [9] sampleAddr []).2.1.writeBuffer 2 4 =
        u16ToBeBytes 1 := by
  refine ⟨by decide, by decide, fun h => ?_, by decide⟩
  have hone := (h sampleAddr.location 5).mpr (by decide)
  revert hone
  decide

end Shoes.Xudp.SessionRuns
