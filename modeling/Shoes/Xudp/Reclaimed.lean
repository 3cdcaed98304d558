import Shoes.Xudp.SessionRuns
import Mathlib.Data.List.Infix

/-! # Sessions that are reclaimed

A session that the client opens is forgotten when the client ends it. One that the server makes up,
for a message or for a reply, no End frame takes out of the tables. So the tables stay within the
client's open sessions exactly as long as the server makes up none. -/
namespace Shoes.Xudp.Reclaimed
open Lib.Io Lib.Bytes Lib.Assoc Lib.Cursor Lib.Machine
open Net.Location
open Frame Sessions MessageStream ClientFrames
open SessionRuns

/-- The tables hold no more than the sessions that the client has open. -/
structure Bounded (core : Core) : Prop where
  sessions : ∀ id, core.tables.sessionToDestination.contains id = true →
    core.clientSessions.contains id = true
  originals : ∀ id, core.tables.sessionToOriginalDestination.contains id = true →
    core.clientSessions.contains id = true
  destinations : core.tables.destinationToSession.size ≤ core.clientSessions.size

/-- The step comes to the session limit. -/
def Refused (core : Core) : Event → Prop
  | .receive _ => False
  | .decode => ∃ metadata rest, FrameMetadata.decode core.readBuffer = .ok (some metadata) rest ∧
      core.learn metadata = .error Tables.sessionLimitReached
  | .deliver resolved original _ =>
    core.tables.getOrCreateSession resolved original = .error Tables.sessionLimitReached
  | .reply id target =>
    core.tables.replyLocation id target = .error Tables.sessionLimitReached

/-- The step needs a session that the tables do not have. -/
def MakesUp (core : Core) : Event → Prop
  | .deliver resolved _ _ => core.tables.destinationToSession.get resolved = none
  | .reply id _ => core.tables.sessionToOriginalDestination.get id = none
  | _ => False

instance (core : Core) : ∀ e, Decidable (MakesUp core e)
  | .receive _ => isFalse id
  | .decode => isFalse id
  | .deliver resolved _ _ =>
    inferInstanceAs (Decidable (core.tables.destinationToSession.get resolved = none))
  | .reply id _ =>
    inferInstanceAs (Decidable (core.tables.sessionToOriginalDestination.get id = none))

section
variable {core : Core}

theorem Bounded.capacity (h : Bounded core) (hopen : core.clientSessions.size < maxXudpSessions)
    (id) : core.tables.ensureSessionCapacity id = .ok () := by
  have hs := core.tables.sessionToDestination.size_le_of_contains h.sessions
  have ho := core.tables.sessionToOriginalDestination.size_le_of_contains h.originals
  have hd := h.destinations
  exact Tables.ensureSessionCapacity_ok id (by omega) (by omega) (by omega)

theorem Bounded.not_refused (h : Bounded core) (hopen : core.clientSessions.size < maxXudpSessions)
    (e) : ¬Refused core e := by
  have hcapacity := h.capacity hopen
  cases e with
  | receive => exact id
  | decode =>
    rintro ⟨metadata, _, -, hl⟩
    unfold Core.learn at hl
    split at hl
    · cases hl
    rename_i target _
    obtain ⟨t', ht'⟩ := Tables.exists_learnTarget (hcapacity (some metadata.sessionId)) target
    rw [ht'] at hl
    cases hl
  | deliver resolved original =>
    obtain ⟨id, _, t', hc⟩ := Tables.exists_getOrCreateSession (hcapacity none) resolved original
    intro hr
    cases hr.symm.trans hc
  | reply id target =>
    obtain ⟨_, _, hr⟩ := Tables.exists_replyLocation (hcapacity (some id)) target
    intro hr'
    cases hr'.symm.trans hr

/-- **A session that is made up is not one of the client's.** -/
theorem Bounded.not_makesUp (h : Bounded core) (hlinked : Linked core)
    (hopen : core.clientSessions.size < maxXudpSessions) (hafter : Bounded (step core e).2) :
    ¬MakesUp core e := by
  have hcapacity := h.capacity hopen
  -- the client does not have the id, but the tables do after the step
  have hcontra : ∀ (id : UInt16) (t' : Tables), core.tables.sessionToDestination.get id = none →
      t'.sessionToDestination.get id ≠ none → (step core e).2.tables = t' →
      (step core e).2.clientSessions = core.clientSessions → False := by
    intro id t' hfresh hmade htables hclients
    have hopened := hafter.sessions id (by rw [htables]; exact Option.isSome_iff_ne_none.mpr hmade)
    rw [hclients] at hopened
    obtain ⟨destination, hd⟩ := Option.isSome_iff_exists.mp hopened
    rw [hlinked.agree id destination hd] at hfresh
    cases hfresh
  cases e with
  | receive | decode => exact id
  | deliver resolved original addr =>
    intro hnone
    obtain ⟨id, _, t', hc⟩ := Tables.exists_getOrCreateSession (hcapacity none) resolved original
    rcases Tables.getOrCreateSession_cases hc with ⟨hfound, -⟩ | ⟨-, hfresh, -, hs2d, -⟩
    · exact absurd (hfound.symm.trans hnone) (by simp)
    refine hcontra id t' hfresh (by simp [hs2d]) ?_ ?_ <;>
      simp only [step, hc] <;> cases addr <;> rfl
  | reply id target =>
    intro hnone
    obtain ⟨_, t', hr⟩ := Tables.exists_replyLocation (hcapacity (some id)) target
    rcases Tables.replyLocation_cases hr with ⟨hfound, -⟩ | ⟨-, ht'⟩
    · exact absurd (hfound.symm.trans hnone) (by simp)
    refine hcontra id t' (hlinked.known id hnone) ?_ (by simp only [step, hr])
      (by simp only [step, hr])
    rw [ht']
    exact Option.isSome_iff_ne_none.mp (by simp [Tables.addSession])

end

/-! ## Runs in which the server makes up no session -/

/-- The tables hold the client's sessions, and none by destination. -/
structure Own (core : Core) : Prop where
  sessions : ∀ id, core.clientSessions.get id = none →
    core.tables.sessionToDestination.get id = none
  originals : ∀ id, core.clientSessions.get id = none →
    core.tables.sessionToOriginalDestination.get id = none
  destinations : core.tables.destinationToSession = .empty

namespace Own
variable {core : Core}

theorem start : Own .new := ⟨fun _ _ => rfl, fun _ _ => rfl, rfl⟩

section
variable (h : Own core)
include h

theorem bounded : Bounded core where
  sessions := fun id hid => by
    by_contra hnot
    have hnone := h.sessions id (by simpa [Map.contains] using hnot)
    simp [Map.contains, hnone] at hid
  originals := fun id hid => by
    by_contra hnot
    have hnone := h.originals id (by simpa [Map.contains] using hnot)
    simp [Map.contains, hnone] at hid
  destinations := by
    rw [h.destinations]
    exact Nat.zero_le _

theorem learn (hl : core.learn metadata = .ok mid) : Own mid := by
  rcases learn_ok hl with rfl | ⟨target, _, -, hlearn, rfl⟩
  · exact h
  obtain ⟨hd2s, hs2d, horig⟩ := Tables.learnTarget_ok hlearn
  refine ⟨?_, ?_, hd2s.trans h.destinations⟩
  · rw [hs2d]
    exact Map.none_of_insert h.sessions metadata.sessionId target target
  rw [horig]
  exact Map.none_of_insert h.originals metadata.sessionId target target

theorem endSession (id) : Own (core.endSession id) := by
  refine ⟨Map.none_of_remove h.sessions id, Map.none_of_remove h.originals id, ?_⟩
  change (core.tables.endSession id).destinationToSession = .empty
  unfold Tables.endSession
  rw [h.destinations]
  cases core.tables.sessionToDestination.get id <;> rfl

theorem step (hnot : ¬MakesUp core e) (hs : Stepped core e core') : Own core' := by
  cases hs with
  | same => exact { h with }
  | learned buf decoded learned =>
    have hmid := h.learn learned
    exact { hmid with }
  | ended mid buf decoded learned =>
    have hended := (h.learn learned).endSession
    exact ⟨(hended _).sessions, (hended _).originals, (hended _).destinations⟩
  | delivered =>
    -- there are no sessions by destination
    refine absurd ?_ hnot
    simp only [MakesUp, h.destinations, Map.get_empty]
  | replied found =>
    rcases Tables.replyLocation_cases found with ⟨-, rfl⟩ | ⟨hnone, -⟩
    · exact h
    · exact absurd hnone hnot

end

end Own

/-- **Exactly when sessions are reclaimed.** Of a client that has fewer than 1024 sessions open at
any time, the tables hold no more than these sessions, and no step comes to the limit, if and only
if no step needs a session that the tables do not have. -/
theorem sessions_reclaimed_iff (events : List Event) (hopen : ∀ pre post, events = pre ++ post →
      (after step .new pre).clientSessions.size < maxXudpSessions) :
    (∀ pre post, events = pre ++ post → Bounded (after step .new pre) ∧
      ∀ e es, post = e :: es → ¬Refused (after step .new pre) e) ↔
    Along step (fun core e => ¬MakesUp core e) .new events := by
  constructor
  · intro h
    refine along_of_at fun pre e post he => ?_
    have hlinked : Linked (after step .new pre) :=
      (along_true step .new pre).invariant (fun core e _ hi => hi.step (stepped_step core e))
        Linked.start
    have hafter := (h (pre ++ [e]) post (by rw [he, List.append_assoc]; rfl)).1
    rw [after_append] at hafter
    exact (h pre _ he).1.not_makesUp hlinked (hopen pre _ he) hafter
  rintro h pre post rfl
  have hown : Own (after step .new pre) :=
    h.left.invariant (fun core e hok hi => hi.step hok (stepped_step core e)) Own.start
  exact ⟨hown.bounded, fun e es _ => hown.bounded.not_refused (hopen pre post rfl) e⟩

/-- A New frame without data. -/
def sampleOpen : Frame := { sampleNew 5 0 with payload := none, payload_fits := by simp }

/-- The client opens a session, the server replies on it, and the client ends it; twice. -/
def quietRun : List Event :=
  let once := [.receive sampleOpen.bytes, .decode, .reply 5 sampleAddr,
    .receive (sampleEnd 5 none).bytes, .decode]
  once ++ once

theorem sessions_reclaimed_quiet : Bounded (after step .new quietRun) ∧
    ¬Refused (after step .new (quietRun.take 6)) .decode ∧
    ¬Refused (after step .new (quietRun.take 7)) (.reply 5 sampleAddr) := by
  have hopen : ∀ pre ∈ quietRun.inits,
      (after step .new pre).clientSessions.size < maxXudpSessions := by
    decide
  have hall := (sessions_reclaimed_iff quietRun fun pre post he =>
    hopen pre ((List.mem_inits _ _).mpr ⟨post, he.symm⟩)).mpr (by decide)
  exact ⟨(hall quietRun [] (List.append_nil _).symm).1,
    (hall (quietRun.take 6) (quietRun.drop 6) (List.take_append_drop ..).symm).2 _ _ rfl,
    (hall (quietRun.take 7) (quietRun.drop 7) (List.take_append_drop ..).symm).2 _ _ rfl⟩

/-- The stream after the first message of a client, the reply to it and the End of the session. -/
def afterCycle : XudpMessageStream :=
  let st := (afterFirst.2.1.pollWriteSessionMessage 1 [9] sampleAddr [.accepted 100]).2.1
  (st.pollReadSessionMessage (fun d => .ready (sampleResolve d))
    (fun d => .ready (sampleResolve d)) 65535 (answers [framesBytes [sampleEnd 5 none]])).2.1

/-- **A session that the server made up stays.** The client has ended its only session. -/
theorem made_up_session_stays :
    afterCycle.clientSessions.size = 0 ∧ afterCycle.tables.sessionToDestination.size = 1 ∧
      ¬Bounded afterCycle.toCore := by
  refine ⟨by decide, by decide, fun h => ?_⟩
  have hone := h.sessions 1 (by decide)
  revert hone
  decide

end Shoes.Xudp.Reclaimed
