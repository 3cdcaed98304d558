import Shoes.Lib.Assoc
import Shoes.Net.Location
import Mathlib.Logic.Function.Iterate

/-! # XUDP session tables

The three maps of an `XudpMessageStream` and what is done to them: by the frames that the client
sends, by a message that is handed out, and by a message that is written. -/
namespace Shoes.Xudp.Sessions
open Lib.Io Lib.Assoc Net.Location List Function

def maxXudpSessions : Nat := 1024

structure Tables where
  nextSessionId : UInt16
  destinationToSession : Map NetLocation UInt16
  sessionToDestination : Map UInt16 NetLocation
  sessionToOriginalDestination : Map UInt16 NetLocation
  -- 0 is skipped
  nextSessionId_ne : nextSessionId ≠ 0
  deriving DecidableEq

namespace Tables

def new : Tables where
  nextSessionId := 1
  destinationToSession := .empty
  sessionToDestination := .empty
  sessionToOriginalDestination := .empty
  nextSessionId_ne := by decide

/-- `wrapping_add(1)`, and 1 for 0. -/
def nextId (id : UInt16) : UInt16 := if id + 1 = 0 then 1 else id + 1

theorem nextId_ne (id) : nextId id ≠ 0 := by
  unfold nextId
  split
  · decide
  · assumption

/-- The loop of `allocate_session_id`. There are 65535 ids to try; the loop runs on if all of them
are in use, which the limit on sessions rules out. -/
def allocateLoop (used : UInt16 → Bool) : Nat → UInt16 → UInt16
  | 0, id => id
  | fuel + 1, id => if used id then allocateLoop used fuel (nextId id) else id

section
variable (t : Tables)

/-- `allocate_session_id`: the id; the counter goes on behind it. -/
def allocateSessionId : UInt16 :=
  allocateLoop t.sessionToDestination.contains 65535 t.nextSessionId

def sessionLimitReached : IoError :=
  ⟨.invalidData, s!"XUDP session limit reached ({maxXudpSessions})"⟩

def ensureSessionCapacity (sessionId : Option UInt16) : Except IoError Unit :=
  let known := sessionId.any fun id =>
    t.sessionToDestination.contains id || t.sessionToOriginalDestination.contains id
  if ¬known ∧ (t.sessionToDestination.size ≥ maxXudpSessions ∨
      t.sessionToOriginalDestination.size ≥ maxXudpSessions ∨
      t.destinationToSession.size ≥ maxXudpSessions) then
    .error sessionLimitReached
  else .ok ()

/-- A session in all three maps. -/
def addSession (id : UInt16) (resolved original : NetLocation) : Tables :=
  { t with
    destinationToSession := t.destinationToSession.insert resolved id
    sessionToDestination := t.sessionToDestination.insert id resolved
    sessionToOriginalDestination := t.sessionToOriginalDestination.insert id original }

/-- `get_or_create_session`: the id, and whether it is a new one. -/
def getOrCreateSession (resolvedDestination originalDestination : NetLocation) :
    Except IoError ((UInt16 × Bool) × Tables) :=
  match t.destinationToSession.get resolvedDestination with
  | some id => .ok ((id, false), t)
  | none =>
    match t.ensureSessionCapacity none with
    | .error e => .error e
    | .ok () =>
      let id := t.allocateSessionId
      let t := { t with nextSessionId := nextId id, nextSessionId_ne := nextId_ne id }
      .ok ((id, true), t.addSession id resolvedDestination originalDestination)

/-- What a frame with a target does: the session has this destination from now on. -/
def learnTarget (id : UInt16) (target : NetLocation) : Except IoError Tables :=
  match t.ensureSessionCapacity (some id) with
  | .error e => .error e
  | .ok () => .ok { t with
      sessionToDestination := t.sessionToDestination.insert id target
      sessionToOriginalDestination := t.sessionToOriginalDestination.insert id target }

/-- What an End frame does. -/
def endSession (id : UInt16) : Tables :=
  { t with
    destinationToSession := match t.sessionToDestination.get id with
      | some destination => t.destinationToSession.remove destination
      | none => t.destinationToSession
    sessionToDestination := t.sessionToDestination.remove id
    sessionToOriginalDestination := t.sessionToOriginalDestination.remove id }

/-- The location that a reply for a session names, and the tables after it: a session that is not
known yet is made up from the target. -/
def replyLocation (id : UInt16) (target : SocketAddr) : Except IoError (NetLocation × Tables) :=
  match t.sessionToOriginalDestination.get id with
  | some original => .ok (original, t)
  | none =>
    match t.ensureSessionCapacity (some id) with
    | .error e => .error e
    | .ok () => .ok (target.location, t.addSession id target.location target.location)

end

/-! ## Allocation -/

theorem nextId_toNat (id) : (nextId id).toNat = id.toNat % 65535 + 1 := by
  have hlt := id.toNat_lt
  have hadd : (id + 1).toNat = (id.toNat + 1) % 65536 := by rw [UInt16.toNat_add]; rfl
  unfold nextId
  split_ifs with h0
  · rw [h0] at hadd
    change 0 = _ at hadd
    change 1 = _
    omega
  have hne : (id + 1).toNat ≠ 0 := fun hz => h0 (UInt16.toNat_inj.mp hz)
  omega

theorem iterate_nextId_toNat {id} (h : id ≠ 0) (n) :
    nextId^[n] id ≠ 0 ∧ (nextId^[n] id).toNat = (id.toNat - 1 + n) % 65535 + 1 := by
  have hlt := id.toNat_lt
  have hpos : id.toNat ≠ 0 := fun h0 => h (UInt16.toNat_inj.mp h0)
  induction n with
  | zero => exact ⟨h, by simp only [iterate_zero, id_eq]; omega⟩
  | succ n ih =>
    rw [iterate_succ_apply']
    refine ⟨nextId_ne _, ?_⟩
    rw [nextId_toNat, ih.2]
    omega

theorem allocateLoop_unused {used : UInt16 → Bool} :
    ∀ (fuel : Nat) (id : UInt16), (∃ i < fuel, used (nextId^[i] id) = false) →
      used (allocateLoop used fuel id) = false
  | 0, _, ⟨_, h, _⟩ => absurd h (Nat.not_lt_zero _)
  | fuel + 1, id, ⟨i, hi, hfree⟩ => by
    unfold allocateLoop
    split
    next hused =>
      match i with
      | 0 => rw [iterate_zero, id_eq, hused] at hfree; cases hfree
      | i + 1 =>
        exact allocateLoop_unused fuel (nextId id) ⟨i, by omega, by
          rwa [iterate_succ_apply] at hfree⟩
    next hfree => simpa using hfree

/-- **An allocated id is not in use**, since there are fewer sessions than ids. -/
theorem allocateSessionId_fresh {t : Tables} (h : t.sessionToDestination.size < maxXudpSessions) :
    t.sessionToDestination.get t.allocateSessionId = none := by
  have hfree : ∃ i < 65535, t.sessionToDestination.contains (nextId^[i] t.nextSessionId) = false := by
    by_contra hall
    -- otherwise the first 1024 ids tried are as many sessions
    have hnodup : ((List.range 1024).map fun i => nextId^[i] t.nextSessionId).Nodup := by
      refine List.Nodup.map_on (fun i hi j hj he => ?_) nodup_range
      have hi' := mem_range.mp hi
      have hj' := mem_range.mp hj
      have h1 := (iterate_nextId_toNat t.nextSessionId_ne i).2
      have h2 := (iterate_nextId_toNat t.nextSessionId_ne j).2
      rw [he] at h1
      omega
    have hle := t.sessionToDestination.length_le_size hnodup fun id hid => by
      obtain ⟨i, hi, rfl⟩ := mem_map.mp hid
      have hi' := mem_range.mp hi
      by_contra hne
      exact hall ⟨i, by omega, by simpa using hne⟩
    rw [length_map, length_range] at hle
    exact absurd h (not_lt.mpr hle)
  have hunused := allocateLoop_unused 65535 t.nextSessionId hfree
  unfold allocateSessionId
  simpa [Map.contains] using hunused

/-! ## What the operations do -/

theorem ensureSessionCapacity_none {t : Tables} (h : t.ensureSessionCapacity none = .ok ()) :
    t.sessionToDestination.size < maxXudpSessions := by
  unfold ensureSessionCapacity at h
  obtain ⟨hroom, h⟩ := of_ite_error h
  simp only [Option.any_none, Bool.false_eq_true, not_false_eq_true, true_and, not_or,
    Nat.not_le, ge_iff_le] at hroom
  exact hroom.1

theorem ensureSessionCapacity_ok {t : Tables} (id)
    (hs2d : t.sessionToDestination.size < maxXudpSessions)
    (horig : t.sessionToOriginalDestination.size < maxXudpSessions)
    (hd2s : t.destinationToSession.size < maxXudpSessions) :
    t.ensureSessionCapacity id = .ok () := by
  unfold ensureSessionCapacity
  rw [if_neg]
  rintro ⟨-, _⟩
  omega

/-- A session is found by its destination, or it is a new one under an id that was not in use. -/
theorem getOrCreateSession_cases {t t' : Tables} {resolved original id isNew}
    (h : t.getOrCreateSession resolved original = .ok ((id, isNew), t')) :
    (t.destinationToSession.get resolved = some id ∧ t' = t) ∨
    (t.destinationToSession.get resolved = none ∧ t.sessionToDestination.get id = none ∧
      t'.destinationToSession = t.destinationToSession.insert resolved id ∧
      t'.sessionToDestination = t.sessionToDestination.insert id resolved ∧
      t'.sessionToOriginalDestination = t.sessionToOriginalDestination.insert id original) := by
  unfold getOrCreateSession at h
  split at h
  next found hfound =>
    cases h
    exact .inl ⟨hfound, rfl⟩
  rename_i hnone
  split at h <;> cases h
  rename_i hroom
  exact .inr ⟨hnone, allocateSessionId_fresh (ensureSessionCapacity_none hroom), rfl, rfl, rfl⟩

theorem learnTarget_ok {t t' : Tables} {id target} (h : t.learnTarget id target = .ok t') :
    t'.destinationToSession = t.destinationToSession ∧
      t'.sessionToDestination = t.sessionToDestination.insert id target ∧
      t'.sessionToOriginalDestination = t.sessionToOriginalDestination.insert id target := by
  unfold learnTarget at h
  split at h <;> cases h
  exact ⟨rfl, rfl, rfl⟩

/-! Below the limit no operation fails. -/

theorem exists_getOrCreateSession {t : Tables} (h : t.ensureSessionCapacity none = .ok ())
    (resolved original) :
    ∃ id isNew t', t.getOrCreateSession resolved original = .ok ((id, isNew), t') := by
  unfold getOrCreateSession
  split
  · exact ⟨_, _, _, rfl⟩
  rw [h]
  exact ⟨_, _, _, rfl⟩

theorem exists_learnTarget {t : Tables} {id} (h : t.ensureSessionCapacity (some id) = .ok ())
    (target) : ∃ t', t.learnTarget id target = .ok t' := by
  unfold learnTarget
  rw [h]
  exact ⟨_, rfl⟩

theorem exists_replyLocation {t : Tables} {id} (h : t.ensureSessionCapacity (some id) = .ok ())
    (target) : ∃ location t', t.replyLocation id target = .ok (location, t') := by
  unfold replyLocation
  split
  · exact ⟨_, _, rfl⟩
  rw [h]
  exact ⟨_, _, rfl⟩

theorem replyLocation_cases {t t' : Tables} {id} {target : SocketAddr}
    {location} (h : t.replyLocation id target = .ok (location, t')) :
    (t.sessionToOriginalDestination.get id = some location ∧ t' = t) ∨
    (t.sessionToOriginalDestination.get id = none ∧
      t' = t.addSession id target.location target.location) := by
  unfold replyLocation at h
  split at h
  next found hfound =>
    cases h
    exact .inl ⟨hfound, rfl⟩
  rename_i hnone
  split at h <;> cases h
  exact .inr ⟨hnone, rfl⟩

end Tables

end Shoes.Xudp.Sessions
