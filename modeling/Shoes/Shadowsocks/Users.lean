import Shoes.Lib.IndexedList
import Shoes.V2board.RuntimeModel

/-! # The user table of a Shadowsocks listener

An AEAD2022 listener finds a user by the hash in the identity header. The table is a list of keys
with an index by that hash and one by user id. A delta is checked as a whole before it is applied. -/
namespace Shoes.Shadowsocks.Users
open Lib.Io Lib.Assoc Lib.IndexedList V2board.RuntimeModel List

structure AuthenticatedUser where
  nodeTag : String
  uid : Nat
  userKey : List UInt8
  speedLimit : Option Nat
  deviceLimit : Option Nat
  dedicatedIp : Option DedicatedEgress
  deriving DecidableEq

structure Blake3Key where
  keyBytes : List UInt8
  sessionKeyLen : Nat
  deriving DecidableEq

structure ShadowsocksUserKey where
  key : Blake3Key
  aead2022UserHash : Option (List UInt8)
  authenticatedUser : AuthenticatedUser
  deriving DecidableEq

def ShadowsocksUserKey.uid (user : ShadowsocksUserKey) : Nat := user.authenticatedUser.uid

structure ShadowsocksUsers where
  keys : List ShadowsocksUserKey
  byUserHash : Map (List UInt8) Nat
  byUid : Map Nat Nat
  aead2022 : Bool

namespace ShadowsocksUsers

def new (keys : List ShadowsocksUserKey) (aead2022 : Bool) : ShadowsocksUsers where
  keys := keys
  byUserHash := collectIndex (fun user => user.aead2022UserHash) 0 Map.empty keys
  byUid := collectIndex (fun user => some user.uid) 0 Map.empty keys
  aead2022 := aead2022

/-- The entry of an AEAD2022 user. -/
def userKey (userHash : List UInt8 → List UInt8) (keyLen : Nat)
    (user : List UInt8 × AuthenticatedUser) : ShadowsocksUserKey where
  key := ⟨user.1, keyLen⟩
  aead2022UserHash := some (userHash user.1)
  authenticatedUser := user.2

def ofAead2022 (userHash : List UInt8 → List UInt8) (keyLen : Nat)
    (users : List (List UInt8 × AuthenticatedUser)) : ShadowsocksUsers :=
  .new (users.map (userKey userHash keyLen)) true

def containsUid (table : ShadowsocksUsers) (uid : Nat) : Bool := table.byUid.contains uid

/-- Whom a client with this hash is taken for. -/
def findByUserHash (table : ShadowsocksUsers) (userHash : List UInt8) : Option ShadowsocksUserKey :=
  find table.keys table.byUserHash userHash

/-! ## A delta -/

def checkUids : List Nat → List ShadowsocksUserKey → Except IoError Unit
  | _, [] => .ok ()
  | incoming, user :: rest =>
    let uid := user.uid
    if uid ∈ incoming then
      .error ⟨.invalidInput, s!"duplicate Shadowsocks AEAD2022 user id {uid} in delta"⟩
    else checkUids (uid :: incoming) rest

/-- The user who has this hash already and keeps it. -/
def conflict (table : ShadowsocksUsers) (removed incomingUids : List Nat) (uid : Nat)
    (hash : List UInt8) : Option Nat :=
  match table.findByUserHash hash with
  | none => none
  | some existing =>
    if existing.uid ≠ uid ∧ existing.uid ∉ removed ∧ existing.uid ∉ incomingUids then
      some existing.uid
    else none

def checkHashes (table : ShadowsocksUsers) (removed incomingUids : List Nat) :
    List (List UInt8) → List ShadowsocksUserKey → Except IoError Unit
  | _, [] => .ok ()
  | incoming, user :: rest =>
    let uid := user.uid
    match user.aead2022UserHash with
    | none =>
      .error ⟨.invalidInput, s!"Shadowsocks AEAD2022 user {uid} has no identity hash"⟩
    | some hash =>
      if incoming.contains hash then
        .error ⟨.invalidInput, s!"duplicate Shadowsocks AEAD2022 identity hash for user {uid}"⟩
      else
        match table.conflict removed incomingUids uid hash with
        | some existing =>
          .error ⟨.invalidInput, s!"Shadowsocks AEAD2022 identity hash for user {uid} " ++
            s!"conflicts with user {existing}"⟩
        | none => checkHashes table removed incomingUids (hash :: incoming) rest

def validateAead2022Delta (table additions : ShadowsocksUsers) (removed : List Nat) :
    Except IoError Unit :=
  if !table.aead2022 || !additions.aead2022 then
    .error ⟨.unsupported, "Shadowsocks user delta requires AEAD2022 tables"⟩
  else do
    checkUids [] additions.keys
    checkHashes table removed (additions.keys.map (·.uid)) [] additions.keys

def removeUid (table : ShadowsocksUsers) (uid : Nat) : ShadowsocksUsers :=
  match table.byUid.get uid with
  | none => table
  | some index =>
    match table.keys[index]? with
    | none => table
    | some removed =>
      let keys := swapRemove table.keys index
      let byUid := table.byUid.remove uid
      let byUserHash := unindex table.byUserHash removed.aead2022UserHash
      match keys[index]? with
      | none => { table with keys, byUid, byUserHash }
      | some moved =>
        { table with
          keys
          byUid := byUid.insert moved.uid index
          byUserHash := indexAt byUserHash moved.aead2022UserHash index }

def push (table : ShadowsocksUsers) (user : ShadowsocksUserKey) : ShadowsocksUsers :=
  match user.aead2022UserHash with
  | none => table
  | some hash =>
    { table with
      keys := table.keys ++ [user]
      byUid := table.byUid.insert user.uid table.keys.length
      byUserHash := table.byUserHash.insert hash table.keys.length }

def applyAead2022DeltaValidated (table additions : ShadowsocksUsers) (removed : List Nat) :
    ShadowsocksUsers :=
  let table := (additions.keys.map (·.uid)).foldl removeUid table
  let table := removed.foldl removeUid table
  additions.keys.foldl push table

def applyAead2022Delta (table additions : ShadowsocksUsers) (removed : List Nat) :
    Except IoError Unit × ShadowsocksUsers :=
  match table.validateAead2022Delta additions removed with
  | .error e => (.error e, table)
  | .ok () => (.ok (), table.applyAead2022DeltaValidated additions removed)

def afterDeltas (table : ShadowsocksUsers) (deltas : List (ShadowsocksUsers × List Nat)) :
    ShadowsocksUsers :=
  deltas.foldl (fun table delta => (table.applyAead2022Delta delta.1 delta.2).2) table

/-! ## The indexes are kept -/

/-- Both indexes have exactly the places of the keys. -/
structure Indexed (table : ShadowsocksUsers) : Prop where
  hash : Indexes (fun user => user.aead2022UserHash) table.keys table.byUserHash
  uid : Indexes (fun user => some user.uid) table.keys table.byUid

section
variable {table additions : ShadowsocksUsers} {removed : List Nat} {uid : Nat}
  {user e : ShadowsocksUserKey}

theorem byUid_indexes {keys : List ShadowsocksUserKey} (huid : (keys.map (·.uid)).Nodup) :
    Indexes (fun user => some user.uid) keys
      (collectIndex (fun user => some user.uid) 0 Map.empty keys) := by
  refine collectIndex_indexes (indexes_nil _) keys ?_ (fun _ h => absurd h not_mem_nil)
  rw [show (fun user => some user.uid) = some ∘ ShadowsocksUserKey.uid from rfl, filterMap_eq_map]
  exact huid

theorem new_indexed {keys} (aead2022)
    (hhash : (keys.filterMap fun user => user.aead2022UserHash).Nodup)
    (huid : (keys.map (·.uid)).Nodup) : (new keys aead2022).Indexed where
  hash := collectIndex_indexes (indexes_nil _) keys hhash (fun _ h => absurd h not_mem_nil)
  uid := byUid_indexes huid

theorem containsUid_new {keys : List ShadowsocksUserKey} (aead2022)
    (huid : (keys.map (·.uid)).Nodup) :
    (new keys aead2022).containsUid uid = true ↔ uid ∈ keys.map (·.uid) := by
  have hindex := (byUid_indexes huid).get_isSome_iff (k := uid)
  simp only [Option.some.injEq] at hindex
  rw [mem_map]
  exact hindex

namespace Indexed

section
variable (h : table.Indexed)
include h

theorem find_iff :
    table.findByUserHash userHash = some e ↔ e ∈ table.keys ∧ e.aead2022UserHash = some userHash :=
  h.hash.find_iff

/-- Two tables take every client for the same user if they have the same keys. -/
theorem find_eq_of_mem_iff {other : ShadowsocksUsers} (hother : other.Indexed)
    (hmem : ∀ e, e ∈ table.keys ↔ e ∈ other.keys) (userHash) :
    table.findByUserHash userHash = other.findByUserHash userHash := by
  apply Option.ext
  intro e
  rw [h.find_iff, hother.find_iff, hmem]

theorem removeUid (uid) : (table.removeUid uid).Indexed ∧
      ∀ e, e ∈ (table.removeUid uid).keys ↔ e ∈ table.keys ∧ e.uid ≠ uid := by
  unfold ShadowsocksUsers.removeUid
  rcases hindex : table.byUid.get uid with _ | index
  · refine ⟨h, fun e => ⟨fun he => ⟨he, ?_⟩, And.left⟩⟩
    rintro rfl
    have hsome := h.uid.get_isSome_iff.mpr ⟨e, he, rfl⟩
    rw [hindex] at hsome
    cases hsome
  obtain ⟨gone, hgone, huid⟩ := (h.uid uid index).mp hindex
  cases huid
  have hhash := h.hash.swapRemove hgone
  have huid := h.uid.swapRemove hgone
  simp only [hgone]
  cases hmoved : (swapRemove table.keys index)[index]? with
  | none | some moved =>
    rw [hmoved] at hhash huid
    refine ⟨⟨hhash, huid⟩, fun e => (mem_swapRemove hgone).trans ⟨?_, ?_⟩⟩
    · rintro ⟨j, hj, he⟩
      exact ⟨mem_of_getElem? he, fun heq =>
        hj (h.uid.unique he hgone (congrArg some heq) rfl)⟩
    rintro ⟨he, hne⟩
    obtain ⟨j, hj⟩ := mem_iff_getElem?.mp he
    refine ⟨j, ?_, hj⟩
    rintro rfl
    cases hgone.symm.trans hj
    exact hne rfl

theorem foldl_removeUid (uids : List Nat) : (uids.foldl ShadowsocksUsers.removeUid table).Indexed ∧
      ∀ e, e ∈ (uids.foldl ShadowsocksUsers.removeUid table).keys ↔
        e ∈ table.keys ∧ e.uid ∉ uids := by
  induction uids generalizing table with
  | nil => exact ⟨h, by simp⟩
  | cons uid uids ih =>
    obtain ⟨hindexed, hmem⟩ := h.removeUid uid
    obtain ⟨hindexed', hmem'⟩ := ih hindexed
    refine ⟨hindexed', fun e => ?_⟩
    rw [foldl_cons, hmem', hmem, mem_cons, not_or, and_assoc]

theorem push {hash} (hhash : user.aead2022UserHash = some hash)
    (hfresh : ∀ e ∈ table.keys, e.uid ≠ user.uid ∧ e.aead2022UserHash ≠ some hash) :
    (table.push user).Indexed ∧ (table.push user).keys = table.keys ++ [user] := by
  have hindex := h.hash.push (e := user) (by
    intro e he k hk
    cases hhash.symm.trans hk
    exact (hfresh e he).2)
  have hindex' := h.uid.push (e := user) (by
    intro e he k hk heq
    cases hk
    exact (hfresh e he).1 (Option.some.inj heq))
  rw [hhash] at hindex
  simp only [ShadowsocksUsers.push, hhash]
  exact ⟨⟨hindex, hindex'⟩, trivial⟩

/-- New keys whose ids and hashes differ from each other and from all there are. -/
theorem foldl_push (users) (hhash : ∀ user ∈ users, ∃ hash, user.aead2022UserHash = some hash)
    (hdistinct : users.Pairwise fun a b =>
      a.uid ≠ b.uid ∧ a.aead2022UserHash ≠ b.aead2022UserHash)
    (hfresh : ∀ user ∈ users, ∀ e ∈ table.keys,
      e.uid ≠ user.uid ∧ e.aead2022UserHash ≠ user.aead2022UserHash) :
    (users.foldl ShadowsocksUsers.push table).Indexed ∧
      (users.foldl ShadowsocksUsers.push table).keys = table.keys ++ users := by
  induction users generalizing table with
  | nil => exact ⟨h, by simp⟩
  | cons user users ih =>
    obtain ⟨hash, huser⟩ := hhash user (mem_cons_self ..)
    obtain ⟨hne, hdistinct⟩ := pairwise_cons.mp hdistinct
    obtain ⟨hindexed, hkeys⟩ := h.push huser (by
      rw [← huser]
      exact hfresh user (mem_cons_self ..))
    have := ih hindexed (forall_mem_cons.mp hhash).2 hdistinct (by
      intro u hu e he
      rw [hkeys, mem_append, mem_singleton] at he
      rcases he with he | rfl
      · exact hfresh u (mem_cons_of_mem _ hu) e he
      · exact hne u hu)
    rw [hkeys, append_assoc] at this
    exact this

end

end Indexed

/-! ## What the check lets through -/

theorem checkUids_ok (h : checkUids incoming users = .ok ()) :
    (users.map (·.uid)).Nodup ∧ ∀ user ∈ users, user.uid ∉ incoming := by
  induction users generalizing incoming with
  | nil => exact ⟨nodup_nil, by simp⟩
  | cons user users ih =>
    obtain ⟨hfresh, h⟩ := of_ite_error h
    obtain ⟨hnodup, hrest⟩ := ih h
    refine ⟨?_, ?_⟩
    · rw [map_cons, nodup_cons]
      refine ⟨fun hmem => ?_, hnodup⟩
      obtain ⟨other, hother, heq⟩ := mem_map.mp hmem
      exact hrest other hother (by simp [heq])
    intro other hother
    rcases mem_cons.mp hother with rfl | hother
    · exact hfresh
    · exact fun hmem => hrest other hother (mem_cons_of_mem _ hmem)

theorem conflict_none {incomingUids hash} (h : table.Indexed)
    (hnone : table.conflict removed incomingUids uid hash = none) (he : e ∈ table.keys)
    (hhash : e.aead2022UserHash = some hash) :
    e.uid = uid ∨ e.uid ∈ removed ∨ e.uid ∈ incomingUids := by
  rw [conflict, h.find_iff.mpr ⟨he, hhash⟩] at hnone
  by_contra hno
  simp only [not_or] at hno
  simp [hno] at hnone

theorem checkHashes_ok (h : table.checkHashes removed incomingUids incoming users = .ok ()) :
    (users.Pairwise fun a b => a.aead2022UserHash ≠ b.aead2022UserHash) ∧
      ∀ user ∈ users, ∃ hash, user.aead2022UserHash = some hash ∧ hash ∉ incoming ∧
        table.conflict removed incomingUids user.uid hash = none := by
  induction users generalizing incoming with
  | nil => exact ⟨List.Pairwise.nil, by simp⟩
  | cons user users ih =>
    simp only [checkHashes] at h
    split at h
    · cases h
    rename_i hash hhash
    obtain ⟨hfresh, h⟩ := of_ite_error h
    split at h
    · cases h
    rename_i hconflict
    obtain ⟨hdistinct, hrest⟩ := ih h
    refine ⟨pairwise_cons.mpr ⟨?_, hdistinct⟩, ?_⟩
    · intro other hother heq
      obtain ⟨hash', hhash', hnew, -⟩ := hrest other hother
      rw [hhash, hhash'] at heq
      cases heq
      exact hnew (mem_cons_self ..)
    intro other hother
    rcases mem_cons.mp hother with rfl | hother
    · exact ⟨hash, hhash, by simpa using hfresh, hconflict⟩
    obtain ⟨hash', hhash', hnew, hno⟩ := hrest other hother
    exact ⟨hash', hhash', fun hmem => hnew (mem_cons_of_mem _ hmem), hno⟩

/-- **A delta that passes the check.** The keys of all users it names go and its own come; the
indexes are kept, also when users swap keys. -/
theorem apply_validated (h : table.Indexed)
    (hvalid : table.validateAead2022Delta additions removed = .ok ()) :
    (table.applyAead2022DeltaValidated additions removed).Indexed ∧
      ∀ e, e ∈ (table.applyAead2022DeltaValidated additions removed).keys ↔ e ∈ additions.keys ∨
          e ∈ table.keys ∧ e.uid ∉ additions.keys.map (·.uid) ∧ e.uid ∉ removed := by
  obtain ⟨-, hvalid⟩ := of_ite_error hvalid
  obtain ⟨⟨⟩, huids, hhashes⟩ : ∃ u : Unit, checkUids [] additions.keys = .ok u ∧
      table.checkHashes removed (additions.keys.map (·.uid)) [] additions.keys = .ok () := by
    rcases huids : checkUids [] additions.keys with _ | u
    · rw [huids] at hvalid
      cases hvalid
    rw [huids] at hvalid
    exact ⟨u, rfl, hvalid⟩
  obtain ⟨huids, -⟩ := checkUids_ok huids
  obtain ⟨hdistinct, hhashes⟩ := checkHashes_ok hhashes
  obtain ⟨hindexed, hmem⟩ := h.foldl_removeUid (additions.keys.map (·.uid))
  obtain ⟨hindexed', hmem'⟩ := hindexed.foldl_removeUid removed
  have hpush := hindexed'.foldl_push additions.keys
    (fun user huser => (hhashes user huser).imp fun _ hx => hx.1)
    ((pairwise_map.mp huids).and hdistinct) (by
      intro user huser e he
      obtain ⟨he, hnotRemoved⟩ := (hmem' e).mp he
      obtain ⟨he, hnotAdded⟩ := (hmem e).mp he
      refine ⟨fun heq => hnotAdded (heq ▸ mem_map_of_mem huser), fun heq => ?_⟩
      obtain ⟨hash, hhash, -, hnone⟩ := hhashes user huser
      rcases conflict_none h hnone he (heq.trans hhash) with heq | hgone | hadded
      · exact hnotAdded (heq ▸ mem_map_of_mem huser)
      · exact hnotRemoved hgone
      · exact hnotAdded hadded)
  refine ⟨hpush.1, fun e => ?_⟩
  rw [applyAead2022DeltaValidated, hpush.2, mem_append, hmem', hmem, or_comm, and_assoc]

theorem Indexed.afterDeltas (h : table.Indexed) (deltas) : (table.afterDeltas deltas).Indexed := by
  refine deltas.foldlRecOn _ h fun table h delta _ => ?_
  unfold applyAead2022Delta
  cases hvalid : table.validateAead2022Delta delta.1 delta.2 with
  | error => exact h
  | ok => exact (apply_validated h hvalid).1

theorem ofAead2022_indexed {users} (userHash keyLen) (huid : (users.map (·.2.uid)).Nodup)
    (hhash : (users.map fun user => userHash user.1).Nodup) :
    (ofAead2022 userHash keyLen users).Indexed := by
  refine new_indexed true ?_ ?_
  · rw [filterMap_map]
    exact (filterMap_eq_map (f := fun user : _ × _ => userHash user.1)) ▸ hhash
  rw [map_map]
  exact huid

/-- **The indexes over any deltas.** After each of them both indexes are exact and a hash finds its
owner. An accepted delta replaces the users it names, a rejected one changes nothing. -/
theorem deltas_keep_indexes {users} (userHash keyLen) (huid : (users.map (·.2.uid)).Nodup)
    (hhash : (users.map fun user => userHash user.1).Nodup) (deltas additions removed) :
    let table := (ofAead2022 userHash keyLen users).afterDeltas deltas
    let delta := table.applyAead2022Delta additions removed
    table.Indexed ∧
      (∀ hash e, table.findByUserHash hash = some e ↔
        e ∈ table.keys ∧ e.aead2022UserHash = some hash) ∧
      match delta.1 with
      | .error _ => delta.2 = table
      | .ok () => ∀ e, e ∈ delta.2.keys ↔ e ∈ additions.keys ∨
          e ∈ table.keys ∧ e.uid ∉ additions.keys.map (·.uid) ∧ e.uid ∉ removed := by
  intro table delta
  have h := (ofAead2022_indexed userHash keyLen huid hhash).afterDeltas deltas
  refine ⟨h, fun _ _ => h.find_iff, ?_⟩
  rcases hvalid : table.validateAead2022Delta additions removed with _ | _
  · simp [delta, applyAead2022Delta, hvalid]
  simp only [delta, applyAead2022Delta, hvalid]
  exact (apply_validated h hvalid).2

def sampleUser (uid : Nat) : AuthenticatedUser := ⟨"n", uid, [], none, none, none⟩

/-- Two users swap their keys, and one of them is removed and comes back with another key. -/
theorem swapped_keeps_indexes :
    let table := (ofAead2022 id 16 [([1], sampleUser 7), ([2], sampleUser 8)]).afterDeltas
      [(ofAead2022 id 16 [([2], sampleUser 7), ([1], sampleUser 8)], []), (.new [] true, [7])]
    let back := ofAead2022 id 16 [([3], sampleUser 7)]
    let added := (table.applyAead2022Delta back []).2
    table.Indexed ∧ table.findByUserHash [1] = some (userKey id 16 ([1], sampleUser 8)) ∧
      ∀ e, e ∈ added.keys ↔ e ∈ back.keys ∨ e ∈ table.keys ∧ e.uid ∉ back.keys.map (·.uid) ∧
        e.uid ∉ [] := by
  intro table back added
  obtain ⟨hindexed, hfind, hadded⟩ := @deltas_keep_indexes [([1], sampleUser 7), ([2], sampleUser 8)]
    id 16 (by decide) (by decide)
    [(ofAead2022 id 16 [([2], sampleUser 7), ([1], sampleUser 8)], []), (.new [] true, [7])] back []
  exact ⟨hindexed, (hfind _ _).mpr (by decide), hadded⟩

end

end ShadowsocksUsers

end Shoes.Shadowsocks.Users
