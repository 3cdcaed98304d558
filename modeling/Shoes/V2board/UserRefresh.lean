import Shoes.Lib.Machine
import Shoes.Shadowsocks.Users
import Shoes.V2board.UserDelta

/-! # Refreshing the live user table

When the user list changes, the table of a Shadowsocks 2022 node is built anew from all rows at the
current time, or the delta is applied to the live table, which looks at its own rows only. -/
namespace Shoes.V2board.UserRefresh
open Lib.Io Lib.Assoc Lib.IndexedList Lib.Machine Lib.SortedTable List
open Shadowsocks.Users RuntimeModel UserDelta

/-- The functions of other crates. -/
structure Crates where
  chrono : Chrono
  base64Encode : List UInt8 → List UInt8
  base64Decode : List UInt8 → Except String (List UInt8)
  sha256 : List UInt8 → List UInt8
  userHash : List UInt8 → List UInt8

/-- The Shadowsocks 2022 ciphers of a node with several users. -/
inductive Cipher
  | blake3Aes128Gcm
  | blake3Aes256Gcm
  deriving DecidableEq

def Cipher.name : Cipher → String
  | .blake3Aes128Gcm => "2022-blake3-aes-128-gcm"
  | .blake3Aes256Gcm => "2022-blake3-aes-256-gcm"

/-- `shadowsocks_2022_key_len`, which is also the key length of the runtime cipher. -/
def Cipher.keyLen : Cipher → Nat
  | .blake3Aes128Gcm => 16
  | .blake3Aes256Gcm => 32

structure RuntimeNodeSpec where
  tag : String
  cipher : Cipher
  serverKey : Option (List UInt8)

variable (crates : Crates) (spec : RuntimeNodeSpec)

/-! ## Building the table -/

def invalid {α : Type} (message : String) : Except IoError α := .error ⟨.invalidInput, message⟩

def shadowsocks2022UserPassword (user : RuntimeUser) : Except IoError (List UInt8) :=
  let tag := spec.tag
  let uid := user.uid
  match user.secret with
  | some secret => .ok secret
  | none =>
    if user.credential.length < spec.cipher.keyLen then
      invalid (s!"node `{tag}` user {uid} credential is too short for shadowsocks 2022 key " ++
        "derivation")
    else .ok (crates.base64Encode (user.credential.take spec.cipher.keyLen))

def decodeShadowsocks2022Psk (value : List UInt8) (keyLen : Nat) (name : String) :
    Except IoError (List UInt8) :=
  match crates.base64Decode value with
  | .error e => invalid s!"{name} must be base64-encoded for shadowsocks 2022: {e}"
  | .ok key =>
    if key.length < keyLen then
      invalid s!"{name} is too short for shadowsocks 2022 key length {keyLen}"
    else if key.length > keyLen then .ok ((crates.sha256 key).take keyLen)
    else .ok key

def authenticatedUserFromRuntime (user : RuntimeUser) : AuthenticatedUser where
  nodeTag := spec.tag
  uid := user.uid
  userKey := user.userKey
  speedLimit := user.speedLimitMbps
  deviceLimit := user.deviceLimit
  dedicatedIp := user.dedicatedIp

def userPsk (user : RuntimeUser) : Except IoError (List UInt8) :=
  let tag := spec.tag
  let uid := user.uid
  match shadowsocks2022UserPassword crates spec user with
  | .error e => .error e
  | .ok password =>
    decodeShadowsocks2022Psk crates password spec.cipher.keyLen
      s!"node `{tag}` user {uid} shadowsocks 2022 psk"

/-- What is collected from the users: the keys seen, and the rows of the table. -/
structure Collected where
  seen : Map (List UInt8) Nat
  tableUsers : List (List UInt8 × AuthenticatedUser)

def visitUser (c : Collected) (user : RuntimeUser) : Except IoError Collected :=
  let tag := spec.tag
  let uid := user.uid
  match userPsk crates spec user with
  | .error e => .error e
  | .ok psk =>
    match c.seen.get psk with
    | some previous =>
      invalid s!"node `{tag}` shadowsocks user {uid} psk duplicates user {previous} psk"
    | none =>
      .ok ⟨c.seen.insert psk uid, c.tableUsers ++ [(psk, authenticatedUserFromRuntime spec user)]⟩

def checkServerKey : Except IoError (List UInt8) :=
  let tag := spec.tag
  let cipher := spec.cipher.name
  match spec.serverKey with
  | none => invalid s!"node `{tag}` shadowsocks 2022 cipher `{cipher}` requires server_key"
  | some serverKey =>
    decodeShadowsocks2022Psk crates serverKey spec.cipher.keyLen
      s!"node `{tag}` shadowsocks server_key"

def buildShadowsocksUsersFromRaw (now : Int) (users : List UserInfo) :
    Except IoError ShadowsocksUsers :=
  match checkServerKey crates spec with
  | .error e => .error e
  | .ok _ =>
    match forEachRuntimeUser crates.chrono spec.tag now (visitUser crates spec)
        ⟨Map.empty, []⟩ users with
    | .error e => .error e
    | .ok collected =>
      .ok (.ofAead2022 crates.userHash spec.cipher.keyLen collected.tableUsers)

/-! ## Applying a delta -/

/-- The rows from the back, without removed ids and without the ids seen. -/
def effectiveRows (removed : List Nat) : List Nat → List UserInfo → List UserInfo
  | _, [] => []
  | seen, user :: rest =>
    if user.id ∈ removed ∨ user.id ∈ seen then effectiveRows removed seen rest
    else user :: effectiveRows removed (user.id :: seen) rest

def effectiveDeltaUpdates (updated : List UserInfo) (removed : List Nat) : List UserInfo :=
  (effectiveRows removed [] updated.reverse).reverse

def effectiveDeltaRemoved (updated : List UserInfo) (removed : List Nat)
    (additions : ShadowsocksUsers) : List Nat :=
  dedupLast (fun id => id) (sortByKey (fun id => id) (removed ++
    (updated.filter fun user => !additions.containsUid user.id).map UserInfo.id))

/-- The removed ids, or `none` for the way over the whole table; and the table afterwards. -/
def refreshNodeUserDelta (now : Int) (updated : List UserInfo) (removed : List Nat)
    (table : Option ShadowsocksUsers) :
    Except IoError (Option (List Nat)) × Option ShadowsocksUsers :=
  match table with
  | none => (.ok none, table)
  | some current =>
    let effectiveUpdated := effectiveDeltaUpdates updated removed
    match buildShadowsocksUsersFromRaw crates spec now effectiveUpdated with
    | .error e => (.error e, table)
    | .ok additions =>
      let effectiveRemoved := effectiveDeltaRemoved effectiveUpdated removed additions
      match current.validateAead2022Delta additions effectiveRemoved with
      | .ok () =>
        (.ok (some effectiveRemoved),
          some (current.applyAead2022DeltaValidated additions effectiveRemoved))
      | .error e => if e.kind = .unsupported then (.ok none, table) else (.error e, table)

/-! ## The live table over time -/

/-- The user list of the controller and the live table. `asOf` is a record of the time at which the
row of a user was last looked at. -/
structure State where
  users : List UserInfo
  table : Option ShadowsocksUsers
  asOf : Nat → Int

def State.new : State := ⟨[], none, fun _ => 0⟩

inductive Event
  | full (now : Int) (users : List UserInfo)
  | delta (now : Int) (updated : List UserInfo) (removed : List Nat)

/-- A delta names a user. -/
def Named (updated : List UserInfo) (removed : List Nat) (id : Nat) : Prop :=
  id ∈ removed ∨ id ∈ updated.map UserInfo.id

instance (updated : List UserInfo) (removed : List Nat) (id : Nat) :
    Decidable (Named updated removed id) :=
  inferInstanceAs (Decidable (_ ∨ _))

def refreshUsers (s : State) (now : Int) (users : List UserInfo) : State :=
  match buildShadowsocksUsersFromRaw crates spec now users with
  | .error _ => s
  | .ok table => ⟨users, some table, fun _ => now⟩

def mergedUsers (s : State) (updated : List UserInfo) (removed : List Nat) : List UserInfo :=
  (mergeUserDelta UserInfo.id s.users updated removed).1

/-- The times after a delta that was applied to the table. -/
def stamp (s : State) (now : Int) (updated : List UserInfo) (removed : List Nat) (id : Nat) : Int :=
  if Named updated removed id then now else s.asOf id

/-- A step is possible in every state. -/
def next (s : State) : Event → Option State
  | .full now users => some (refreshUsers crates spec s now users)
  | .delta now updated removed =>
    let users := mergedUsers s updated removed
    match refreshNodeUserDelta crates spec now updated removed s.table with
    | (.error _, _) => some s
    | (.ok none, _) => some (refreshUsers crates spec s now users)
    | (.ok (some _), table) =>
      some ⟨users, table, stamp s now updated removed⟩

/-! ## What a row contributes to the table -/

section
variable (now : Int) (user : UserInfo)

/-- The row of the table for a user at a time: none while the user is not active. -/
def tableRow : Except IoError (Option (List UInt8 × AuthenticatedUser)) :=
  if panelUserActive crates.chrono user now then
    match runtimeUser spec.tag user now with
    | .error e => .error e
    | .ok user =>
      match userPsk crates spec user with
      | .error e => .error e
      | .ok psk => .ok (some (psk, authenticatedUserFromRuntime spec user))
  else .ok none

def rowAt : Option (List UInt8 × AuthenticatedUser) :=
  match tableRow crates spec now user with
  | .ok row => row
  | .error _ => none

/-- The key of a user at a time. -/
def keyAt : Option ShadowsocksUserKey :=
  (rowAt crates spec now user).map (ShadowsocksUsers.userKey crates.userHash spec.cipher.keyLen)

/-- The row is one that a build takes. -/
def Mapped : Prop := ∃ row, tableRow crates spec now user = .ok row

end

/-- No two keys of these users have the same identity hash. -/
def NoCollision (users : List UserInfo) : Prop :=
  ∀ a ∈ users, ∀ b ∈ users, ∀ now later ka kb, keyAt crates spec now a = some ka →
    keyAt crates spec later b = some kb → ka.aead2022UserHash = kb.aead2022UserHash →
    ka.key.keyBytes = kb.key.keyBytes

section
variable {crates spec} {now : Int} {user : UserInfo} {users : List UserInfo}
  {e : ShadowsocksUserKey} {table : ShadowsocksUsers}

theorem tableRow_inactive (h : panelUserActive crates.chrono user now = false) :
    tableRow crates spec now user = .ok none := by
  simp [tableRow, h]

section
variable (h : panelUserActive crates.chrono user now = true)
include h

theorem tableRow_active (hrow : tableRow crates spec now user = .ok row) : ∃ psk account, row = some
    (psk, account) := by
  rw [tableRow, if_pos h] at hrow
  split at hrow
  · cases hrow
  split at hrow <;> cases hrow
  exact ⟨_, _, rfl⟩

theorem visit_active (c c') :
    (do visitUser crates spec c (← runtimeUser spec.tag user now)) = .ok c' ↔
      ∃ psk account, tableRow crates spec now user = .ok (some (psk, account)) ∧
        c.seen.get psk = none ∧
        c' = ⟨c.seen.insert psk user.id, c.tableUsers ++ [(psk, account)]⟩ := by
  rw [tableRow, if_pos h]
  rcases hrun : runtimeUser spec.tag user now with _ | run
  · constructor
    · nofun
    rintro ⟨_, _, hrow, -⟩
    cases hrow
  have huid : run.uid = user.id := by
    unfold runtimeUser at hrun
    split at hrun <;> cases hrun
    rfl
  show visitUser crates spec c run = .ok c' ↔ _
  simp only [visitUser]
  rcases hpsk : userPsk crates spec run with _ | psk
  · simp
  cases hseen : c.seen.get psk with
  | some =>
    simp only [hseen, invalid, reduceCtorEq, false_iff]
    rintro ⟨_, _, hrow, hnone, -⟩
    cases hrow
    cases hseen.symm.trans hnone
  | none =>
    simp only [hseen, Except.ok.injEq, Option.some.injEq, Prod.mk.injEq]
    constructor
    · intro hc
      exact ⟨psk, _, ⟨rfl, rfl⟩, hseen, by rw [← huid]; exact hc.symm⟩
    rintro ⟨_, _, ⟨rfl, rfl⟩, -, hc⟩
    rw [hc, huid]

end

theorem seen_insert {c : Collected}
    (hseen : ∀ psk, c.seen.get psk = none ↔ psk ∉ c.tableUsers.map Prod.fst) (psk') :
    (c.seen.insert psk user.id).get psk' = none ↔
      psk' ∉ (c.tableUsers ++ [(psk, account)]).map Prod.fst := by
  rw [Map.get_insert, map_append, mem_append, not_or, ← hseen psk']
  by_cases h : psk' = psk <;> simp [h]

theorem nodup_snoc {rows : List (List UInt8 × AuthenticatedUser)} (h : (rows.map Prod.fst).Nodup)
    (hfresh : psk ∉ rows.map Prod.fst) : ((rows ++ [(psk, account)]).map Prod.fst).Nodup := by
  rw [map_append, nodup_append]
  refine ⟨h, nodup_singleton _, ?_⟩
  intro a ha b hb hab
  obtain rfl : b = psk := by simpa using hb
  exact hfresh (hab ▸ ha)

/-- **The rows that a build collects**: those of the active users, all of them well-formed and no
key twice. -/
theorem forEach_ok_iff (c) (hseen : ∀ psk, c.seen.get psk = none ↔ psk ∉ c.tableUsers.map Prod.fst)
    (hnodup : (c.tableUsers.map Prod.fst).Nodup) (rows) :
    (∃ c', forEachRuntimeUser crates.chrono spec.tag now (visitUser crates spec) c users = .ok c' ∧
        c'.tableUsers = rows) ↔
      (∀ user ∈ users, Mapped crates spec now user) ∧
        rows = c.tableUsers ++ users.filterMap (rowAt crates spec now) ∧
        (rows.map Prod.fst).Nodup := by
  induction users generalizing c with
  | nil =>
    simp only [forEachRuntimeUser, filter_nil, foldlM_nil, filterMap_nil,
      append_nil, not_mem_nil, false_imp_iff, implies_true, true_and]
    constructor
    · rintro ⟨c', hc, rfl⟩
      cases hc
      exact ⟨rfl, hnodup⟩
    rintro ⟨rfl, -⟩
    exact ⟨c, rfl, rfl⟩
  | cons user users ih =>
    have hstep : forEachRuntimeUser crates.chrono spec.tag now (visitUser crates spec) c
        (user :: users) =
        if panelUserActive crates.chrono user now then do
          let c ← (do visitUser crates spec c (← runtimeUser spec.tag user now))
          forEachRuntimeUser crates.chrono spec.tag now (visitUser crates spec) c users
        else forEachRuntimeUser crates.chrono spec.tag now (visitUser crates spec) c users := by
      unfold forEachRuntimeUser
      rw [filter_cons]
      split
      · rw [foldlM_cons]
      · rfl
    rw [hstep]
    rcases hactive : panelUserActive crates.chrono user now with _ | _
    · have hrow : tableRow crates spec now user = .ok none := tableRow_inactive hactive
      simp only [Bool.false_eq_true, if_false, ih c hseen hnodup]
      have hnone : rowAt crates spec now user = none := by simp [rowAt, hrow]
      simp [filterMap_cons_none hnone, Mapped, hrow]
    constructor
    · rintro ⟨c', hc, rfl⟩
      obtain ⟨c₁, hvisit, hrest⟩ := exists_of_bind_ok hc
      obtain ⟨psk, account, hrow, hget, rfl⟩ := (visit_active hactive c c₁).mp hvisit
      have hsome : rowAt crates spec now user = some (psk, account) := by simp [rowAt, hrow]
      obtain ⟨hmapped, hrows, hdistinct⟩ :=
        (ih _ (seen_insert hseen) (nodup_snoc hnodup ((hseen psk).mp hget))).mp ⟨c', hrest, rfl⟩
      rw [append_assoc, singleton_append] at hrows
      rw [filterMap_cons_some hsome]
      refine ⟨?_, hrows, hdistinct⟩
      exact forall_mem_cons.mpr ⟨⟨_, hrow⟩, hmapped⟩
    rintro ⟨hmapped, hrows, hdistinct⟩
    obtain ⟨_, hrow⟩ := hmapped user (mem_cons_self ..)
    obtain ⟨psk, account, rfl⟩ := tableRow_active hactive hrow
    have hsome : rowAt crates spec now user = some (psk, account) := by simp [rowAt, hrow]
    rw [filterMap_cons_some hsome] at hrows
    have hfresh : psk ∉ c.tableUsers.map Prod.fst := by
      rw [hrows, map_append, nodup_append] at hdistinct
      intro hmem
      exact hdistinct.2.2 psk hmem psk (by simp) rfl
    have hvisit := (visit_active hactive c _).mpr
      ⟨psk, account, hrow, (hseen psk).mpr hfresh, rfl⟩
    obtain ⟨c', hrest, htable⟩ := (ih ⟨c.seen.insert psk user.id, _⟩ (seen_insert hseen)
      (nodup_snoc hnodup hfresh)).mpr ⟨(forall_mem_cons.mp hmapped).2,
        by rw [hrows, append_assoc, singleton_append], hdistinct⟩
    refine ⟨c', ?_, htable⟩
    rw [hvisit]
    exact hrest

/-! ## What a build leaves -/

theorem build_ok_iff : buildShadowsocksUsersFromRaw crates spec now users = .ok table ↔
      (∃ serverKey, checkServerKey crates spec = .ok serverKey) ∧
        (∀ user ∈ users, Mapped crates spec now user) ∧
        ((users.filterMap (rowAt crates spec now)).map Prod.fst).Nodup ∧
        table = .ofAead2022 crates.userHash spec.cipher.keyLen
          (users.filterMap (rowAt crates spec now)) := by
  have hloop := @forEach_ok_iff crates spec now users ⟨Map.empty, []⟩
    (by simp [Map.empty, Map.get]) nodup_nil
  unfold buildShadowsocksUsersFromRaw
  rcases hkey : checkServerKey crates spec with _ | _
  · simp
  simp only [Except.ok.injEq, exists_eq', true_and]
  constructor
  · intro h
    split at h <;> cases h
    rename_i collected hcollected
    obtain ⟨hmapped, hrows, hdistinct⟩ := (hloop _).mp ⟨collected, hcollected, rfl⟩
    rw [hrows] at hdistinct ⊢
    exact ⟨hmapped, hdistinct, rfl⟩
  rintro ⟨hmapped, hdistinct, rfl⟩
  obtain ⟨_, hcollected, hrows⟩ := (hloop _).mpr ⟨hmapped, rfl, hdistinct⟩
  rw [hcollected]
  simp only [hrows, nil_append]

theorem keyAt_spec (h : keyAt crates spec now user = some e) :
    e.uid = user.id ∧ panelUserActive crates.chrono user now = true ∧
      e.authenticatedUser.dedicatedIp = dedicatedBinding user now ∧
      e.aead2022UserHash = some (crates.userHash e.key.keyBytes) := by
  obtain ⟨_, hrow, rfl⟩ := Option.map_eq_some_iff.mp h
  unfold rowAt tableRow at hrow
  rcases hactive : panelUserActive crates.chrono user now with _ | _
  · rw [hactive] at hrow
    cases hrow
  rw [hactive] at hrow
  unfold runtimeUser at hrow
  rcases hcredential : user.credential with _ | credential
  · rw [hcredential] at hrow
    cases hrow
  simp only [hcredential, if_true] at hrow
  cases hpsk : userPsk crates spec ⟨user.id, credential, user.secret, user.key,
      user.speedLimit, user.deviceLimit, dedicatedBinding user now⟩ with
  | error =>
    rw [hpsk] at hrow
    cases hrow
  | ok =>
    rw [hpsk] at hrow
    cases hrow
    exact ⟨rfl, rfl, rfl, rfl⟩

theorem keyAt_inactive (h : panelUserActive crates.chrono user now = false) :
    keyAt crates spec now user = none := by
  rw [keyAt, rowAt, tableRow_inactive h]
  rfl

theorem keyAt_active (h : panelUserActive crates.chrono user now = true)
    (hmapped : Mapped crates spec now user) : ∃ e, keyAt crates spec now user = some e := by
  obtain ⟨_, hrow⟩ := hmapped
  obtain ⟨_, _, rfl⟩ := tableRow_active h hrow
  exact ⟨_, by rw [keyAt, rowAt, hrow]; rfl⟩

theorem ofAead2022_keys : (ShadowsocksUsers.ofAead2022 crates.userHash spec.cipher.keyLen
      (users.filterMap (rowAt crates spec now))).keys = users.filterMap (keyAt crates spec now) :=
  map_filterMap

theorem filterMap_rowAt_fst : (users.filterMap (rowAt crates spec now)).map Prod.fst =
      (users.filterMap (keyAt crates spec now)).map fun e => e.key.keyBytes := by
  rw [← ofAead2022_keys]
  simp [ShadowsocksUsers.ofAead2022, ShadowsocksUsers.new, ShadowsocksUsers.userKey,
    map_map, Function.comp_def]

theorem uids_nodup (hids : (users.map UserInfo.id).Nodup) :
    ((users.filterMap (keyAt crates spec now)).map ShadowsocksUserKey.uid).Nodup := by
  refine pairwise_map.mpr ((pairwise_map.mp hids).filterMap _ ?_)
  intro a b hab ka hka kb hkb
  rw [(keyAt_spec hka).1, (keyAt_spec hkb).1]
  exact hab

theorem hashes_nodup (hcollision : NoCollision crates spec users)
    (hkeys : ((users.filterMap (keyAt crates spec now)).map fun e => e.key.keyBytes).Nodup) :
    ((users.filterMap (keyAt crates spec now)).filterMap fun e => e.aead2022UserHash).Nodup := by
  refine (List.Pairwise.imp_of_mem ?_ (pairwise_map.mp hkeys)).filterMap
    (fun e => e.aead2022UserHash) ?_ (R := fun a b => a.aead2022UserHash ≠ b.aead2022UserHash)
  · intro a b ha hb hne heq
    obtain ⟨ua, hua, hka⟩ := mem_filterMap.mp ha
    obtain ⟨ub, hub, hkb⟩ := mem_filterMap.mp hb
    exact hne (hcollision ua hua ub hub now now a b hka hkb heq)
  intro a b hne ha hha hb hhb heq
  exact hne (hha.trans (heq ▸ hhb.symm))

section
variable (h : buildShadowsocksUsersFromRaw crates spec now users = .ok table)
include h

theorem build_indexed (hids : (users.map UserInfo.id).Nodup)
    (hcollision : NoCollision crates spec users) : table.Indexed := by
  obtain ⟨-, -, hdistinct, rfl⟩ := build_ok_iff.mp h
  rw [filterMap_rowAt_fst] at hdistinct
  refine ShadowsocksUsers.new_indexed true ?_ ?_
  · rw [show (users.filterMap (rowAt crates spec now)).map _ = _ from ofAead2022_keys]
    exact hashes_nodup hcollision hdistinct
  rw [show (users.filterMap (rowAt crates spec now)).map _ = _ from ofAead2022_keys]
  exact uids_nodup hids

theorem mem_keys_of_build :
    e ∈ table.keys ↔ ∃ user ∈ users, keyAt crates spec now user = some e := by
  obtain ⟨-, -, -, rfl⟩ := build_ok_iff.mp h
  rw [ofAead2022_keys, mem_filterMap]

end

end

/-! ## What a delta names -/

section
variable {updated users : List UserInfo} {removed : List Nat} {user : UserInfo}

theorem mem_effectiveRows : user ∈ effectiveRows removed seen rows ↔
      user.id ∉ removed ∧ user.id ∉ seen ∧
        rows.find? (fun row => decide (row.id = user.id)) = some user := by
  induction rows generalizing seen with
  | nil => simp [effectiveRows]
  | cons row rows ih =>
    rw [effectiveRows]
    split
    next hskip =>
      rw [ih]
      by_cases hid : row.id = user.id
      · rw [hid] at hskip
        tauto
      · rw [find?_cons_of_neg (by simpa using hid)]
    rename_i hkeep
    obtain ⟨hremoved, hseen⟩ := not_or.mp hkeep
    rw [mem_cons, ih]
    by_cases hid : row.id = user.id
    · rw [find?_cons_of_pos (by simpa using hid), ← hid]
      simp [hremoved, hseen, eq_comm]
    rw [find?_cons_of_neg (by simpa using hid)]
    have hne : user ≠ row := fun heq => hid (by rw [heq])
    simp [hne, Ne.symm hid]

theorem mem_effectiveDeltaUpdates : user ∈ effectiveDeltaUpdates updated removed ↔
      latest UserInfo.id updated user.id = some user ∧ user.id ∉ removed := by
  rw [effectiveDeltaUpdates, mem_reverse, mem_effectiveRows, latest]
  simp [and_comm]

theorem effectiveRows_nodup (seen rows) :
    ((effectiveRows removed seen rows).map UserInfo.id).Nodup := by
  induction rows generalizing seen with
  | nil => exact nodup_nil
  | cons row rows ih =>
    rw [effectiveRows]
    split
    · exact ih seen
    rw [map_cons, nodup_cons]
    refine ⟨?_, ih _⟩
    intro hmem
    obtain ⟨_, hother, hid⟩ := mem_map.mp hmem
    exact (mem_effectiveRows.mp hother).2.1 (by simp [hid])

theorem effectiveDeltaUpdates_nodup :
    ((effectiveDeltaUpdates updated removed).map UserInfo.id).Nodup := by
  rw [effectiveDeltaUpdates, map_reverse, nodup_reverse]
  exact effectiveRows_nodup [] _

theorem mem_effectiveDeltaRemoved {additions id} :
    id ∈ effectiveDeltaRemoved updated removed additions ↔
      id ∈ removed ∨ ∃ user ∈ updated, additions.containsUid user.id = false ∧ user.id = id := by
  rw [effectiveDeltaRemoved, mem_removedIds, mem_append, mem_map]
  simp only [mem_filter, Bool.not_eq_true', and_assoc]

theorem latest_none_iff {id} :
    latest UserInfo.id updated id = none ↔ id ∉ updated.map UserInfo.id := by
  rw [latest_eq_none, mem_map]
  simp

theorem named_iff {id} : Named updated removed id ↔
      id ∈ removed ∨ ∃ user ∈ effectiveDeltaUpdates updated removed, user.id = id := by
  rw [Named]
  by_cases hremoved : id ∈ removed
  · simp [hremoved]
  simp only [hremoved, false_or]
  constructor
  · intro hmem
    rcases hlast : latest UserInfo.id updated id with _ | user
    · exact absurd hmem (latest_none_iff.mp hlast)
    have hid := latest_key hlast
    exact ⟨user, mem_effectiveDeltaUpdates.mpr ⟨by rw [hid, hlast], by rwa [hid]⟩, hid⟩
  rintro ⟨_, huser, rfl⟩
  exact mem_map_of_mem (latest_mem (mem_effectiveDeltaUpdates.mp huser).1)

theorem mem_mergedUsers (hids : (s.users.map UserInfo.id).Nodup) :
    user ∈ mergedUsers s updated removed ↔ user ∈ effectiveDeltaUpdates updated removed ∨
        user ∈ s.users ∧ ¬ Named updated removed user.id := by
  rw [mergedUsers, mergeUserDelta_nodup hids, mem_applyUserDelta (sortIfNeeded_nodup hids),
    mem_sortIfNeeded, mem_effectiveDeltaUpdates, Named, latest_none_iff]
  tauto

theorem mergedUsers_nodup (hids : (s.users.map UserInfo.id).Nodup) :
    ((mergedUsers s updated removed).map UserInfo.id).Nodup := by
  rw [mergedUsers, mergeUserDelta_nodup hids]
  exact (applyUserDelta_sorted (sortIfNeeded_nodup hids) _ _).nodup_keys

end

/-! ## The live table stands for the list -/

/-- The live table has the keys of the listed users, each as of the time its row was looked at. -/
structure Live (s : State) (table : ShadowsocksUsers) : Prop where
  indexed : table.Indexed
  mapped : ∀ user ∈ s.users, Mapped crates spec (s.asOf user.id) user
  keys : ∀ e, e ∈ table.keys ↔ ∃ user ∈ s.users, keyAt crates spec (s.asOf user.id) user = some e

structure Inv (s : State) : Prop where
  ids : (s.users.map UserInfo.id).Nodup
  live : ∀ table, s.table = some table → Live crates spec s table

section
variable {crates spec} {now : Int} {s : State} {table table' : ShadowsocksUsers}
  {updated users : List UserInfo} {removed gone : List Nat}

theorem refreshNodeUserDelta_ok
    (h : refreshNodeUserDelta crates spec now updated removed (some table) = (.ok (some gone), live)) :
    ∃ additions,
      buildShadowsocksUsersFromRaw crates spec now (effectiveDeltaUpdates updated removed) =
        .ok additions ∧
      gone = effectiveDeltaRemoved (effectiveDeltaUpdates updated removed) removed additions ∧
      table.validateAead2022Delta additions gone = .ok () ∧
      live = some (table.applyAead2022DeltaValidated additions gone) := by
  simp only [refreshNodeUserDelta] at h
  split at h
  · cases h
  rename_i additions hadditions
  split at h
  next hvalid =>
    cases h
    exact ⟨additions, hadditions, rfl, hvalid, rfl⟩
  · split at h <;> cases h

theorem refreshNodeUserDelta_table (h : ∀ gone,
    (refreshNodeUserDelta crates spec now updated removed (some table)).1 ≠ .ok (some gone)) :
    (refreshNodeUserDelta crates spec now updated removed (some table)).2 = some table := by
  simp only [refreshNodeUserDelta] at h ⊢
  split
  · rfl
  rename_i additions hadditions
  rw [hadditions] at h
  split
  next hvalid =>
    simp only [hvalid] at h
    exact absurd rfl (h _)
  · split <;> rfl

/-- **The keys after a delta**: those of its rows now, and those of the users it does not name as
they were. -/
theorem delta_keys (hlive : Live crates spec s table)
    (h : refreshNodeUserDelta crates spec now updated removed (some table) =
      (.ok (some gone), some table')) :
    table'.Indexed ∧ (∃ serverKey, checkServerKey crates spec = .ok serverKey) ∧
      (∀ user ∈ effectiveDeltaUpdates updated removed, Mapped crates spec now user) ∧
      ∀ e, e ∈ table'.keys ↔
        (∃ user ∈ effectiveDeltaUpdates updated removed, keyAt crates spec now user = some e) ∨
          ∃ user ∈ s.users, ¬ Named updated removed user.id ∧
            keyAt crates spec (s.asOf user.id) user = some e := by
  obtain ⟨additions, hbuild, rfl, hvalid, htable'⟩ := refreshNodeUserDelta_ok h
  cases htable'
  obtain ⟨hserver, hmapped, -, hadditions⟩ := build_ok_iff.mp hbuild
  obtain ⟨hindexed, hkeys⟩ := ShadowsocksUsers.apply_validated hlive.indexed hvalid
  refine ⟨hindexed, hserver, hmapped, fun e => ?_⟩
  -- a user whom the delta names is replaced or removed
  have hgone : ∀ id, id ∉ additions.keys.map (·.uid) ∧
      id ∉ effectiveDeltaRemoved (effectiveDeltaUpdates updated removed) removed additions ↔
        ¬ Named updated removed id := by
    intro id
    have hcontains : additions.containsUid id = true ↔ id ∈ additions.keys.map (·.uid) := by
      rw [hadditions]
      exact ShadowsocksUsers.containsUid_new true (by
        rw [show (map _ _) = _ from ofAead2022_keys]
        exact uids_nodup effectiveDeltaUpdates_nodup)
    rw [mem_effectiveDeltaRemoved, named_iff]
    constructor
    · rintro ⟨hnotAdded, hnotRemoved⟩ (hremoved | ⟨user, huser, rfl⟩)
      · exact hnotRemoved (.inl hremoved)
      · refine hnotRemoved (.inr ⟨user, huser, ?_, rfl⟩)
        rw [← Bool.not_eq_true, hcontains]
        exact hnotAdded
    intro hnot
    constructor
    · intro hmem
      obtain ⟨e, he, rfl⟩ := mem_map.mp hmem
      obtain ⟨user, huser, hkey⟩ := (mem_keys_of_build hbuild).mp he
      exact hnot (.inr ⟨user, huser, (keyAt_spec hkey).1.symm⟩)
    rintro (hremoved | ⟨user, huser, -, rfl⟩)
    · exact hnot (.inl hremoved)
    · exact hnot (.inr ⟨user, huser, rfl⟩)
  rw [hkeys, mem_keys_of_build hbuild, hgone, hlive.keys]
  refine or_congr_right ⟨?_, ?_⟩
  · rintro ⟨⟨user, huser, hkey⟩, hnot⟩
    rw [(keyAt_spec hkey).1] at hnot
    exact ⟨user, huser, hnot, hkey⟩
  rintro ⟨user, huser, hnot, hkey⟩
  refine ⟨⟨user, huser, hkey⟩, ?_⟩
  rw [(keyAt_spec hkey).1]
  exact hnot

theorem refreshUsers_inv (h : Inv crates spec s) (hids : (users.map UserInfo.id).Nodup)
    (hcollision : NoCollision crates spec users) :
    Inv crates spec (refreshUsers crates spec s now users) := by
  unfold refreshUsers
  split
  · exact h
  rename_i table hbuild
  refine ⟨hids, ?_⟩
  rintro _ ⟨⟩
  obtain ⟨-, hmapped, -, -⟩ := build_ok_iff.mp hbuild
  exact ⟨build_indexed hbuild hids hcollision, hmapped, fun e => mem_keys_of_build hbuild⟩

/-- A row that the delta names has been looked at now. -/
theorem stamp_named {user} (h : user ∈ effectiveDeltaUpdates updated removed) :
    stamp s now updated removed user.id = now := if_pos (named_iff.mpr (.inr ⟨user, h, rfl⟩))

theorem stamp_other {id} (h : ¬ Named updated removed id) :
    stamp s now updated removed id = s.asOf id := if_neg h

theorem delta_inv (h : Inv crates spec s) (htable : s.table = some table)
    (hdelta : refreshNodeUserDelta crates spec now updated removed (some table) =
      (.ok (some gone), live)) :
    Inv crates spec ⟨mergedUsers s updated removed, live, stamp s now updated removed⟩ := by
  refine ⟨mergedUsers_nodup h.ids, ?_⟩
  rintro table' rfl
  obtain ⟨hindexed, -, hmapped, hkeys⟩ := delta_keys (h.live table htable) hdelta
  refine ⟨hindexed, fun user huser => ?_, fun e => ?_⟩
  · show Mapped crates spec (stamp s now updated removed user.id) user
    rcases (mem_mergedUsers h.ids).mp huser with huser | ⟨huser, hnot⟩
    · rw [stamp_named huser]
      exact hmapped user huser
    rw [stamp_other hnot]
    exact (h.live table htable).mapped user huser
  simp only [hkeys, mem_mergedUsers h.ids, or_and_right, exists_or, and_assoc]
  refine or_congr ?_ ?_
  · exact exists_congr fun user => and_congr_right fun huser => by rw [stamp_named huser]
  exact exists_congr fun user => and_congr_right fun _ => and_congr_right fun hnot => by
    rw [stamp_other hnot]

end

/-- What is assumed of a step: a full list has no id twice, and keys that meet have different
hashes. -/
def Plain (s : State) : Event → Prop
  | .full _ users => (users.map UserInfo.id).Nodup ∧ NoCollision crates spec users
  | .delta _ updated _ => NoCollision crates spec (s.users ++ updated)

section
variable {crates spec} {now earlier : Int} {s s' : State} {table table' : ShadowsocksUsers}
  {updated users : List UserInfo} {removed gone : List Nat} {user : UserInfo}

theorem NoCollision.merged (hids : (s.users.map UserInfo.id).Nodup)
    (h : NoCollision crates spec (s.users ++ updated)) :
    NoCollision crates spec (mergedUsers s updated removed) := by
  have hsub : ∀ user ∈ mergedUsers s updated removed, user ∈ s.users ++ updated := by
    intro user huser
    rcases (mem_mergedUsers hids).mp huser with huser | ⟨huser, -⟩
    · exact mem_append_right _ (latest_mem (mem_effectiveDeltaUpdates.mp huser).1)
    · exact mem_append_left _ huser
  intro a ha b hb
  exact h a (hsub a ha) b (hsub b hb)

theorem step_inv (h : Inv crates spec s) (hplain : Plain crates spec s event)
    (hnext : next crates spec s event = some s') : Inv crates spec s' := by
  cases event with
  | full =>
    cases hnext
    exact refreshUsers_inv h hplain.1 hplain.2
  | delta now updated removed =>
    simp only [next] at hnext
    split at hnext <;> cases hnext
    · exact h
    · exact refreshUsers_inv h (mergedUsers_nodup h.ids) (hplain.merged h.ids)
    rename_i gone table hdelta
    rcases htable : s.table with _ | current
    · rw [htable] at hdelta
      cases hdelta
    rw [htable] at hdelta
    exact delta_inv h htable hdelta

theorem new_inv : Inv crates spec State.new where
  ids := nodup_nil
  live := nofun

/-! ## Rows that have not changed by themselves -/

theorem tableRow_eq (hactive : panelUserActive crates.chrono user now =
      panelUserActive crates.chrono user earlier)
    (hbinding : panelUserActive crates.chrono user now = true →
      dedicatedBinding user now = dedicatedBinding user earlier) :
    tableRow crates spec now user = tableRow crates spec earlier user := by
  unfold tableRow
  rw [← hactive]
  split
  next h => rw [runtimeUser, runtimeUser, hbinding h]
  · rfl

end

/-- A row is as active as it was, and with the same dedicated egress. -/
def Unchanged (now earlier : Int) (user : UserInfo) : Prop :=
  panelUserActive crates.chrono user now = panelUserActive crates.chrono user earlier ∧
    (panelUserActive crates.chrono user now = true →
      dedicatedBinding user now = dedicatedBinding user earlier)

section
variable {crates spec} {now earlier : Int} {s : State} {table table' : ShadowsocksUsers}
  {updated users : List UserInfo} {removed gone : List Nat} {user : UserInfo}

theorem unchanged_iff (h : Mapped crates spec earlier user) : Unchanged crates now earlier user ↔
      Mapped crates spec now user ∧ keyAt crates spec now user = keyAt crates spec earlier user :=
    by
  constructor
  · rintro ⟨hactive, hbinding⟩
    refine ⟨?_, ?_⟩
    · rw [Mapped, tableRow_eq hactive hbinding]
      exact h
    · rw [keyAt, keyAt, rowAt, rowAt, tableRow_eq hactive hbinding]
  rintro ⟨hmapped, hkey⟩
  rcases hnow : panelUserActive crates.chrono user now with _ | _
  · refine ⟨?_, fun htrue => absurd (hnow.symm.trans htrue) Bool.false_ne_true⟩
    rw [keyAt_inactive hnow] at hkey
    rcases hearlier : panelUserActive crates.chrono user earlier with _ | _
    · exact hnow
    obtain ⟨e, he⟩ := keyAt_active hearlier h
    rw [he] at hkey
    cases hkey
  obtain ⟨e, he⟩ := keyAt_active hnow hmapped
  obtain ⟨-, -, hbinding, -⟩ := keyAt_spec he
  rw [he] at hkey
  obtain ⟨-, hearlier, hbinding', -⟩ := keyAt_spec hkey.symm
  exact ⟨hnow.trans hearlier.symm, fun _ => hbinding.symm.trans hbinding'⟩

end

/-- A full refresh of these users at this time accepts whom the table accepts. -/
def AcceptsAsRebuilt (now : Int) (users : List UserInfo) (table : ShadowsocksUsers) : Prop :=
  ∃ rebuilt, buildShadowsocksUsersFromRaw crates spec now users = .ok rebuilt ∧
    ∀ userHash, table.findByUserHash userHash = rebuilt.findByUserHash userHash

section
variable {crates spec} {now : Int} {s : State} {table : ShadowsocksUsers}
  (hids : (s.users.map UserInfo.id).Nodup) (hlive : Live crates spec s table)
  (hcollision : NoCollision crates spec s.users)
include hids hlive hcollision

theorem accepts_of_unchanged (hserver : ∃ serverKey, checkServerKey crates spec = .ok serverKey)
    (hunchanged : ∀ user ∈ s.users, Unchanged crates now (s.asOf user.id) user) :
    AcceptsAsRebuilt crates spec now s.users table := by
  have hrow (user) (huser : user ∈ s.users) :=
    (unchanged_iff (hlive.mapped user huser)).mp (hunchanged user huser)
  -- the keys of the rows are still those of the table
  have hmem : ∀ e, e ∈ table.keys ↔ ∃ user ∈ s.users, keyAt crates spec now user = some e := by
    intro e
    rw [hlive.keys]
    exact exists_congr fun user => and_congr_right fun huser => by rw [(hrow user huser).2]
  have hdistinct : (s.users.filterMap (keyAt crates spec now)).Pairwise
      fun a b => a.key.keyBytes ≠ b.key.keyBytes := by
    refine List.Pairwise.imp_of_mem ?_ (pairwise_map.mp (uids_nodup hids))
    intro a b ha hb hne heq
    obtain ⟨ua, hua, hka⟩ := mem_filterMap.mp ha
    obtain ⟨ub, hub, hkb⟩ := mem_filterMap.mp hb
    refine hne (congrArg _ (hlive.indexed.hash.eq_of_key ((hmem a).mpr ⟨ua, hua, hka⟩)
      ((hmem b).mpr ⟨ub, hub, hkb⟩) (keyAt_spec hka).2.2.2 ?_))
    rw [heq]
    exact (keyAt_spec hkb).2.2.2
  have hbuild := build_ok_iff.mpr ⟨hserver, fun user huser => (hrow user huser).1, (by
    rw [filterMap_rowAt_fst]
    exact pairwise_map.mpr hdistinct), rfl⟩
  refine ⟨_, hbuild, ?_⟩
  apply hlive.indexed.find_eq_of_mem_iff (build_indexed hbuild hids hcollision)
  intro e
  rw [hmem, mem_keys_of_build hbuild]

theorem unchanged_of_accepts (haccepts : AcceptsAsRebuilt crates spec now s.users table)
    (huser : user ∈ s.users) : Unchanged crates now (s.asOf user.id) user := by
  obtain ⟨rebuilt, hbuild, hfind⟩ := haccepts
  obtain ⟨-, hmapped, -, -⟩ := build_ok_iff.mp hbuild
  have hrebuilt := build_indexed hbuild hids hcollision
  refine (unchanged_iff (hlive.mapped user huser)).mpr ⟨hmapped user huser, ?_⟩
  -- a key of one table is found in it, so it is one of the other
  apply Option.ext
  intro e
  constructor
  · intro hkey
    obtain ⟨huid, -, -, hhash⟩ := keyAt_spec hkey
    have he := hrebuilt.find_iff.mpr ⟨(mem_keys_of_build hbuild).mpr ⟨user, huser, hkey⟩, hhash⟩
    obtain ⟨_, hother, hkey'⟩ :=
      (hlive.keys e).mp (hlive.indexed.find_iff.mp ((hfind _).trans he)).1
    obtain rfl := inj_on_of_nodup_map hids hother huser ((keyAt_spec hkey').1.symm.trans huid)
    exact hkey'
  intro hkey
  obtain ⟨huid, -, -, hhash⟩ := keyAt_spec hkey
  have he := hlive.indexed.find_iff.mpr ⟨(hlive.keys e).mpr ⟨user, huser, hkey⟩, hhash⟩
  obtain ⟨_, hother, hkey'⟩ :=
    (mem_keys_of_build hbuild).mp (hrebuilt.find_iff.mp ((hfind _).symm.trans he)).1
  obtain rfl := inj_on_of_nodup_map hids hother huser ((keyAt_spec hkey').1.symm.trans huid)
  exact hkey'

end

/-! ## A node with three users -/

instance (now earlier : Int) (user : UserInfo) : Decidable (Unchanged crates now earlier user) :=
  inferInstanceAs (Decidable (_ ∧ _))

/-- Texts that stand for themselves, and keys that are their own hash. -/
def plainCrates : Crates where
  chrono := ⟨fun _ _ => none, fun _ => none, fun _ _ => none, fun _ => none⟩
  base64Encode := fun bytes => bytes
  base64Decode := .ok
  sha256 := fun bytes => bytes
  userHash := fun key => key

def plainSpec : RuntimeNodeSpec := ⟨"node", .blake3Aes128Gcm, some (replicate 16 0)⟩

def plainUser (id : Nat) (expiresAt : Option Int) : UserInfo where
  id := id
  uuid := some (replicate 16 (UInt8.ofNat id))
  secret := none
  password := none
  username := none
  speedLimit := none
  deviceLimit := none
  label := none
  enabled := none
  expiresAt := expiresAt
  expiresOn := none
  dedicatedIp := none

/-- The first of two users is there for a hundred seconds. -/
def plainStart : List Event := [.full 0 [plainUser 1 (some 100), plainUser 2 none]]

theorem plainCrates_noCollision (users) : NoCollision plainCrates plainSpec users := by
  intro a _ b _ now later ka kb hka hkb heq
  rw [(keyAt_spec hka).2.2.2, (keyAt_spec hkb).2.2.2] at heq
  exact Option.some.inj heq

/-- **A delta refresh against a rebuild.** In every state that a run reaches, a delta that is
applied leaves a table that accepts exactly whom a full refresh would accept, unless a row that the
delta does not name has changed since it was last looked at; one that is not applied leaves the
table. -/
theorem delta_refresh_as_rebuilt_iff (events : List Event) (s : State)
    (hplain : Throughout (next crates spec) (Plain crates spec) State.new events)
    (hrun : run (next crates spec) State.new events = some s) (table : ShadowsocksUsers)
    (htable : s.table = some table) (now : Int) (updated : List UserInfo) (removed : List Nat)
    (hcollision : NoCollision crates spec (s.users ++ updated)) :
    (∀ gone table', refreshNodeUserDelta crates spec now updated removed (some table) =
        (.ok (some gone), some table') →
      (AcceptsAsRebuilt crates spec now (mergedUsers s updated removed) table' ↔
        ∀ user ∈ s.users, ¬ Named updated removed user.id →
          Unchanged crates now (s.asOf user.id) user)) ∧
    ((∀ gone, (refreshNodeUserDelta crates spec now updated removed (some table)).1 ≠
        .ok (some gone)) →
      (refreshNodeUserDelta crates spec now updated removed (some table)).2 = some table) := by
  have hinv : Inv crates spec s :=
    run_invariant (fun _ _ _ hok hinv hnext => step_inv hinv hok hnext) events State.new s hplain
      new_inv hrun
  refine ⟨?_, refreshNodeUserDelta_table⟩
  intro gone table' hdelta
  obtain ⟨-, hserver, -, -⟩ := delta_keys (hinv.live table htable) hdelta
  have hafter := delta_inv hinv htable hdelta
  have hlive := hafter.live table' rfl
  constructor
  · intro haccepts user huser hnot
    rw [← stamp_other hnot]
    exact unchanged_of_accepts hafter.ids hlive (hcollision.merged hinv.ids) haccepts
      ((mem_mergedUsers hinv.ids).mpr (.inr ⟨huser, hnot⟩))
  intro hunchanged
  refine accepts_of_unchanged hafter.ids hlive (hcollision.merged hinv.ids) hserver
    fun user huser => ?_
  show Unchanged crates now (stamp s now updated removed user.id) user
  rcases (mem_mergedUsers hinv.ids).mp huser with huser | ⟨huser, hnot⟩
  · rw [stamp_named huser]
    exact ⟨rfl, fun _ => rfl⟩
  rw [stamp_other hnot]
  exact hunchanged user huser hnot

/-- A third user while the first is still there. -/
theorem delta_refresh_as_rebuilt_iff_early :
    ∃ s table gone table', run (next plainCrates plainSpec) State.new plainStart = some s ∧
      s.table = some table ∧
      refreshNodeUserDelta plainCrates plainSpec 50000000000 [plainUser 3 none] [] (some table) =
        (.ok (some gone), some table') ∧
      AcceptsAsRebuilt plainCrates plainSpec 50000000000
        (mergedUsers s [plainUser 3 none] []) table' := by
  refine ⟨_, _, _, _, rfl, rfl, rfl, ?_⟩
  refine ((delta_refresh_as_rebuilt_iff plainCrates plainSpec plainStart _
    ⟨⟨by decide, plainCrates_noCollision _⟩, fun _ _ => trivial⟩ rfl _ rfl 50000000000
    [plainUser 3 none] [] (plainCrates_noCollision _)).1 _ _ rfl).mpr ?_
  decide

/-- A third user after the first has expired: the live table still accepts the first. -/
theorem expired_user_stays_accepted : ∃ s table gone table' rebuilt,
      run (next plainCrates plainSpec) State.new plainStart = some s ∧ s.table = some table ∧
      refreshNodeUserDelta plainCrates plainSpec 200000000000 [plainUser 3 none] [] (some table) =
        (.ok (some gone), some table') ∧
      buildShadowsocksUsersFromRaw plainCrates plainSpec 200000000000
        (mergedUsers s [plainUser 3 none] []) = .ok rebuilt ∧
      (table'.findByUserHash (replicate 16 1)).map (·.uid) = some 1 ∧
      rebuilt.findByUserHash (replicate 16 1) = none ∧
      ¬ AcceptsAsRebuilt plainCrates plainSpec 200000000000
        (mergedUsers s [plainUser 3 none] []) table' := by
  refine ⟨_, _, _, _, _, rfl, rfl, rfl, rfl, rfl, rfl, ?_⟩
  rintro ⟨_, hbuild, hfind⟩
  cases hbuild
  exact absurd (hfind (replicate 16 1)) (by decide)

end Shoes.V2board.UserRefresh
