import Shoes.Lib.SortedTable

/-! # Merging a delta into the user list

The controller merges a change of the user list in one of two ways, row by row or all at once; the
journal replays it row by row. On a list without double ids all of them leave the same list. -/
namespace Shoes.V2board.UserDelta
open Lib.SortedTable List

section
variable {U : Type} [DecidableEq U] (uid : U → Nat)

/-- `users.windows(2).any(|pair| pair[0].id > pair[1].id)`. -/
def outOfOrder : List U → Bool
  | a :: b :: rest => decide (uid a > uid b) || outOfOrder (b :: rest)
  | _ => false

def sortIfNeeded (users : List U) : List U :=
  if outOfOrder uid users then sortByKey uid users else users

/-! ## Row by row -/

/-- `apply_user_delta` of the journal. -/
def applyUserDelta (users updated : List U) (removed : List Nat) : List U :=
  removed.foldl (erase uid) (updated.foldl (upsert uid) users)

def inPlaceChangeLimit : Nat := 32

/-- An update in place, and whether it changes anything. -/
def updateInPlace (state : List U × Bool) (user : U) : List U × Bool :=
  match binarySearchByKey uid state.1 (uid user) with
  | .ok i => if state.1[i]? ≠ some user then (state.1.set i user, true) else state
  | .error i => (state.1.insertIdx i user, true)

def removeInPlace (state : List U × Bool) (id : Nat) : List U × Bool :=
  match binarySearchByKey uid state.1 id with
  | .ok i => (state.1.eraseIdx i, true)
  | .error _ => state

def mergeInPlace (users updates : List U) (removed : List Nat) : List U × Bool :=
  removed.foldl (removeInPlace uid) (updates.foldl (updateInPlace uid) (users, false))

/-! ## All at once -/

def isOk {ε β : Type} : Except ε β → Bool
  | .ok _ => true
  | .error _ => false

/-- Whether the list differs after the batch, found out before it is touched. -/
def batchChanges (users updates : List U) (removed : List Nat) : Bool :=
  (updates.any fun user =>
    let removedByDelta := isOk (binarySearchByKey (fun id => id) removed (uid user))
    match binarySearchByKey uid users (uid user) with
    | .ok i => removedByDelta || decide (users[i]? ≠ some user)
    | .error _ => !removedByDelta) ||
  removed.any fun id => isOk (binarySearchByKey uid users id)

/-- `retain`, with what is left of the updates and of the removals at each row. -/
def retainRows : List U → List Nat → List U → List U
  | _, _, [] => []
  | updates, removed, existing :: rest =>
    let updates := updates.dropWhile fun user => decide (uid user < uid existing)
    let removed := removed.dropWhile fun id => decide (id < uid existing)
    let updated := updates.head?.any fun user => decide (uid user = uid existing)
    let deleted := removed.head?.any fun id => decide (id = uid existing)
    if updated || deleted then retainRows updates removed rest
    else existing :: retainRows updates removed rest

/-- The updates that are pushed behind the retained rows. -/
def pushedRows : List Nat → List U → List U
  | _, [] => []
  | removed, user :: rest =>
    let removed := removed.dropWhile fun id => decide (id < uid user)
    if removed.head?.any fun id => decide (id = uid user) then pushedRows removed rest
    else user :: pushedRows removed rest

def mergeBatch (users updates : List U) (removed : List Nat) : List U × Bool :=
  let updates := dedupLast uid (sortByKey uid updates)
  let removed := dedupLast (fun id => id) (sortByKey (fun id => id) removed)
  let changed := batchChanges uid users updates removed
  let retained := retainRows uid updates removed users
  let pushed := pushedRows uid removed updates
  (if pushed.isEmpty then retained else sortByKey uid (retained ++ pushed), changed)

def mergeUserDelta (users updates : List U) (removed : List Nat) : List U × Bool :=
  let users := sortIfNeeded uid users
  if updates.length + removed.length ≤ inPlaceChangeLimit then mergeInPlace uid users updates removed
  else mergeBatch uid users updates removed

/-- The full list in the order of the ids, and whether it differs from the current one. -/
def prepareFullUserList (current : Option (List U)) (users : List U) : List U × Bool :=
  let users := sortByKey uid users
  (users, decide (current ≠ some users))

/-! ## The users with a device limit -/

variable (deviceLimit : U → Option Nat)

def isDeviceLimited (user : U) : Bool := decide ((deviceLimit user).getD 0 > 0)

def countDeviceLimitedUsers (users : List U) : Nat := users.countP (isDeviceLimited deviceLimit)

/-- Whether the row of an id is limited before the delta, and after it. -/
def limitedBefore (limited : U → Bool) (users : List U) (id : Nat) : Bool :=
  match binarySearchByKey uid users id with
  | .ok i => users[i]?.any limited
  | .error _ => false

def limitedAfter (limited : U → Bool) (updates : List U) (removed : List Nat) (id : Nat) : Bool :=
  decide (id ∉ removed) && (latest uid updates id).any limited

def recount (before after : Nat → Bool) (count id : Nat) : Nat :=
  match before id, after id with
  | true, false => count - 1
  | false, true => count + 1
  | _, _ => count

/-- The affected ids come in the order of a hash set. -/
def deviceLimitCountAfterDelta (affected : List Nat) (currentCount : Nat) (users updates : List U)
    (removed : List Nat) : Nat :=
  affected.foldl (recount (limitedBefore uid (isDeviceLimited deviceLimit) users)
    (limitedAfter uid (isDeviceLimited deviceLimit) updates removed)) currentCount

end

/-! ## What each of them leaves -/

variable {U : Type} {uid : U → Nat} {users updates : List U} {removed : List Nat} {b : U}

section
variable (h : Sorted uid users)
include h

theorem outOfOrder_sorted : outOfOrder uid users = false := by
  induction users with
  | nil => rfl
  | cons a rest ih =>
    obtain ⟨ha, hrest⟩ := sorted_cons.mp h
    rcases rest with _ | ⟨c, _⟩
    · rfl
    have := ha c (mem_cons_self ..)
    rw [outOfOrder, ih hrest, Bool.or_false, decide_eq_false_iff_not]
    omega

theorem sortIfNeeded_sorted : sortIfNeeded uid users = users := by
  rw [sortIfNeeded, outOfOrder_sorted h]
  rfl

theorem applyUserDelta_sorted (updates removed) :
    Sorted uid (applyUserDelta uid users updates removed) :=
  (h.foldl_upsert updates).foldl_erase removed

theorem mem_applyUserDelta : b ∈ applyUserDelta uid users updates removed ↔
      (latest uid updates (uid b) = some b ∨ latest uid updates (uid b) = none ∧ b ∈ users) ∧
        uid b ∉ removed := by
  rw [applyUserDelta, mem_foldl_erase (h.foldl_upsert updates), mem_foldl_upsert h]

end

theorem removeInPlace_fst (state id) : (removeInPlace uid state id).1 = erase uid state.1 id := by
  unfold removeInPlace erase
  cases binarySearchByKey uid state.1 id <;> rfl

theorem removeInPlace_unchanged {state id}
    (h : (removeInPlace uid state id).2 = false) : removeInPlace uid state id = state := by
  unfold removeInPlace at h ⊢
  split
  next i hsearch => simp [hsearch] at h
  · rfl

theorem foldl_unchanged {β : Type} {f : List U × Bool → β → List U × Bool}
    (hf : ∀ state x, (f state x).2 = false → f state x = state) (xs : List β)
    {state : List U × Bool} (h : (xs.foldl f state).2 = false) : xs.foldl f state = state := by
  induction xs generalizing state with
  | nil => rfl
  | cons x xs ih =>
    rw [foldl_cons] at h ⊢
    have hrest := ih h
    rw [hrest] at h ⊢
    exact hf state x h

theorem mem_retainRows (hu : Sorted uid updates) (hr : Sorted (fun id => id) removed)
    (h : Sorted uid users) : b ∈ retainRows uid updates removed users ↔
      b ∈ users ∧ (∀ user ∈ updates, uid user ≠ uid b) ∧ uid b ∉ removed := by
  induction users generalizing updates removed with
  | nil => simp [retainRows]
  | cons existing rest ih =>
    obtain ⟨habove, hrest⟩ := sorted_cons.mp h
    have hupdated := head_any_iff (k := uid existing) hu
    have hdeleted := head_any_iff (k := uid existing) hr
    have hmemu := fun a => mem_dropWhile_lt (a := a) (k := uid existing) hu
    have hmemr := fun a => mem_dropWhile_lt (a := a) (k := uid existing) hr
    have ih := ih (hu.dropWhile fun user => decide (uid user < uid existing))
      (hr.dropWhile fun id => decide (id < uid existing)) hrest
    -- a later row looks for a larger id, so nothing that was passed is missed
    have hlater : b ∈ rest →
        (((∀ user ∈ updates.dropWhile fun user => decide (uid user < uid existing),
            uid user ≠ uid b) ∧
          uid b ∉ removed.dropWhile fun id => decide (id < uid existing)) ↔
        (∀ user ∈ updates, uid user ≠ uid b) ∧ uid b ∉ removed) := by
      intro hb
      have hlt := habove b hb
      simp only [hmemu, hmemr]
      constructor
      · rintro ⟨hall, hnot⟩
        refine ⟨?_, fun hmem => hnot ⟨hmem, by omega⟩⟩
        intro user huser heq
        exact hall user ⟨huser, by omega⟩ heq
      rintro ⟨hall, hnot⟩
      exact ⟨fun user huser => hall user huser.1, fun hmem => hnot hmem.1⟩
    unfold retainRows
    dsimp only
    split
    next hhit =>
      rw [ih, mem_cons]
      rw [Bool.or_eq_true, hupdated, hdeleted] at hhit
      constructor
      · rintro ⟨hb, hfree⟩
        exact ⟨.inr hb, (hlater hb).mp hfree⟩
      rintro ⟨rfl | hb, hfree⟩
      · rcases hhit with ⟨user, huser, heq⟩ | ⟨_, hid, heq⟩
        · exact absurd heq (hfree.1 user huser)
        · exact absurd (heq ▸ hid) hfree.2
      · exact ⟨hb, (hlater hb).mpr hfree⟩
    rename_i hmiss
    rw [Bool.or_eq_true, hupdated, hdeleted] at hmiss
    rw [mem_cons, mem_cons, ih]
    constructor
    · rintro (rfl | ⟨hb, hfree⟩)
      · refine ⟨.inl rfl, fun user huser heq => hmiss (.inl ⟨user, huser, heq⟩), ?_⟩
        exact fun hmem => hmiss (.inr ⟨uid b, hmem, rfl⟩)
      · exact ⟨.inr hb, (hlater hb).mp hfree⟩
    rintro ⟨rfl | hb, hfree⟩
    · exact .inl rfl
    · exact .inr ⟨hb, (hlater hb).mpr hfree⟩

theorem retainRows_sublist (uid : U → Nat) (updates : List U) (removed : List Nat) (users : List U)
    : (retainRows uid updates removed users).Sublist users := by
  induction users generalizing updates removed with
  | nil => exact List.Sublist.slnil
  | cons existing rest ih =>
    unfold retainRows
    dsimp only
    split
    · exact (ih _ _).cons existing
    · exact (ih _ _).cons_cons existing

theorem pushedRows_eq (hr : Sorted (fun id => id) removed) (hu : Sorted uid updates) :
    pushedRows uid removed updates = updates.filter fun user => decide (uid user ∉ removed) := by
  induction updates generalizing removed with
  | nil => rfl
  | cons user rest ih =>
    obtain ⟨habove, hrest⟩ := sorted_cons.mp hu
    have hdeleted := head_any_iff (k := uid user) hr
    have ih := ih (hr.dropWhile fun id => decide (id < uid user)) hrest
    have hrest' : (rest.filter fun u => decide (uid u ∉
        removed.dropWhile fun id => decide (id < uid user))) =
        rest.filter fun u => decide (uid u ∉ removed) := by
      refine filter_congr ?_
      intro u hmem
      have hlt := habove u hmem
      have := mem_dropWhile_lt (a := uid u) (k := uid user) hr
      rw [decide_eq_decide, this]
      constructor
      · exact fun h hmem => h ⟨hmem, by omega⟩
      · exact fun h hmem => h hmem.1
    have hhit : (∃ id ∈ removed, id = uid user) ↔ uid user ∈ removed := by simp
    unfold pushedRows
    dsimp only
    rw [ih, hrest']
    split
    next h =>
      rw [filter_cons_of_neg]
      simpa using hhit.mp (hdeleted.mp h)
    rename_i h
    rw [filter_cons_of_pos]
    simpa using fun hmem => h (hdeleted.mpr (hhit.mpr hmem))

theorem mem_latestRows :
    b ∈ dedupLast uid (sortByKey uid updates) ↔ latest uid updates (uid b) = some b := by
  rw [mem_dedupLast (sortByKey_pairwise updates), latest_sortByKey]

theorem latestRows_sorted : Sorted uid (dedupLast uid (sortByKey uid updates)) :=
  dedupLast_sorted (sortByKey_pairwise updates)

theorem latestRows_none : (∀ user ∈ dedupLast uid (sortByKey uid updates), uid user ≠ k) ↔
      latest uid updates k = none := by
  constructor
  · intro h
    rcases hlast : latest uid updates k with _ | c
    · rfl
    have hkey := latest_key hlast
    exact absurd hkey (h c (mem_latestRows.mpr (by rw [hkey, hlast])))
  intro h user huser
  exact latest_eq_none.mp h user (latest_mem (mem_latestRows.mp huser))

theorem pairwise_of_outOfOrder (h : outOfOrder uid users = false) :
    users.Pairwise fun a b => uid a ≤ uid b := by
  induction users with
  | nil => exact List.Pairwise.nil
  | cons a rest ih =>
    rcases rest with _ | ⟨_, _⟩
    · exact pairwise_singleton _ a
    simp only [outOfOrder, Bool.or_eq_false_iff, decide_eq_false_iff_not, Nat.not_lt] at h
    obtain ⟨hab, hrest⟩ := h
    have hpairwise := ih hrest
    refine pairwise_cons.mpr ⟨?_, hpairwise⟩
    intro c hc
    rcases mem_cons.mp hc with rfl | hc
    · exact hab
    · exact hab.trans ((pairwise_cons.mp hpairwise).1 c hc)

theorem sortIfNeeded_nodup (h : (users.map uid).Nodup) : Sorted uid (sortIfNeeded uid users) := by
  unfold sortIfNeeded
  split
  · exact sortByKey_sorted h
  next hinOrder =>
    exact sorted_of_nodup_keys (pairwise_of_outOfOrder (Bool.not_eq_true _ ▸ hinOrder)) h

theorem mem_sortIfNeeded : b ∈ sortIfNeeded uid users ↔ b ∈ users := by
  unfold sortIfNeeded
  split
  · exact (perm_insertionSort _ users).mem_iff
  · rfl

/-! ### Counting again -/

theorem foldl_recount (before after) (ids : List Nat) (k) :
    ids.foldl (recount before after) (ids.countP before + k) = ids.countP after + k := by
  induction ids generalizing k with
  | nil => rfl
  | cons id ids ih =>
    have hmore := ih (k + 1)
    rw [← Nat.add_assoc, ← Nat.add_assoc] at hmore
    rw [foldl_cons, countP_cons, countP_cons, recount]
    cases before id <;> cases after id <;> simp [ih, hmore, Nat.add_right_comm _ 1]

section
variable {limited : U → Bool} {affected kept : List Nat} (h : Sorted uid users)
include h

theorem limitedBefore_iff {id} : limitedBefore uid limited users id = true ↔
    id ∈ (users.filter limited).map uid := by
  unfold limitedBefore
  rcases hsearch : binarySearchByKey uid users id with _ | _
  · simp +contextual [binarySearchByKey_error h hsearch]
  obtain ⟨user, hi, rfl⟩ := binarySearchByKey_ok h hsearch
  have huser := mem_of_getElem? hi
  simp only [hi, Option.any_some, mem_map, mem_filter]
  constructor
  · exact fun hlimited => ⟨user, ⟨huser, hlimited⟩, rfl⟩
  rintro ⟨user', ⟨huser', hlimited⟩, hid⟩
  rwa [← h.key_injective huser' huser hid]

/-- The limited rows by their ids. -/
theorem countP_limited {p} (hkept : (kept ++ affected).Nodup)
    (hids : ∀ id, id ∈ (users.filter limited).map uid ↔ id ∈ kept ∨ id ∈ affected ∧ p id = true) :
    users.countP limited = affected.countP p + kept.length := by
  rw [countP_eq_length_filter, ← length_map uid, countP_eq_length_filter, Nat.add_comm,
    ← length_append]
  refine ((perm_ext_iff_of_nodup (h.nodup_keys.sublist (filter_sublist.map _))
    (hkept.sublist (filter_sublist.append_left _))).mpr fun id => ?_).length_eq
  rw [hids, mem_append, mem_filter]

/-- **The count is that of the list**, in whatever order the ids come. -/
theorem recount_eq (haffected : affected.Nodup)
    (hnamed : ∀ id, id ∈ affected ↔ id ∈ removed ∨ latest uid updates id ≠ none) :
    affected.foldl (recount (limitedBefore uid limited users)
        (limitedAfter uid limited updates removed)) (users.countP limited) =
      (applyUserDelta uid users updates removed).countP limited := by
  -- the ids that the delta names, and those of the other rows
  have hkept : (((users.filter limited).map uid).filter (· ∉ affected) ++ affected).Nodup :=
    ((h.nodup_keys.sublist (filter_sublist.map _)).filter _).append haffected
      fun id hother hid => by simp [hid] at hother
  rw [countP_limited h hkept, foldl_recount, countP_limited (applyUserDelta_sorted h ..) hkept]
  · intro id
    simp only [limitedAfter, mem_map, mem_filter, mem_applyUserDelta h, Bool.and_eq_true,
      decide_eq_true_eq, Option.any_eq_true, hnamed, not_or, not_not]
    constructor
    · rintro ⟨user, ⟨⟨hlast | ⟨hlast, huser⟩, hkeep⟩, hlimited⟩, rfl⟩
      · exact .inr ⟨.inr (by simp [hlast]), hkeep, user, hlast, hlimited⟩
      · exact .inl ⟨⟨user, ⟨huser, hlimited⟩, rfl⟩, hkeep, hlast⟩
    rintro (⟨⟨user, ⟨huser, hlimited⟩, rfl⟩, hkeep, hlast⟩ | ⟨-, hkeep, user, hlast, hlimited⟩)
    · exact ⟨user, ⟨⟨.inr ⟨hlast, huser⟩, hkeep⟩, hlimited⟩, rfl⟩
    obtain rfl := latest_key hlast
    exact ⟨user, ⟨⟨.inl hlast, hkeep⟩, hlimited⟩, rfl⟩
  intro id
  rw [limitedBefore_iff h, mem_filter, decide_eq_true_eq]
  tauto

end

variable [DecidableEq U]

theorem updateInPlace_fst (state user) :
    (updateInPlace uid state user).1 = upsert uid state.1 user := by
  unfold updateInPlace upsert
  rcases binarySearchByKey uid state.1 (uid user) with _ | _
  · rfl
  dsimp only
  split
  · rfl
  rename_i hsame
  obtain ⟨_, hget⟩ := List.getElem?_eq_some_iff.mp (not_not.mp hsame)
  rw [← hget, set_getElem_self]

/-- **Merging in place is replaying.** -/
theorem mergeInPlace_fst (users updates removed) :
    (mergeInPlace uid users updates removed).1 = applyUserDelta uid users updates removed := by
  rw [mergeInPlace, ← foldl_hom Prod.fst fun state id => (removeInPlace_fst state id).symm,
    ← foldl_hom Prod.fst fun state user => (updateInPlace_fst state user).symm]
  rfl

theorem updateInPlace_unchanged (h : (updateInPlace uid state user).2 = false) :
    updateInPlace uid state user = state := by
  unfold updateInPlace at h ⊢
  split
  next i hsearch =>
    simp only [hsearch] at h
    split
    next hne => simp [hne] at h
    · rfl
  next i hsearch => simp [hsearch] at h

theorem mergeInPlace_unchanged (h : (mergeInPlace uid users updates removed).2 = false) :
    (mergeInPlace uid users updates removed).1 = users := by
  have hremove := foldl_unchanged (fun state id => removeInPlace_unchanged) removed h
  rw [mergeInPlace] at h ⊢
  rw [hremove] at h ⊢
  rw [foldl_unchanged (fun state user => updateInPlace_unchanged) updates h]

theorem mem_removedIds :
    k ∈ dedupLast (fun id => id) (sortByKey (fun id => id) removed) ↔ k ∈ removed := by
  rw [mem_latestRows]
  constructor
  · exact latest_mem
  intro h
  cases hlast : latest (fun id => id) removed k with
  | none => exact absurd rfl (latest_eq_none.mp hlast k h)
  | some => rw [← latest_key hlast]

section
variable (h : Sorted uid users)
include h

/-- **The batch leaves the rows that replaying leaves.** -/
theorem mergeBatch_fst (updates : List U) (removed : List Nat) :
    (mergeBatch uid users updates removed).1 = applyUserDelta uid users updates removed := by
  have hu : Sorted uid (dedupLast uid (sortByKey uid updates)) := latestRows_sorted
  have hr : Sorted (fun id => id) (dedupLast (fun id => id) (sortByKey (fun id => id) removed)) :=
    latestRows_sorted
  have hlatest (b : U) : _ ↔ latest uid updates (uid b) = some b := mem_latestRows
  have hnone (k : Nat) : _ ↔ latest uid updates k = none := latestRows_none
  have hids (k : Nat) : _ ↔ k ∈ removed := mem_removedIds
  unfold mergeBatch
  dsimp only
  generalize dedupLast uid (sortByKey uid updates) = us at hu hlatest hnone ⊢
  generalize dedupLast _ (sortByKey _ removed) = ids at hr hids ⊢
  have hretained := fun b : U => mem_retainRows (b := b) hu hr h
  have hretainedSorted : Sorted uid _ := h.sublist (retainRows_sublist uid us ids users)
  have hpushed (b : U) : b ∈ pushedRows uid ids us ↔
      latest uid updates (uid b) = some b ∧ uid b ∉ removed := by
    rw [pushedRows_eq hr hu, mem_filter, hlatest, decide_eq_true_eq, hids]
  have hpushedSorted : Sorted uid (pushedRows uid ids us) := by
    rw [pushedRows_eq hr hu]
    exact hu.sublist filter_sublist
  simp only [hnone, hids] at hretained
  generalize pushedRows uid ids us = pushed at hpushed hpushedSorted ⊢
  generalize retainRows uid us ids users = retained at hretained hretainedSorted ⊢
  -- retained and pushed rows have different ids, since a retained row was not updated
  have hnodup : ((retained ++ pushed).map uid).Nodup := by
    rw [map_append, nodup_append]
    refine ⟨hretainedSorted.nodup_keys, hpushedSorted.nodup_keys, ?_⟩
    intro i hi j hj heq
    obtain ⟨a, ha, rfl⟩ := mem_map.mp hi
    obtain ⟨c, hc, rfl⟩ := mem_map.mp hj
    have hnone := ((hretained a).mp ha).2.1
    have hsome := ((hpushed c).mp hc).1
    rw [heq, hsome] at hnone
    cases hnone
  have hmem (b : U) : b ∈ retained ++ pushed ↔ b ∈ applyUserDelta uid users updates removed := by
    rw [mem_append, hretained, hpushed, mem_applyUserDelta h]
    tauto
  have hsorted := applyUserDelta_sorted h updates removed
  split
  next hempty =>
    simp only [isEmpty_iff.mp hempty, append_nil] at hmem
    exact hretainedSorted.eq_of_mem_iff hsorted hmem
  · exact (sortByKey_sorted hnodup).eq_of_mem_iff hsorted fun b => mem_sortByKey.trans (hmem b)

theorem mergeBatch_unchanged (hchanged : (mergeBatch uid users updates removed).2 = false) :
    (mergeBatch uid users updates removed).1 = users := by
  have hremoved : Sorted (fun id => id)
      (dedupLast (fun id => id) (sortByKey (fun id => id) removed)) := latestRows_sorted
  simp only [mergeBatch, batchChanges, Bool.or_eq_false_iff, any_eq_false] at hchanged
  obtain ⟨hupdates, hremovals⟩ := hchanged
  -- no removed id is there, and each update is there already or is removed at once
  have hgone : ∀ b ∈ users, uid b ∉ removed := by
    intro b hb hmem
    have hnot := hremovals (uid b) (mem_removedIds.mpr hmem)
    cases hsearch : binarySearchByKey uid users (uid b) with
    | error => exact binarySearchByKey_error h hsearch b hb rfl
    | ok => simp [hsearch, isOk] at hnot
  have hthere : ∀ c, latest uid updates (uid c) = some c → c ∈ users ∨ uid c ∈ removed := by
    intro c hc
    have hnot := hupdates c (mem_latestRows.mpr hc)
    cases hsearch : binarySearchByKey uid users (uid c) with
    | ok =>
      simp only [hsearch, Bool.or_eq_true, decide_eq_true_eq, not_or, not_not] at hnot
      exact .inl (mem_of_getElem? hnot.2)
    | error =>
      simp only [hsearch, Bool.not_eq_true', Bool.not_eq_false] at hnot
      right
      cases hsearch' : binarySearchByKey (fun id => id)
          (dedupLast (fun id => id) (sortByKey (fun id => id) removed)) (uid c) with
      | error => simp [hsearch', isOk] at hnot
      | ok =>
        obtain ⟨_, hid, heq⟩ := binarySearchByKey_ok hremoved hsearch'
        exact mem_removedIds.mp (heq ▸ mem_of_getElem? hid)
  rw [mergeBatch_fst h]
  refine (applyUserDelta_sorted h updates removed).eq_of_mem_iff h ?_
  intro b
  rw [mem_applyUserDelta h]
  constructor
  · rintro ⟨hlast | ⟨-, hb⟩, hkeep⟩
    · exact (hthere b hlast).resolve_right hkeep
    · exact hb
  intro hb
  refine ⟨?_, hgone b hb⟩
  rcases hlast : latest uid updates (uid b) with _ | c
  · exact .inr ⟨rfl, hb⟩
  have hkey := latest_key hlast
  rcases hthere c (by rw [hkey, hlast]) with hc | hc
  · exact .inl (by rw [h.key_injective hc hb hkey])
  · exact absurd (hkey ▸ hc) (hgone b hb)

/-- **Merging a delta is replaying it**, on a list in order without double ids. -/
theorem mergeUserDelta_fst (updates removed) :
    (mergeUserDelta uid users updates removed).1 = applyUserDelta uid users updates removed := by
  unfold mergeUserDelta
  rw [sortIfNeeded_sorted h]
  split
  · exact mergeInPlace_fst users updates removed
  · exact mergeBatch_fst h updates removed

/-- **A delta that is reported as no change leaves the list as it is.** -/
theorem mergeUserDelta_unchanged (hchanged : (mergeUserDelta uid users updates removed).2 = false) :
    (mergeUserDelta uid users updates removed).1 = users := by
  unfold mergeUserDelta at hchanged ⊢
  rw [sortIfNeeded_sorted h] at hchanged ⊢
  split at hchanged
  next hsmall =>
    rw [if_pos hsmall]
    exact mergeInPlace_unchanged hchanged
  rename_i hlarge
  rw [if_neg hlarge]
  exact mergeBatch_unchanged h hchanged

end

theorem mergeUserDelta_nodup (h : (users.map uid).Nodup) (updates removed) :
    (mergeUserDelta uid users updates removed).1 =
      applyUserDelta uid (sortIfNeeded uid users) updates removed := by
  have hsorted := sortIfNeeded_nodup h
  rw [← mergeUserDelta_fst hsorted, mergeUserDelta, mergeUserDelta, sortIfNeeded_sorted hsorted]

/-- **All ways to take a delta in agree**: they leave a sorted list with the last update of each id
that is not removed. No change is reported only where there is none, and the users with a device
limit are counted right. -/
theorem user_deltas_agree (uid : U → Nat) (deviceLimit : U → Option Nat) (users updates : List U)
    (removed affected : List Nat) (hids : (users.map uid).Nodup) (haffected : affected.Nodup)
    (hnamed : ∀ id, id ∈ affected ↔ id ∈ removed ∨ latest uid updates id ≠ none) :
    let base := sortIfNeeded uid users
    let merged := mergeUserDelta uid users updates removed
    (Sorted uid base ∧ ∀ user, user ∈ base ↔ user ∈ users) ∧
    (mergeInPlace uid base updates removed).1 = merged.1 ∧
    (mergeBatch uid base updates removed).1 = merged.1 ∧
    applyUserDelta uid base updates removed = merged.1 ∧
    (Sorted uid merged.1 ∧ ∀ user, user ∈ merged.1 ↔ (latest uid updates (uid user) = some user ∨
      latest uid updates (uid user) = none ∧ user ∈ users) ∧ uid user ∉ removed) ∧
    (merged.2 = false → merged.1 = base) ∧
    deviceLimitCountAfterDelta uid deviceLimit affected (countDeviceLimitedUsers deviceLimit base)
      base updates removed = countDeviceLimitedUsers deviceLimit merged.1 := by
  intro base merged
  have hbase : Sorted uid base := sortIfNeeded_nodup hids
  have hmerged : applyUserDelta uid base updates removed = merged.1 :=
    (mergeUserDelta_nodup hids updates removed).symm
  have hsame : merged = mergeUserDelta uid base updates removed := by
    simp only [merged, mergeUserDelta, base, sortIfNeeded_sorted hbase]
  refine ⟨⟨hbase, fun _ => mem_sortIfNeeded⟩, (mergeInPlace_fst ..).trans hmerged,
    (mergeBatch_fst hbase ..).trans hmerged, hmerged, ?_, ?_, ?_⟩
  · rw [← hmerged]
    refine ⟨applyUserDelta_sorted hbase .., fun user => ?_⟩
    rw [mem_applyUserDelta hbase, mem_sortIfNeeded]
  · rw [hsame]
    exact mergeUserDelta_unchanged hbase
  rw [← hmerged]
  exact recount_eq hbase haffected hnamed

/-- One of two users is updated twice, and the other is removed. -/
theorem user_deltas_agree_rows :
    deviceLimitCountAfterDelta Prod.fst Prod.snd [2, 1] 1 [(1, some 2), (2, none)]
      [(2, none), (2, some 4)] [1] = countDeviceLimitedUsers Prod.snd [(2, some 4)] :=
  (user_deltas_agree Prod.fst Prod.snd [(2, none), (1, some 2)] [(2, none), (2, some 4)] [1] [2, 1]
    (by decide) (by decide) fun id => by
      rw [ne_eq, latest_eq_none]
      simp [or_comm, eq_comm]).2.2.2.2.2.2

end Shoes.V2board.UserDelta
