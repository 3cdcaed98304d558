import Shoes.Lib.Assoc

/-! # A list with an index

A list of entries and a map from the key of an entry to its place. An entry may have no key, and a
list may have several indexes, each under a key of its own. Removal fills the gap with the last
entry, so one other place changes. -/
namespace Shoes.Lib.IndexedList
open Assoc List Option

variable {E K : Type} [DecidableEq K]

/-- `Vec::swap_remove`, for a place inside the list. -/
def swapRemove (xs : List E) (i : Nat) : List E :=
  match xs.getLast? with
  | none => []
  | some last => xs.dropLast.set i last

/-- The index has exactly the places of the entries with a key. -/
def Indexes (key : E → Option K) (xs : List E) (m : Map K Nat) : Prop :=
  ∀ k i, m.get k = some i ↔ ∃ e, xs[i]? = some e ∧ key e = some k

/-- The entry of a key. -/
def find (xs : List E) (m : Map K Nat) (k : K) : Option E := (m.get k).bind fun i => xs[i]?

def indexAt (m : Map K Nat) (k : Option K) (i : Nat) : Map K Nat :=
  match k with
  | none => m
  | some k => m.insert k i

def unindex (m : Map K Nat) (k : Option K) : Map K Nat :=
  match k with
  | none => m
  | some k => m.remove k

/-- The pairs of keys and places collected into a map; of a key that comes twice the last place
stays. -/
def collectIndex (key : E → Option K) : Nat → Map K Nat → List E → Map K Nat
  | _, m, [] => m
  | i, m, e :: rest => collectIndex key (i + 1) (indexAt m (key e) i) rest

section
variable {key : E → Option K} {xs : List E} {m : Map K Nat} {e e' : E} {k : K} {i : Nat}

theorem indexes_nil (key : E → Option K) : Indexes key [] Map.empty := by
  intro k i
  constructor
  · nofun
  rintro ⟨e, he, -⟩
  cases he

theorem get_indexAt (m : Map K Nat) (k' i k) :
    (indexAt m k' i).get k = if k' = some k then some i else m.get k := by
  rcases k' with _ | k'
  · simp [indexAt]
  rw [indexAt, Map.get_insert]
  simp [eq_comm]

theorem get_unindex (m : Map K Nat) (k' k) :
    (unindex m k').get k = if k' = some k then none else m.get k := by
  rcases k' with _ | k'
  · simp [unindex]
  rw [unindex, Map.get_remove]
  simp [eq_comm]

namespace Indexes

section
variable (h : Indexes key xs m)
include h

theorem unique {j : Nat} (he : xs[i]? = some e) (he' : xs[j]? = some e')
    (hk : key e = some k) (hk' : key e' = some k) : i = j := by
  have hi := (h k i).mpr ⟨e, he, hk⟩
  have hj := (h k j).mpr ⟨e', he', hk'⟩
  rw [hi] at hj
  exact Option.some.inj hj

theorem eq_of_key (he : e ∈ xs) (he' : e' ∈ xs) (hk : key e = some k)
    (hk' : key e' = some k) : e = e' := by
  obtain ⟨i, hi⟩ := mem_iff_getElem?.mp he
  obtain ⟨j, hj⟩ := mem_iff_getElem?.mp he'
  obtain rfl := h.unique hi hj hk hk'
  rw [hi] at hj
  exact Option.some.inj hj

theorem find_iff : find xs m k = some e ↔ e ∈ xs ∧ key e = some k := by
  constructor
  · intro hfind
    obtain ⟨i, hi, he⟩ := bind_eq_some_iff.mp hfind
    obtain ⟨_, he', hk⟩ := (h k i).mp hi
    cases he.symm.trans he'
    exact ⟨mem_of_getElem? he, hk⟩
  rintro ⟨he, hk⟩
  obtain ⟨i, hi⟩ := mem_iff_getElem?.mp he
  exact bind_eq_some_iff.mpr ⟨i, (h k i).mpr ⟨e, hi, hk⟩, hi⟩

theorem get_isSome_iff : (m.get k).isSome = true ↔ ∃ e ∈ xs, key e = some k := by
  constructor
  · intro hsome
    obtain ⟨i, hi⟩ := isSome_iff_exists.mp hsome
    obtain ⟨e, he, hk⟩ := (h k i).mp hi
    exact ⟨e, mem_of_getElem? he, hk⟩
  rintro ⟨e, he, hk⟩
  obtain ⟨i, hi⟩ := mem_iff_getElem?.mp he
  exact isSome_iff_exists.mpr ⟨i, (h k i).mpr ⟨e, hi, hk⟩⟩

theorem push (hfresh : ∀ e' ∈ xs, ∀ k, key e = some k → key e' ≠ some k) :
    Indexes key (xs ++ [e]) (indexAt m (key e) xs.length) := by
  intro k i
  have hentry : (∃ e', (xs ++ [e])[i]? = some e' ∧ key e' = some k) ↔
      (∃ e', xs[i]? = some e' ∧ key e' = some k) ∨ i = xs.length ∧ key e = some k := by
    rcases Nat.lt_trichotomy i xs.length with hi | rfl | hi
    · simp [getElem?_append_left hi, hi.ne]
    · simp
    rw [getElem?_append_right hi.le, getElem?_eq_none (by simp; omega), getElem?_eq_none hi.le]
    simp [hi.ne']
  rw [hentry, ← h k i, get_indexAt]
  split_ifs with hk
  swap
  · simp [hk]
  have hnone : m.get k = none := by
    rw [eq_none_iff_forall_ne_some]
    intro j hj
    obtain ⟨e', he', hk'⟩ := (h k j).mp hj
    exact hfresh e' (mem_of_getElem? he') k hk hk'
  simp [hnone, hk, eq_comm]

end

end Indexes

theorem swapRemove_getElem? (hi : xs[i]? = some e) (j e') : (swapRemove xs i)[j]? = some e' ↔
      j + 1 < xs.length ∧ (if j = i then xs.getLast? = some e' else xs[j]? = some e') := by
  have hlt : i < xs.length := (List.getElem?_eq_some_iff.mp hi).1
  obtain ⟨last, hlast⟩ : ∃ last, xs.getLast? = some last := by
    cases hlast : xs.getLast? with
    | none =>
      rw [getLast?_eq_none_iff.mp hlast] at hlt
      cases hlt
    | some last => exact ⟨last, rfl⟩
  simp only [swapRemove, hlast, getElem?_set, length_dropLast, getElem?_dropLast]
  split
  next hij =>
    subst hij
    simp only [if_true]
    split
    next hlt =>
      constructor
      · intro heq
        exact ⟨by omega, heq⟩
      rintro ⟨-, heq⟩
      exact heq
    rename_i hge
    simp
    omega
  rename_i hij
  rw [if_neg (Ne.symm hij)]
  split
  next hlt => exact ⟨fun heq => ⟨by omega, heq⟩, fun heq => heq.2⟩
  rename_i hge
  simp
  omega

theorem mem_swapRemove (hi : xs[i]? = some e) :
    e' ∈ swapRemove xs i ↔ ∃ j, j ≠ i ∧ xs[j]? = some e' := by
  have hlt : i < xs.length := (List.getElem?_eq_some_iff.mp hi).1
  rw [mem_iff_getElem?]
  constructor
  · rintro ⟨j, hj⟩
    obtain ⟨hjlt, hj⟩ := (swapRemove_getElem? hi j e').mp hj
    split_ifs at hj with hij
    · rw [getLast?_eq_getElem?] at hj
      exact ⟨xs.length - 1, by omega, hj⟩
    · exact ⟨j, hij, hj⟩
  rintro ⟨j, hji, hj⟩
  have hjlt : j < xs.length := (List.getElem?_eq_some_iff.mp hj).1
  by_cases hlast : j + 1 = xs.length
  · refine ⟨i, (swapRemove_getElem? hi i e').mpr ⟨by omega, ?_⟩⟩
    rw [if_pos rfl, getLast?_eq_getElem?, ← hlast]
    exact hj
  refine ⟨j, (swapRemove_getElem? hi j e').mpr ⟨by omega, ?_⟩⟩
  rw [if_neg hji]
  exact hj

/-- The index follows: the entry is taken out, and the one that moved is entered again. -/
theorem Indexes.swapRemove (h : Indexes key xs m) (hi : xs[i]? = some e) :
    Indexes key (swapRemove xs i)
      (match (IndexedList.swapRemove xs i)[i]? with
      | none => unindex m (key e)
      | some moved => indexAt (unindex m (key e)) (key moved) i) := by
  intro k j
  have hget : (match (IndexedList.swapRemove xs i)[i]? with
      | none => unindex m (key e)
      | some moved => indexAt (unindex m (key e)) (key moved) i).get k =
      if (IndexedList.swapRemove xs i)[i]?.bind key = some k then some i
      else if key e = some k then none else m.get k := by
    cases (IndexedList.swapRemove xs i)[i]? with
    | none => simp [get_unindex]
    | some => simp [get_indexAt, get_unindex]
  rw [hget]
  split_ifs with hmoved hke
  · obtain ⟨moved, hmoved, hkm⟩ := bind_eq_some_iff.mp hmoved
    obtain ⟨_, hlast⟩ := (swapRemove_getElem? hi i moved).mp hmoved
    rw [if_pos rfl, getLast?_eq_getElem?] at hlast
    constructor
    · rintro ⟨⟩
      exact ⟨moved, hmoved, hkm⟩
    rintro ⟨e', he', hk⟩
    obtain ⟨_, hentry⟩ := (swapRemove_getElem? hi j e').mp he'
    split_ifs at hentry with hji
    · rw [hji]
    have := h.unique hentry hlast hk hkm
    omega
  · refine iff_of_false (by simp) ?_
    rintro ⟨e', he', hk⟩
    obtain ⟨_, hentry⟩ := (swapRemove_getElem? hi j e').mp he'
    split_ifs at hentry with hji
    · exact hmoved (bind_eq_some_iff.mpr ⟨e', hji ▸ he', hk⟩)
    · exact hji (h.unique hentry hi hk hke)
  rw [h k j]
  constructor
  · rintro ⟨e', he', hk⟩
    have hji : j ≠ i := by
      rintro rfl
      cases hi.symm.trans he'
      exact hke hk
    have hjlt := (List.getElem?_eq_some_iff.mp he').1
    have hilt := (List.getElem?_eq_some_iff.mp hi).1
    -- the last entry would have moved
    have hmore : j + 1 < xs.length := by
      by_contra hend
      obtain rfl : j = xs.length - 1 := by omega
      refine hmoved (bind_eq_some_iff.mpr
        ⟨e', (swapRemove_getElem? hi i e').mpr ⟨by omega, ?_⟩, hk⟩)
      rwa [if_pos rfl, getLast?_eq_getElem?]
    exact ⟨e', (swapRemove_getElem? hi j e').mpr ⟨hmore, by rwa [if_neg hji]⟩, hk⟩
  rintro ⟨e', he', hk⟩
  obtain ⟨_, hentry⟩ := (swapRemove_getElem? hi j e').mp he'
  split_ifs at hentry with hji
  · exact absurd (bind_eq_some_iff.mpr ⟨e', hji ▸ he', hk⟩) hmoved
  · exact ⟨e', hentry, hk⟩

/-- **An index collected from a list** in which no key comes twice. -/
theorem collectIndex_indexes (hxs : Indexes key xs m) (rest)
    (h : (rest.filterMap key).Nodup) (hfresh : ∀ e ∈ xs, ∀ k ∈ rest.filterMap key, key e ≠ some k) :
    Indexes key (xs ++ rest) (collectIndex key xs.length m rest) := by
  induction rest generalizing xs m with
  | nil =>
    rw [append_nil]
    exact hxs
  | cons e rest ih =>
    have hpush : Indexes key (xs ++ [e]) (indexAt m (key e) xs.length) :=
      hxs.push fun e' he' k hk => hfresh e' he' k (mem_filterMap.mpr ⟨e, by simp, hk⟩)
    have hrest : (rest.filterMap key).Nodup ∧ ∀ k, key e = some k → k ∉ rest.filterMap key := by
      rcases hk : key e with _ | k
      · rw [filterMap_cons_none hk] at h
        exact ⟨h, nofun⟩
      rw [filterMap_cons_some hk, nodup_cons] at h
      refine ⟨h.2, ?_⟩
      rintro _ hk'
      cases hk'
      exact h.1
    have := ih hpush hrest.1 (by
      intro e' he' k hk
      rcases mem_append.mp he' with he' | he'
      · refine hfresh e' he' k ?_
        obtain ⟨a, ha, hka⟩ := mem_filterMap.mp hk
        exact mem_filterMap.mpr ⟨a, mem_cons_of_mem _ ha, hka⟩
      · obtain rfl := mem_singleton.mp he'
        exact fun hke => hrest.2 k hke hk)
    rw [append_assoc, length_append] at this
    exact this

end

end Shoes.Lib.IndexedList
