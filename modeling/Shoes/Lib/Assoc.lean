import Mathlib.Algebra.Order.Ring.Nat
import Mathlib.Data.List.Nodup
import Mathlib.Data.List.Perm.Subperm
import Mathlib.Data.List.Basic

/-! # Association lists

Maps as lists of entries, looked up by `List.lookup`: what a hash map or an LRU list holds. -/
namespace Shoes.Lib.Assoc
open List Option

variable {K V : Type} [DecidableEq K]

def keys (m : List (K × V)) : List K := m.map Prod.fst

def erase (k : K) (m : List (K × V)) : List (K × V) := m.filter fun e => decide (e.1 ≠ k)

def insert (k : K) (v : V) (m : List (K × V)) : List (K × V) := (k, v) :: erase k m

theorem lookup_cons_eq (h : k = e.1) (m : List (K × V)) : (e :: m).lookup k = some e.2 := by
  obtain ⟨a, b⟩ := e
  cases h
  exact lookup_cons_self

theorem lookup_cons_ne (h : k ≠ e.1) (m : List (K × V)) : (e :: m).lookup k = m.lookup k := by
  have hb : (k == e.1) = false := by simpa using h
  rw [lookup_cons, hb]

theorem erase_cons_eq (h : e.1 = k) (m : List (K × V)) : erase k (e :: m) = erase k m := by
  simp [erase, h]

theorem erase_cons_ne (h : e.1 ≠ k) (m : List (K × V)) : erase k (e :: m) = e :: erase k m := by
  simp [erase, h]

theorem lookup_eq_none {m : List (K × V)} : m.lookup k = none ↔ k ∉ keys m := by
  induction m with
  | nil => simp [keys]
  | cons e m ih =>
    by_cases hk : k = e.1
    · rw [lookup_cons_eq hk]
      simp [keys, hk]
    rw [lookup_cons_ne hk, ih]
    simp [keys, hk]

theorem lookup_isSome {m : List (K × V)} : (m.lookup k).isSome = true ↔ k ∈ keys m := by
  rw [← not_iff_not, ← lookup_eq_none, not_isSome_iff_eq_none]

theorem lookup_mem {m : List (K × V)} (h : m.lookup k = some v) : (k, v) ∈ m := by
  induction m with
  | nil => cases h
  | cons e m ih =>
    by_cases hk : k = e.1
    · rw [lookup_cons_eq hk] at h
      cases h
      rw [hk]
      exact mem_cons_self
    rw [lookup_cons_ne hk] at h
    exact mem_cons_of_mem _ (ih h)

theorem lookup_of_mem {m : List (K × V)} (hn : (keys m).Nodup) (h : (k, v) ∈ m) :
    m.lookup k = some v := by
  induction m with
  | nil => cases h
  | cons e m ih =>
    simp only [keys, map_cons, nodup_cons] at hn
    rcases mem_cons.mp h with rfl | h
    · exact lookup_cons_eq (e := (k, v)) rfl m
    · rw [lookup_cons_ne (fun hk => hn.1 (hk ▸ mem_map_of_mem h)), ih hn.2 h]

@[simp] theorem lookup_erase_self (k : K) (m : List (K × V)) : (erase k m).lookup k = none := by
  rw [lookup_eq_none]
  simp [keys, erase]

theorem lookup_erase_ne (h : k' ≠ k) (m : List (K × V)) : (erase k m).lookup k' = m.lookup k' := by
  induction m with
  | nil => rfl
  | cons e m ih =>
    by_cases he : e.1 = k
    · rw [erase_cons_eq he, ih, lookup_cons_ne (by rwa [he])]
    rw [erase_cons_ne he]
    by_cases hk : k' = e.1
    · rw [lookup_cons_eq hk, lookup_cons_eq hk]
    · rw [lookup_cons_ne hk, lookup_cons_ne hk, ih]

@[simp] theorem lookup_insert_self (k : K) (v : V) (m : List (K × V)) :
    (insert k v m).lookup k = some v := by
  simp [insert]

theorem lookup_insert_ne (h : k' ≠ k) (v) (m : List (K × V)) :
    (insert k v m).lookup k' = m.lookup k' := by
  rw [insert, lookup_cons_ne h, lookup_erase_ne h]

theorem erase_of_not_mem {k : K} {m : List (K × V)} (h : k ∉ keys m) : erase k m = m := by
  rw [erase, filter_eq_self]
  intro e he
  have hne : e.1 ≠ k := fun hk => h (hk ▸ mem_map_of_mem he)
  simpa using hne

theorem nodup_erase {k : K} {m : List (K × V)} (h : (keys m).Nodup) : (keys (erase k m)).Nodup :=
  h.sublist (filter_sublist.map _)

theorem nodup_insert {k : K} {v : V} {m : List (K × V)} (h : (keys m).Nodup) :
    (keys (insert k v m)).Nodup := by
  simp only [insert, keys, map_cons, nodup_cons]
  exact ⟨lookup_eq_none.mp (lookup_erase_self k m), nodup_erase h⟩

theorem length_erase_lt {m : List (K × V)} (h : k ∈ keys m) : (erase k m).length < m.length := by
  obtain ⟨e, he, hk⟩ := mem_map.mp h
  exact length_filter_lt_length_iff_exists.mpr ⟨e, he, by simp [hk]⟩

/-- The sum of a measure over the entries. -/
def total (f : V → Nat) (m : List (K × V)) : Nat := (m.map fun e => f e.2).sum

theorem perm_erase {m : List (K × V)} (hn : (keys m).Nodup) (h : m.lookup k = some v) :
    m.Perm ((k, v) :: erase k m) := by
  induction m with
  | nil => cases h
  | cons e m ih =>
    simp only [keys, map_cons, nodup_cons] at hn
    by_cases hk : k = e.1
    · have hrest : erase k m = m := erase_of_not_mem (hk ▸ hn.1)
      rw [lookup_cons_eq hk] at h
      cases h
      rw [erase_cons_eq hk.symm, hrest, hk]
    rw [lookup_cons_ne hk] at h
    rw [erase_cons_ne (Ne.symm hk)]
    exact ((ih hn.2 h).cons e).trans (.swap ..)

theorem total_erase (f) {m : List (K × V)} (hn : (keys m).Nodup)
    (h : m.lookup k = some v) : total f m = f v + total f (erase k m) := by
  rw [total, ((perm_erase hn h).map _).sum_nat]
  rfl

theorem total_insert (f : V → Nat) (k : K) (v : V) (m : List (K × V)) :
    total f (insert k v m) = f v + total f (erase k m) := by
  simp [insert, total]

/-! ## Maps -/

/-- A finite map: no key has two entries. -/
structure Map (K V : Type) where
  entries : List (K × V)
  nodup : (entries.map Prod.fst).Nodup
  deriving DecidableEq

namespace Map
variable {k k' : K} {v : V}

def empty : Map K V := ⟨[], List.nodup_nil⟩

def get (m : Map K V) (k : K) : Option V := m.entries.lookup k

def contains (m : Map K V) (k : K) : Bool := (m.get k).isSome

def insert (m : Map K V) (k : K) (v : V) : Map K V :=
  ⟨Assoc.insert k v m.entries, nodup_insert m.nodup⟩

def remove (m : Map K V) (k : K) : Map K V := ⟨erase k m.entries, nodup_erase m.nodup⟩

def size (m : Map K V) : Nat := m.entries.length

variable (m : Map K V)

@[simp] theorem get_empty (k) : (empty : Map K V).get k = none := rfl

theorem get_mk_cons (e entries) (hn : ((e :: entries).map Prod.fst).Nodup) (k) :
    (⟨e :: entries, hn⟩ : Map K V).get k =
      if k = e.1 then some e.2 else (⟨entries, (List.nodup_cons.mp hn).2⟩ : Map K V).get k := by
  split_ifs with h
  · exact lookup_cons_eq h entries
  · exact lookup_cons_ne h entries

@[simp] theorem get_insert_self (k v) : (m.insert k v).get k = some v :=
  lookup_insert_self k v m.entries

theorem get_insert_ne (h : k' ≠ k) (v) : (m.insert k v).get k' = m.get k' :=
  lookup_insert_ne h v m.entries

theorem get_insert (k k' v) : (m.insert k v).get k' = if k' = k then some v else m.get k' := by
  split_ifs with h
  · rw [h, get_insert_self]
  · exact m.get_insert_ne h v

@[simp] theorem get_remove_self (k) : (m.remove k).get k = none :=
  lookup_erase_self k m.entries

/-- `entry(k).or_insert(v)`. -/
def orInsert (k : K) (v : V) : Map K V := if m.contains k then m else m.insert k v

theorem get_orInsert_self (k v) : (m.orInsert k v).get k = (m.get k).or (some v) := by
  unfold orInsert contains
  cases h : m.get k <;> simp [h]

theorem get_orInsert_ne (h : k' ≠ k) (v) : (m.orInsert k v).get k' = m.get k' := by
  unfold orInsert
  split
  · rfl
  · exact m.get_insert_ne h v

theorem get_remove_ne (h : k' ≠ k) : (m.remove k).get k' = m.get k' :=
  lookup_erase_ne h m.entries

theorem get_remove (k k') : (m.remove k).get k' = if k' = k then none else m.get k' := by
  split_ifs with h
  · rw [h, get_remove_self]
  · exact m.get_remove_ne h

theorem get_of_remove (h : (m.remove k).get k' = some v) : k' ≠ k ∧ m.get k' = some v := by
  rw [get_remove] at h
  exact ite_none_left_eq_some.mp h

def retain (p : K → V → Bool) : Map K V where
  entries := m.entries.filter fun e => p e.1 e.2
  nodup := m.nodup.sublist (List.filter_sublist.map _)

theorem get_retain (p k) : (m.retain p).get k = (m.get k).filter (p k) := by
  obtain ⟨entries, hn⟩ := m
  simp only [get, retain]
  induction entries with
  | nil => rfl
  | cons e entries ih =>
    simp only [map_cons, nodup_cons] at hn
    have hrest := ih hn.2
    rw [filter_cons]
    by_cases hk : k = e.1
    · have hnone : entries.lookup k = none := lookup_eq_none.mpr (hk ▸ hn.1)
      rw [hnone] at hrest
      rw [lookup_cons_eq hk]
      split_ifs with hp
      · rw [lookup_cons_eq hk, hk, filter_some_pos hp]
      rw [hrest, hk, filter_some_neg (Bool.eq_false_of_not_eq_true hp)]
      rfl
    rw [lookup_cons_ne hk, ← hrest]
    split
    · exact lookup_cons_ne hk _
    · rfl

theorem mem_of_get (h : m.get k = some v) : (k, v) ∈ m.entries := lookup_mem h

theorem mem_of_remove (h : e ∈ (m.remove k).entries) : e ∈ m.entries :=
  mem_of_mem_filter h

theorem mem_of_retain (h : e ∈ (m.retain p).entries) : e ∈ m.entries := mem_of_mem_filter h

theorem mem_of_insert (h : e ∈ (m.insert k v).entries) : e = (k, v) ∨ e ∈ m.entries := by
  rcases mem_cons.mp h with h | h
  · exact .inl h
  · exact .inr (mem_of_mem_filter h)

/-! Inclusion of one map in another survives the same change to both. -/

section
variable {V' : Type} {m} {m₁ : Map K V} {m' : Map K V'}

theorem some_of_insert (h : ∀ j w, m.get j = some w → m₁.get j = some w) (k v) :
    ∀ j w, (m.insert k v).get j = some w → (m₁.insert k v).get j = some w := by
  intro j w hj
  rw [get_insert] at hj ⊢
  split_ifs at hj with hk
  · rwa [if_pos hk]
  rw [if_neg hk]
  exact h j w hj

theorem some_of_remove (h : ∀ j w, m.get j = some w → m₁.get j = some w) (k) :
    ∀ j w, (m.remove k).get j = some w → (m₁.remove k).get j = some w := by
  intro j w hj
  rw [get_remove] at hj ⊢
  split at hj
  · cases hj
  rename_i hk
  rw [if_neg hk]
  exact h j w hj

theorem none_of_insert (h : ∀ j, m'.get j = none → m.get j = none) (k v v') :
    ∀ j, (m'.insert k v').get j = none → (m.insert k v).get j = none := by
  intro j hj
  rw [get_insert] at hj ⊢
  split at hj
  · cases hj
  rename_i hk
  rw [if_neg hk]
  exact h j hj

theorem none_of_remove (h : ∀ j, m'.get j = none → m.get j = none) (k) :
    ∀ j, (m'.remove k).get j = none → (m.remove k).get j = none := by
  intro j hj
  rw [get_remove] at hj ⊢
  split
  · rfl
  rename_i hk
  rw [if_neg hk] at hj
  exact h j hj

end

theorem contains_iff : m.contains k = true ↔ k ∈ m.entries.map Prod.fst := lookup_isSome

theorem size_remove_le (k) : (m.remove k).size ≤ m.size := length_filter_le _ _

theorem size_insert_le (k v) : (m.insert k v).size ≤ m.size + 1 :=
  Nat.succ_le_succ (m.size_remove_le k)

theorem length_le_size {ks : List K} (hn : ks.Nodup) (h : ∀ k ∈ ks, m.contains k = true) :
    ks.length ≤ m.size := by
  have hsub : ks.Subperm (m.entries.map Prod.fst) :=
    subperm_of_subset hn fun k hk => m.contains_iff.mp (h k hk)
  simpa [size] using hsub.length_le

theorem size_le_of_contains {V' : Type} {m' : Map K V'}
    (h : ∀ k, m.contains k = true → m'.contains k = true) : m.size ≤ m'.size := by
  have hle := m'.length_le_size m.nodup fun k hk => h k (m.contains_iff.mpr hk)
  simpa [size] using hle

theorem size_insert_of_contains (h : m.contains k = true) (v) : (m.insert k v).size ≤ m.size := by
  refine size_le_of_contains _ fun j hj => ?_
  unfold contains at hj h ⊢
  rw [get_insert] at hj
  split at hj
  next hjk =>
    rw [hjk]
    exact h
  · exact hj

/-- `==` of two hash maps: as many entries, and every entry of the one is in the other. -/
def same [DecidableEq V] (m' : Map K V) : Bool :=
  m.size == m'.size && m.entries.all fun e => m'.get e.1 == some e.2

theorem get_of_same [DecidableEq V] (h : m.same m' = true) (hk : m.get k = some v) : m'.get k =
    some v := by
  have hall := (Bool.and_eq_true_iff.mp h).2
  exact eq_of_beq (all_eq_true.mp hall (k, v) (lookup_mem hk))

end Map

end Shoes.Lib.Assoc
