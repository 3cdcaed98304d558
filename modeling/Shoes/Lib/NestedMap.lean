import Shoes.Lib.Assoc

/-! # Maps of maps

What is kept for a pair of keys, one under the other. An inner map that has become empty is dropped,
so that the outer one holds nothing for it. -/
namespace Shoes.Lib.NestedMap
open Assoc

abbrev Nested (K J V : Type) := Map K (Map J V)

section
variable {K J V : Type} [DecidableEq K]

def inner (m : Nested K J V) (k : K) : Map J V := (m.get k).getD .empty

theorem inner_of_none {m : Nested K J V} {k} (h : m.get k = none) : inner m k = .empty := by
  rw [inner, h]
  rfl

theorem inner_of_some {m : Nested K J V} {k under} (h : m.get k = some under) :
    inner m k = under := by
  rw [inner, h]
  rfl

theorem inner_insert (m : Nested K J V) (k under k') :
    inner (m.insert k under) k' = if k' = k then under else inner m k' := by
  unfold inner
  rw [Map.get_insert]
  split <;> rfl

end

section
variable {K J V : Type} [DecidableEq K] [DecidableEq J]

section
variable (m : Nested K J V) (k : K)

def find (j : J) : Option V := (inner m k).get j

def put (j : J) (v : V) : Nested K J V :=
  m.insert k ((inner m k).insert j v)

/-- The inner map is written back, or dropped if nothing is left in it. -/
def settle (under : Map J V) : Nested K J V :=
  if under.entries.isEmpty then m.remove k else m.insert k under

def remove (j : J) : Nested K J V :=
  match m.get k with
  | none => m
  | some under => settle m k (under.remove j)

def retain (p : J → V → Bool) : Nested K J V :=
  match m.get k with
  | none => m
  | some under => settle m k (under.retain p)

end

@[simp] theorem find_empty (k j) : find (.empty : Nested K J V) k j = none := rfl

theorem get_of_isEmpty {under : Map J V} (h : under.entries.isEmpty = true) (j) :
    under.get j = none := by
  unfold Map.get
  rw [List.isEmpty_iff.mp h]
  rfl

variable (m : Nested K J V) (k : K)

theorem find_of_none {m : Nested K J V} {k} (h : m.get k = none) (j) : find m k j = none := by
  rw [find, inner_of_none h]
  rfl

theorem find_of_some {m : Nested K J V} {k} {under : Map J V} (h : m.get k = some under)
    (j) : find m k j = under.get j := by
  rw [find, inner_of_some h]

theorem find_settle (under k' j) :
    find (settle m k under) k' j = if k' = k then under.get j else find m k' j := by
  unfold settle find
  split
  · rename_i hempty
    rw [get_of_isEmpty hempty]
    unfold inner
    rw [Map.get_remove]
    split <;> rfl
  rw [inner_insert]
  split <;> rfl

theorem getD_settle {m : Nested K J V} {k} {under under' : Map J V} {d x : V}
    (h : m.get k = some under)
    (hone : ∀ j', (under'.get j').getD d = if j' = j then x else (under.get j').getD d) (k' j') :
    (find (settle m k under') k' j').getD d =
      if k' = k ∧ j' = j then x else (find m k' j').getD d := by
  rw [find_settle]
  by_cases hk : k' = k
  · rw [if_pos hk, hone, hk, find_of_some h]
    exact if_congr (by simp) rfl rfl
  · rw [if_neg hk, if_neg fun h => hk h.1]

theorem find_put (j : J) (v : V) (k' : K) (j' : J) :
    find (put m k j v) k' j' = if k' = k ∧ j' = j then some v else find m k' j' := by
  unfold find put
  rw [inner_insert]
  by_cases hk : k' = k
  · rw [if_pos hk, Map.get_insert, hk]
    by_cases hj : j' = j
    · rw [if_pos hj, if_pos ⟨rfl, hj⟩]
    · rw [if_neg hj, if_neg fun h => hj h.2]
  · rw [if_neg hk, if_neg fun h => hk h.1]

theorem find_remove (j k' j') :
    find (remove m k j) k' j' = if k' = k ∧ j' = j then none else find m k' j' := by
  unfold remove
  split
  · rename_i hnone
    split
    · rename_i h
      rw [h.1, find_of_none hnone]
    · rfl
  rename_i under hsome
  rw [find_settle, Map.get_remove]
  by_cases hk : k' = k
  · rw [if_pos hk]
    by_cases hj : j' = j
    · rw [if_pos hj, if_pos ⟨hk, hj⟩]
    · rw [if_neg hj, if_neg fun h => hj h.2, hk, find_of_some hsome]
  · rw [if_neg hk, if_neg fun h => hk h.1]

theorem find_retain (p k' j) :
    find (retain m k p) k' j = if k' = k then (find m k j).filter (p j) else find m k' j := by
  unfold retain
  split
  · rename_i hnone
    rw [find_of_none hnone]
    split
    · rename_i h
      rw [h, find_of_none hnone]
      rfl
    · rfl
  rename_i under hsome
  rw [find_settle, Map.get_retain, find_of_some hsome]

end

end Shoes.Lib.NestedMap
