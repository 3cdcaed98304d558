import Mathlib.Data.List.Nodup
import Mathlib.Data.List.Range
import Mathlib.Data.List.Perm.Subperm
import Mathlib.Algebra.Order.Floor.Div
import Mathlib.Algebra.Order.BigOperators.Group.List

/-! # Filling numbered slots in any order

A message is cut into numbered pieces and put together in a table with one slot a piece. `filled` is
the table after the pieces numbered in `seen` have come, in any order. -/
namespace Shoes.Lib.Slots
open List

variable {α : Type}

/-- The table of `n` slots that holds the pieces numbered in `seen`. -/
def filled (piece : Nat → α) (n : Nat) (seen : List Nat) : List (Option α) :=
  (range n).map fun i => if i ∈ seen then some (piece i) else none

variable (piece : Nat → α)

@[simp] theorem filled_length (n seen) : (filled piece n seen).length = n := by
  simp [filled]

theorem filled_nil (n) : filled piece n [] = replicate n none := by
  simp [filled, map_const']

theorem filled_get {n i} (h : i < n) (seen) :
    (filled piece n seen)[i]? = some (if i ∈ seen then some (piece i) else none) := by
  simp [filled, h]

theorem filled_set (n i seen) :
    (filled piece n seen).set i (some (piece i)) = filled piece n (i :: seen) := by
  apply ext_getElem?
  intro j
  by_cases hj : j < n
  · rw [getElem?_set, filled_get piece hj, filled_get piece hj]
    by_cases hij : i = j
    · simp [hij, hj]
    · simp [hij, Ne.symm hij]
  · rw [getElem?_eq_none (by simpa using hj), getElem?_eq_none (by simpa using hj)]

theorem mem_of_length {n} {seen : List Nat} (hn : seen.Nodup) (hlt : ∀ i ∈ seen, i < n)
    (hlen : n ≤ seen.length) {i} (hi : i < n) : i ∈ seen := by
  have hsub : seen.Subperm (range n) :=
    subperm_of_subset hn fun j hj => mem_range.mpr (hlt j hj)
  have hperm := hsub.perm_of_length_le (by simpa using hlen)
  exact hperm.mem_iff.mpr (mem_range.mpr hi)

theorem filled_all {n seen} (h : ∀ i < n, i ∈ seen) :
    filled piece n seen = (range n).map fun i => some (piece i) := by
  apply map_congr_left
  intro i hi
  rw [if_pos (h i (mem_range.mp hi))]

theorem sum_le_sum_range (f : Nat → Nat) {n} {seen : List Nat} (hn : seen.Nodup)
    (hlt : ∀ i ∈ seen, i < n) : (seen.map f).sum ≤ ((range n).map f).sum := by
  obtain ⟨l, hperm, hsub⟩ : seen.Subperm (range n) :=
    subperm_of_subset hn fun j hj => mem_range.mpr (hlt j hj)
  rw [← (hperm.map f).sum_eq]
  exact (hsub.map f).sum_le_sum (by simp)

theorem map_getD_range (xs : List α) (d) : (range xs.length).map (fun i => xs.getD i d) = xs := by
  apply ext_getElem?
  intro i
  by_cases hi : i < xs.length <;> simp [hi]

/-! ## Cutting -/

def pieces (size : Nat) : Nat → List α → List (List α)
  | 0, _ => []
  | n + 1, xs => xs.take size :: pieces size n (xs.drop size)

@[simp] theorem pieces_length (size n : Nat) (xs : List α) : (pieces size n xs).length = n := by
  induction n generalizing xs with
  | zero => rfl
  | succ n ih => simp [pieces, ih]

theorem pieces_flatten {size n} {xs : List α} (h : xs.length ≤ n * size) :
    (pieces size n xs).flatten = xs := by
  induction n generalizing xs with
  | zero => simp only [zero_mul, Nat.le_zero, length_eq_zero_iff] at h; simp [pieces, h]
  | succ n ih =>
    have hrest : (xs.drop size).length ≤ n * size := by
      rw [length_drop]
      rw [Nat.succ_mul] at h
      omega
    simp [pieces, ih hrest]

theorem pieces_length_le {size n} {xs piece : List α} (h : piece ∈ pieces size n xs) :
    piece.length ≤ size := by
  induction n generalizing xs with
  | zero => cases h
  | succ n ih =>
    rcases mem_cons.mp h with rfl | h
    · rw [length_take]
      exact Nat.min_le_left _ _
    · exact ih h

theorem pieces_eq_range (size n) (xs : List α) :
    pieces size n xs = (range n).map fun i => (xs.drop (i * size)).take size := by
  induction n generalizing xs with
  | zero => rfl
  | succ n ih =>
    rw [pieces, ih, range_succ_eq_map, map_cons, map_map, zero_mul, drop_zero]
    congr 2
    funext i
    simp only [Function.comp, drop_drop, Nat.succ_mul, add_comm]

theorem le_div_ceil_mul (n) {size} (h : 0 < size) : n ≤ (n + size - 1) / size * size := by
  have hle : n ≤ size • (n ⌈/⌉ size) := le_smul_ceilDiv h
  rwa [smul_eq_mul, Nat.ceilDiv_eq_add_pred_div, mul_comm] at hle

theorem take_drop_flatten {n} {blocks : List (List α)} (hlen : ∀ b ∈ blocks, b.length = n)
    {k block} (hk : blocks[k]? = some block) (rest) :
    ((blocks.flatten ++ rest).drop (k * n)).take n = block := by
  induction blocks generalizing k with
  | nil => cases hk
  | cons b blocks ih =>
    have hb := hlen b (mem_cons_self ..)
    rw [flatten_cons, append_assoc]
    cases k with
    | zero =>
      cases hk
      rw [zero_mul, drop_zero, take_left' hb]
    | succ k =>
      have hdrop : (b ++ (blocks.flatten ++ rest)).drop ((k + 1) * n) =
          (blocks.flatten ++ rest).drop (k * n) := by
        rw [Nat.succ_mul, add_comm, ← drop_drop, drop_left' hb]
      rw [hdrop]
      exact ih (fun b' hb' => hlen b' (mem_cons_of_mem b hb')) hk

/-! ## Pieces that come more than once -/

section Rounds
variable [DecidableEq α]

/-- How many times, one time after the other, `n` different things have all come, when those
in `seen` have come before. -/
def rounds (n : Nat) : List α → List α → Nat
  | _, [] => 0
  | seen, x :: xs =>
    if x ∈ seen then rounds n seen xs
    else if seen.length + 1 = n then rounds n [] xs + 1
    else rounds n (x :: seen) xs

variable {all seen xs : List α} {d : α}

omit [DecidableEq α] in
theorem length_lt_of_missing {x} (hn : (x :: seen).Nodup) (hsub : x :: seen ⊆ all)
    (hd : d ∈ all) (hx : d ∉ x :: seen) : seen.length + 1 < all.length := by
  have hsub' : d :: x :: seen ⊆ all := cons_subset.mpr ⟨hd, hsub⟩
  exact (subperm_of_subset (nodup_cons.mpr ⟨hx, hn⟩) hsub').length_le

/-- A round in which `d` is missing goes on. -/
theorem rounds_step {x} (hn : seen.Nodup) (hseen : seen ⊆ all) (hd : d ∈ all) (hmissing : d ∉ seen)
    (hx : x ∈ all) (hdx : d ≠ x) : ∃ seen', seen'.Nodup ∧ seen' ⊆ all ∧ d ∉ seen' ∧
      (∀ y, y ∈ seen' ↔ y = x ∨ y ∈ seen) ∧
      ∀ xs, rounds all.length seen (x :: xs) = rounds all.length seen' xs := by
  by_cases hold : x ∈ seen
  · refine ⟨seen, hn, hseen, hmissing, fun y => ⟨.inr, ?_⟩, fun xs => by rw [rounds, if_pos hold]⟩
    rintro (rfl | hy)
    exacts [hold, hy]
  have hn' := nodup_cons.mpr ⟨hold, hn⟩
  have hseen' := cons_subset.mpr ⟨hx, hseen⟩
  have hd' : d ∉ x :: seen := by simp [hdx, hmissing]
  refine ⟨x :: seen, hn', hseen', hd', fun y => mem_cons, fun xs => ?_⟩
  rw [rounds, if_neg hold, if_neg (Nat.ne_of_lt (length_lt_of_missing hn' hseen' hd hd'))]

theorem rounds_missing (hn : seen.Nodup) (hseen : seen ⊆ all) (hd : d ∈ all)
    (hmissing : d ∉ seen) (hxs : xs ⊆ all) (h : d ∉ xs) : rounds all.length seen xs = 0 := by
  induction xs generalizing seen with
  | nil => rfl
  | cons x xs ih =>
    obtain ⟨hx, hxs⟩ := cons_subset.mp hxs
    obtain ⟨hdx, h⟩ : d ≠ x ∧ d ∉ xs := by simpa using h
    obtain ⟨seen', hn, hseen, hmissing, -, hstep⟩ := rounds_step hn hseen hd hmissing hx hdx
    rw [hstep]
    exact ih hn hseen hmissing hxs h

/-- The first round ends with the first thing that makes them all; then the next one begins. -/
theorem rounds_first {early late} (hn : seen.Nodup) (hseen : seen ⊆ all)
    (hall : all.Nodup) (hd : d ∈ all) (hmissing : d ∉ seen) (hearly : early ⊆ all) (h : d ∉ early)
    (hcomplete : all ⊆ d :: (early ++ seen)) :
    rounds all.length seen (early ++ d :: late) = rounds all.length [] late + 1 := by
  induction early generalizing seen with
  | nil =>
    have hle := (subperm_of_subset hall hcomplete).length_le
    have hge := (subperm_of_subset (nodup_cons.mpr ⟨hmissing, hn⟩)
      (cons_subset.mpr ⟨hd, hseen⟩)).length_le
    simp only [nil_append, length_cons] at hle hge
    rw [nil_append, rounds, if_neg hmissing, if_pos (by omega)]
  | cons x early ih =>
    obtain ⟨hx, hearly⟩ := cons_subset.mp hearly
    obtain ⟨hdx, h⟩ : d ≠ x ∧ d ∉ early := by simpa using h
    obtain ⟨seen', hn, hseen, hmissing, hmem, hstep⟩ := rounds_step hn hseen hd hmissing hx hdx
    rw [cons_append, hstep]
    refine ih hn hseen hmissing hearly h fun y hy => ?_
    have hy' := hcomplete hy
    simp only [mem_cons, mem_append, hmem] at hy' ⊢
    tauto

theorem rounds_map {β : Type} [DecidableEq β] {f : α → β} {n : Nat}
    (hf : ∀ x ∈ all, ∀ y ∈ all, f x = f y → x = y) (hseen : seen ⊆ all) (hxs : xs ⊆ all) :
    rounds n (seen.map f) (xs.map f) = rounds n seen xs := by
  induction xs generalizing seen with
  | nil => rfl
  | cons x xs ih =>
    obtain ⟨hx, hxs⟩ := cons_subset.mp hxs
    have hmem : f x ∈ seen.map f ↔ x ∈ seen := by
      refine ⟨fun h => ?_, mem_map_of_mem⟩
      obtain ⟨y, hy, he⟩ := mem_map.mp h
      exact hf y (hseen hy) x hx he ▸ hy
    have hnil := ih (nil_subset all) hxs
    have hcons := ih (cons_subset.mpr ⟨hx, hseen⟩) hxs
    simp only [map_nil] at hnil
    simp only [map_cons] at hcons
    simp only [map_cons, rounds, hmem, length_map, ih hseen hxs, hnil, hcons]

end Rounds

end Shoes.Lib.Slots
