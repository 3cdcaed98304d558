import Mathlib.Algebra.BigOperators.Group.List.Basic
import Mathlib.Algebra.Order.BigOperators.Group.List
import Mathlib.Algebra.Order.Ring.Nat

/-! # Sums over a list of holders

What the members of a list hold together, and how it changes with one of them. -/
namespace Shoes.Lib.Tally
open List

variable {α : Type} {f g : α → Nat} {l : List α} {i : Nat} {a : α}

def tally (f : α → Nat) (l : List α) : Nat := (l.map f).sum

@[simp] theorem tally_nil (f : α → Nat) : tally f [] = 0 := rfl

@[simp] theorem tally_cons (f : α → Nat) (a : α) (l : List α) :
    tally f (a :: l) = f a + tally f l := by
  simp [tally]

@[simp] theorem tally_append (f : α → Nat) (l l' : List α) :
    tally f (l ++ l') = tally f l + tally f l' := by
  simp [tally]

theorem tally_congr (h : ∀ a ∈ l, f a = g a) : tally f l = tally g l := by
  unfold tally
  rw [map_congr_left h]

theorem tally_add (f g : α → Nat) (l : List α) :
    tally (fun a => f a + g a) l = tally f l + tally g l := by
  induction l with
  | nil => rfl
  | cons a l ih =>
    simp only [tally_cons, ih]
    omega

theorem tally_mono (h : ∀ a ∈ l, f a ≤ g a) : tally f l ≤ tally g l := by
  induction l with
  | nil => exact le_rfl
  | cons a l ih =>
    have ha := h a (mem_cons_self ..)
    have hl := ih (forall_mem_cons.mp h).2
    simp only [tally_cons]
    omega

theorem exists_of_tally_pos (h : 0 < tally f l) : ∃ a ∈ l, 0 < f a := by
  induction l with
  | nil => cases h
  | cons a l ih =>
    rw [tally_cons] at h
    by_cases ha : 0 < f a
    · exact ⟨a, mem_cons_self .., ha⟩
    obtain ⟨b, hb, hpos⟩ := ih (by omega)
    exact ⟨b, mem_cons_of_mem _ hb, hpos⟩

theorem le_tally (h : a ∈ l) : f a ≤ tally f l :=
  le_sum_of_mem (mem_map_of_mem h)

theorem tally_set (h : l[i]? = some a) (b) : tally f (l.set i b) + f a = tally f l + f b := by
  induction l generalizing i with
  | nil => cases h
  | cons c l ih =>
    cases i with
    | zero =>
      cases h
      simp only [set_cons_zero, tally_cons]
      omega
    | succ i =>
      have := ih h
      simp only [set_cons_succ, tally_cons]
      omega

theorem tally_eraseIdx (h : l[i]? = some a) : tally f (l.eraseIdx i) + f a = tally f l := by
  induction l generalizing i with
  | nil => cases h
  | cons c l ih =>
    cases i with
    | zero =>
      cases h
      simp only [eraseIdx_cons_zero, tally_cons]
      omega
    | succ i =>
      have := ih h
      simp only [eraseIdx_cons_succ, tally_cons]
      omega

end Shoes.Lib.Tally
