import Mathlib.Data.List.Basic
import Mathlib.Data.List.Nodup
import Mathlib.Data.List.TakeWhile

/-! # Runs of equal keys, and writes one after the other

In a sorted list the elements of one key stand together, so that the runs of equal keys have distinct
keys. Of several writes the last one to a key counts; where all writes to a key agree, any of them. -/
namespace Shoes.Lib.Grouped
open List

section
variable {α K : Type} [DecidableEq K] (key : α → K)

/-- The runs of equal keys, each with its key. -/
def groups : Nat → List α → List (K × List α)
  | 0, _ => []
  | _ + 1, [] => []
  | fuel + 1, a :: rest =>
    (key a, (a :: rest).takeWhile fun b => key b = key a) ::
      groups fuel ((a :: rest).dropWhile fun b => key b = key a)

variable {key}

theorem length_dropWhile_cons (a rest) :
    ((a :: rest).dropWhile fun b => key b = key a).length ≤ rest.length := by
  rw [dropWhile_cons_of_pos (by simp)]
  exact (dropWhile_suffix _).length_le

theorem key_of_mem_takeWhile {k} {xs : List α} {a}
    (h : a ∈ xs.takeWhile fun b => key b = k) : key a = k := by
  simpa using mem_takeWhile_imp h

theorem mem_groups {fuel xs} (h : xs.length ≤ fuel) (k a) :
    (∃ g ∈ groups key fuel xs, g.1 = k ∧ a ∈ g.2) ↔ a ∈ xs ∧ key a = k := by
  induction fuel generalizing xs with
  | zero =>
    rw [length_eq_zero_iff.mp (Nat.le_zero.mp h)]
    simp [groups]
  | succ fuel ih =>
    rcases xs with _ | ⟨b, rest⟩
    · simp [groups]
    have hlen : rest.length ≤ fuel := Nat.le_of_succ_le_succ h
    have hrest := ih ((@length_dropWhile_cons _ _ _ key b rest).trans hlen)
    have hsplit : a ∈ b :: rest ↔ a ∈ (b :: rest).takeWhile (fun c => key c = key b) ∨
        a ∈ (b :: rest).dropWhile (fun c => key c = key b) := by
      rw [← mem_append, takeWhile_append_dropWhile]
    rw [groups, exists_mem_cons_iff, hrest, hsplit]
    constructor
    · rintro (⟨hk, ha⟩ | ⟨ha, hk⟩)
      · exact ⟨.inl ha, (key_of_mem_takeWhile ha).trans hk⟩
      · exact ⟨.inr ha, hk⟩
    rintro ⟨ha | ha, hk⟩
    · exact .inl ⟨(key_of_mem_takeWhile ha).symm.trans hk, ha⟩
    · exact .inr ⟨ha, hk⟩

theorem key_of_mem_groups {fuel xs g} (h : g ∈ groups key fuel xs) : ∃ a ∈ xs, key a = g.1 := by
  induction fuel generalizing xs with
  | zero => cases h
  | succ fuel ih =>
    rcases xs with _ | ⟨b, rest⟩
    · cases h
    rcases mem_cons.mp h with rfl | h
    · exact ⟨b, mem_cons_self, rfl⟩
    obtain ⟨a, ha, hk⟩ := ih h
    exact ⟨a, (dropWhile_suffix _).subset ha, hk⟩

theorem key_ne_of_mem_dropWhile {le : K → K → Prop} (hanti : ∀ k k', le k k' → le k' k → k = k')
    {k : K} {xs : List α} (hsorted : xs.Pairwise fun a b => le (key a) (key b))
    (hleast : ∀ a ∈ xs, le k (key a)) {a : α} (ha : a ∈ xs.dropWhile fun b => key b = k) :
    key a ≠ k := by
  induction xs with
  | nil => cases ha
  | cons b rest ih =>
    obtain ⟨hb, hrest⟩ := pairwise_cons.mp hsorted
    by_cases hk : key b = k
    · rw [dropWhile_cons_of_pos (by simpa using hk)] at ha
      exact ih hrest (forall_mem_cons.mp hleast).2 ha
    rw [dropWhile_cons_of_neg (by simpa using hk)] at ha
    rcases mem_cons.mp ha with rfl | ha
    · exact hk
    intro hka
    have hle : le (key b) k := hka ▸ hb a ha
    exact hk (hanti _ _ hle (hleast b mem_cons_self))

theorem nodup_groups {le : K → K → Prop} (hrefl : ∀ k, le k k)
    (hanti : ∀ k k', le k k' → le k' k → k = k') {fuel : Nat} {xs : List α}
    (hsorted : xs.Pairwise fun a b => le (key a) (key b)) :
    ((groups key fuel xs).map Prod.fst).Nodup := by
  induction fuel generalizing xs with
  | zero => exact nodup_nil
  | succ fuel ih =>
    rcases xs with _ | ⟨b, rest⟩
    · exact nodup_nil
    have hleast : ∀ a ∈ b :: rest, le (key b) (key a) := by
      exact forall_mem_cons.mpr ⟨hrefl _, (pairwise_cons.mp hsorted).1⟩
    rw [groups, map_cons, nodup_cons]
    refine ⟨?_, ih (hsorted.sublist (dropWhile_suffix _).sublist)⟩
    intro hmem
    obtain ⟨g, hg, hk⟩ := mem_map.mp hmem
    obtain ⟨a, ha, hka⟩ := key_of_mem_groups hg
    exact key_ne_of_mem_dropWhile hanti hsorted hleast ha (hka.trans hk)

end

section
variable {S K V : Type} [DecidableEq K] {get : S → K → Option V} {put : S → K × V → S}

section
variable (hput : ∀ s e k, get (put s e) k = if k = e.1 then some e.2 else get s k)
include hput

theorem get_foldl_of_not_mem {k}
    {es : List (K × V)} (h : ∀ v, (k, v) ∉ es) (s) : get (es.foldl put s) k = get s k := by
  induction es generalizing s with
  | nil => rfl
  | cons e es ih =>
    have hne : k ≠ e.1 := by
      intro hk
      exact h e.2 (hk ▸ mem_cons_self)
    rw [foldl_cons, ih fun v hv => h v (mem_cons_of_mem e hv), hput, if_neg hne]

theorem get_foldl_of_mem {k v} {es : List (K × V)} (hmem : (k, v) ∈ es)
    (hagree : ∀ v', (k, v') ∈ es → v' = v) (s) : get (es.foldl put s) k = some v := by
  induction es generalizing s with
  | nil => cases hmem
  | cons e es ih =>
    by_cases hlater : ∃ v', (k, v') ∈ es
    · obtain ⟨v', hv'⟩ := hlater
      have hv : (k, v) ∈ es := hagree v' (mem_cons_of_mem e hv') ▸ hv'
      exact ih hv (fun v' h => hagree v' (mem_cons_of_mem e h)) (put s e)
    have hnone : ∀ v', (k, v') ∉ es := fun v' h => hlater ⟨v', h⟩
    rcases mem_cons.mp hmem with rfl | h
    · rw [foldl_cons, get_foldl_of_not_mem hput hnone, hput, if_pos rfl]
    · exact absurd h (hnone v)

/-- What is read after writes that agree: what was written, and before that what was there. -/
theorem get_foldl_iff {k} {es : List (K × V)} (hagree : ∀ v v', (k, v) ∈ es → (k, v') ∈ es → v = v')
    {s} (hs : get s k = none) (v) : get (es.foldl put s) k = some v ↔ (k, v) ∈ es := by
  constructor
  · intro h
    by_contra hv
    by_cases hmem : ∃ v', (k, v') ∈ es
    · obtain ⟨v', hv'⟩ := hmem
      rw [get_foldl_of_mem hput hv' (fun v'' h => hagree v'' v' h hv')] at h
      exact hv (Option.some.inj h ▸ hv')
    rw [get_foldl_of_not_mem hput (fun v' h => hmem ⟨v', h⟩), hs] at h
    cases h
  intro h
  exact get_foldl_of_mem hput h (fun v' h' => hagree v' v h' h) s

end

end

end Shoes.Lib.Grouped
