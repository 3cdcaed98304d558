import Shoes.Lib.Assoc

/-! # Tries

A tree whose edges carry the symbols of a key and whose nodes hold lists of entries. A search looks
into every node on its way, so it meets the entries inserted under the starts of the key:
`mem_visited_iff`. -/
namespace Shoes.Lib
open List

inductive Trie (K V : Type) where
  | node (entries : List V) (children : List (K × Trie K V))

variable {K V : Type} [DecidableEq K]

namespace Trie

def empty : Trie K V := .node [] []

def entries : Trie K V → List V
  | .node es _ => es

def child (k : K) : Trie K V → Option (Trie K V)
  | .node _ cs => cs.lookup k

/-- Add an entry under a key, with the nodes on the way to it. -/
def insert (v : V) : List K → Trie K V → Trie K V
  | [], .node es cs => .node (es ++ [v]) cs
  | k :: ks, .node es cs => .node es (Assoc.insert k (insert v ks ((cs.lookup k).getD empty)) cs)

/-- The entries under a key. -/
def get : List K → Trie K V → List V
  | [], t => t.entries
  | k :: ks, t =>
    match t.child k with
    | none => []
    | some c => get ks c

@[simp] theorem get_nil (t : Trie K V) : get [] t = t.entries := rfl

@[simp] theorem get_empty (ks) : get ks (empty : Trie K V) = [] := by
  cases ks <;> rfl

theorem get_cons (k ks es) (cs : List (K × Trie K V)) :
    get (k :: ks) (.node es cs) = get ks ((cs.lookup k).getD empty) := by
  cases h : cs.lookup k with
  | none | some => simp [get, child, h]

theorem get_insert (v : V) (ks qs : List K) (t : Trie K V) :
    get qs (insert v ks t) = if qs = ks then get qs t ++ [v] else get qs t := by
  induction ks generalizing qs t with
  | nil =>
    obtain ⟨es, cs⟩ := t
    cases qs with
    | nil => simp [insert, entries]
    | cons => simp [insert, get_cons]
  | cons k ks ih =>
    obtain ⟨es, cs⟩ := t
    rcases qs with _ | ⟨q, _⟩
    · simp [insert, entries]
    rw [insert, get_cons, get_cons]
    by_cases hq : q = k
    · subst hq
      simp [Assoc.insert, ih]
    rw [Assoc.lookup_insert_ne hq]
    simp [hq]

theorem mem_get_insert {v w : V} {ks qs : List K} {t : Trie K V} :
    w ∈ get qs (insert v ks t) ↔ w ∈ get qs t ∨ qs = ks ∧ w = v := by
  rw [get_insert]
  split <;> simp_all

/-- The nodes met below a node on the way along a key, each with what is left of the key
there; the way ends where a child is missing. -/
def descended : List K → Trie K V → List (List V × List K)
  | [], _ => []
  | k :: ks, t =>
    match t.child k with
    | none => []
    | some c => (c.entries, ks) :: descended ks c

/-- The same with the node itself. -/
def visited (ks : List K) (t : Trie K V) : List (List V × List K) := (t.entries, ks) :: descended ks t

theorem descended_none {k} {t : Trie K V} (h : t.child k = none) (ks) :
    descended (k :: ks) t = [] := by
  simp [descended, h]

theorem descended_some {k} {t c : Trie K V} (h : t.child k = some c) (ks) :
    descended (k :: ks) t = visited ks c := by
  simp [descended, visited, h]

theorem mem_visited_iff {w : V} {rest ks : List K} {t : Trie K V} :
    (∃ es, (es, rest) ∈ visited ks t ∧ w ∈ es) ↔ ∃ qs, qs ++ rest = ks ∧ w ∈ get qs t := by
  induction ks generalizing t with
  | nil =>
    constructor
    · rintro ⟨es, hv, hw⟩
      simp only [visited, descended, mem_singleton, Prod.mk.injEq] at hv
      exact ⟨[], by simp [hv.2], by simpa [hv.1] using hw⟩
    rintro ⟨qs, hq, hw⟩
    obtain ⟨rfl, rfl⟩ := append_eq_nil_iff.mp hq
    exact ⟨t.entries, by simp [visited], hw⟩
  | cons k ks ih =>
    constructor
    · rintro ⟨es, hv, hw⟩
      rcases mem_cons.mp hv with h | h
      · cases h
        exact ⟨[], rfl, hw⟩
      rcases hc : t.child k with _ | _
      · simp [descended_none hc] at h
      rw [descended_some hc] at h
      obtain ⟨qs, hq, hw⟩ := ih.mp ⟨es, h, hw⟩
      refine ⟨k :: qs, by simp [hq], ?_⟩
      simpa [get, hc] using hw
    rintro ⟨qs, hq, hw⟩
    rcases qs with _ | ⟨q, qs⟩
    · rw [nil_append] at hq
      subst hq
      exact ⟨t.entries, by simp [visited], hw⟩
    obtain ⟨rfl, hqs⟩ : q = k ∧ qs ++ rest = ks := List.cons.inj hq
    rcases hc : t.child q with _ | _
    · simp [get, hc] at hw
    obtain ⟨es, hv, hw⟩ := ih.mpr ⟨qs, hqs, by simpa [get, hc] using hw⟩
    exact ⟨es, mem_cons_of_mem _ (by rwa [descended_some hc]), hw⟩

theorem mem_descended_iff {w : V} {rest ks : List K} {t : Trie K V} :
    (∃ es, (es, rest) ∈ descended ks t ∧ w ∈ es)
      ↔ ∃ qs, qs ≠ [] ∧ qs ++ rest = ks ∧ w ∈ get qs t := by
  rcases ks with _ | ⟨k, ks⟩
  · constructor
    · rintro ⟨es, hv, -⟩
      simp [descended] at hv
    rintro ⟨qs, hne, hq, -⟩
    exact absurd (append_eq_nil_iff.mp hq).1 hne
  rcases hc : t.child k with _ | _
  · constructor
    · rintro ⟨es, hv, -⟩
      simp [descended_none hc] at hv
    rintro ⟨qs, hne, hq, hw⟩
    obtain ⟨q, qs, rfl⟩ := exists_cons_of_ne_nil hne
    obtain ⟨rfl, -⟩ : q = k ∧ qs ++ rest = ks := List.cons.inj hq
    simp [get, hc] at hw
  rw [descended_some hc, mem_visited_iff]
  constructor
  · rintro ⟨qs, rfl, hw⟩
    exact ⟨k :: qs, by simp, by simp, by simpa [get, hc] using hw⟩
  rintro ⟨qs, hne, hq, hw⟩
  obtain ⟨q, qs, rfl⟩ := exists_cons_of_ne_nil hne
  obtain ⟨rfl, hqs⟩ : q = k ∧ qs ++ rest = ks := List.cons.inj hq
  exact ⟨qs, hqs, by simpa [get, hc] using hw⟩

end Trie
end Shoes.Lib
