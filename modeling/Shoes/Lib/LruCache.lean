import Shoes.Lib.Assoc
import Shoes.Lib.Machine

/-! # LRU caches

The interface of an LRU cache of bounded size with the behaviour its documentation gives
each operation, stated through the entries in order of use. Programs are modelled over an
arbitrary `Lru`; `listLru` is one. -/
namespace Shoes.Lib.LruCache
open Assoc

/-- Moves an entry to the front, if it is there. -/
def touch {K V : Type} [DecidableEq K] (k : K) (m : List (K × V)) : List (K × V) :=
  match m.lookup k with
  | some v => insert k v m
  | none => m

/-- Changes an entry through a mutable reference, which also moves it to the front. -/
def adjust {K V : Type} [DecidableEq K] (k : K) (f : V → V) (m : List (K × V)) : List (K × V) :=
  match m.lookup k with
  | some v => insert k (f v) m
  | none => m

/-- Puts an entry in front. A new key in a full cache drops the entry used least recently. -/
def putBounded {K V : Type} [DecidableEq K] (cap : Nat) (k : K) (v : V) (m : List (K × V)) :
    List (K × V) :=
  if k ∈ keys m then insert k v m
  else (k, v) :: (if m.length = cap then m.dropLast else m)

structure Lru (K V : Type) [DecidableEq K] where
  Cache : Type
  new : Nat → Cache
  cap : Cache → Nat
  /-- The entries, the one used last first. -/
  iter : Cache → List (K × V)
  contains : K → Cache → Bool
  get : K → Cache → Option V × Cache
  getMut : K → (V → V) → Cache → Cache
  put : K → V → Cache → Cache
  pop : K → Cache → Option V × Cache
  iter_new (n : Nat) : iter (new n) = []
  cap_new (n : Nat) (h : 0 < n) : cap (new n) = n
  nodup (c : Cache) : (keys (iter c)).Nodup
  length_le (c : Cache) : (iter c).length ≤ cap c
  contains_iff (k : K) (c : Cache) : contains k c = true ↔ k ∈ keys (iter c)
  get_value (k : K) (c : Cache) : (get k c).1 = (iter c).lookup k
  iter_get (k : K) (c : Cache) : iter (get k c).2 = touch k (iter c)
  iter_getMut (k : K) (f : V → V) (c : Cache) : iter (getMut k f c) = adjust k f (iter c)
  iter_put (k : K) (v : V) (c : Cache) : iter (put k v c) = putBounded (cap c) k v (iter c)
  pop_value (k : K) (c : Cache) : (pop k c).1 = (iter c).lookup k
  iter_pop (k : K) (c : Cache) : iter (pop k c).2 = erase k (iter c)
  cap_get (k : K) (c : Cache) : cap (get k c).2 = cap c
  cap_getMut (k : K) (f : V → V) (c : Cache) : cap (getMut k f c) = cap c
  cap_put (k : K) (v : V) (c : Cache) : cap (put k v c) = cap c
  cap_pop (k : K) (c : Cache) : cap (pop k c).2 = cap c

variable {K V : Type} [DecidableEq K]

theorem lookup_touch (k k') (m : List (K × V)) : (touch k m).lookup k' = m.lookup k' := by
  unfold touch
  split
  next v hv =>
    by_cases hk : k' = k
    · rw [hk, lookup_insert_self, hv]
    · exact lookup_insert_ne hk v m
  · rfl

variable (k : K)

variable (f : V → V)

theorem lookup_adjust_self (m) : (adjust k f m).lookup k = (m.lookup k).map f := by
  unfold adjust
  split
  next v hv => simp [hv]
  next hv => simp [hv]

theorem lookup_adjust_ne {k k'} (h : k' ≠ k) (f) (m : List (K × V)) :
    (adjust k f m).lookup k' = m.lookup k' := by
  unfold adjust
  split
  · exact lookup_insert_ne h _ m
  · rfl

theorem nodup_touch {m : List (K × V)} (h : (keys m).Nodup) : (keys (touch k m)).Nodup := by
  unfold touch
  split
  · exact nodup_insert h
  · exact h

theorem nodup_adjust {m} (h : (keys m).Nodup) : (keys (adjust k f m)).Nodup := by
  unfold adjust
  split
  · exact nodup_insert h
  · exact h

theorem length_insert_of_mem {k} (v) {m : List (K × V)} (h : k ∈ keys m) :
    (insert k v m).length ≤ m.length := length_erase_lt h

theorem length_touch_le (m : List (K × V)) : (touch k m).length ≤ m.length := by
  unfold touch
  split
  next v hv => exact length_insert_of_mem v (lookup_isSome.mp (by rw [hv]; rfl))
  · exact le_rfl

theorem length_adjust_le (m) : (adjust k f m).length ≤ m.length := by
  unfold adjust
  split
  next v hv => exact length_insert_of_mem _ (lookup_isSome.mp (by rw [hv]; rfl))
  · exact le_rfl

theorem putBounded_sublist (cap) {k : K} (v) {m : List (K × V)} (h : k ∉ keys m) :
    ∃ kept, kept.Sublist m ∧ putBounded cap k v m = (k, v) :: kept := by
  unfold putBounded
  rw [if_neg h]
  split
  · exact ⟨_, m.dropLast_sublist, rfl⟩
  · exact ⟨_, List.Sublist.refl m, rfl⟩

theorem nodup_putBounded {cap : Nat} {k : K} {v : V} {m : List (K × V)} (h : (keys m).Nodup) :
    (keys (putBounded cap k v m)).Nodup := by
  by_cases hk : k ∈ keys m
  · rw [putBounded, if_pos hk]
    exact nodup_insert h
  obtain ⟨_, hs, he⟩ := putBounded_sublist cap v hk
  rw [he]
  simp only [keys, List.map_cons, List.nodup_cons]
  exact ⟨fun hm => hk ((hs.map _).mem hm), h.sublist (hs.map _)⟩

theorem length_putBounded_le {cap} (hcap : 0 < cap) {k v} {m : List (K × V)}
    (h : m.length ≤ cap) : (putBounded cap k v m).length ≤ cap := by
  unfold putBounded
  split
  next hk => exact (length_insert_of_mem v hk).trans h
  split
  · simp only [List.length_cons, List.length_dropLast]
    omega
  simp only [List.length_cons]
  omega

/-! ## An implementation -/

/-- A cache as the list of its entries. -/
structure ListCache (K V : Type) where
  entries : List (K × V)
  cap : Nat
  nodup : (keys entries).Nodup
  length_le : entries.length ≤ cap
  pos : 0 < cap

/-- The documented behaviour, run on lists. -/
def listLru (K V : Type) [DecidableEq K] : Lru K V where
  Cache := ListCache K V
  new n := ⟨[], max n 1, List.nodup_nil, Nat.zero_le _, by omega⟩
  cap := ListCache.cap
  iter := ListCache.entries
  contains k c := (c.entries.lookup k).isSome
  get k c := (c.entries.lookup k, { c with
    entries := touch k c.entries
    nodup := nodup_touch k c.nodup
    length_le := Nat.le_trans (length_touch_le k _) c.length_le })
  getMut k f c := { c with
    entries := adjust k f c.entries
    nodup := nodup_adjust k f c.nodup
    length_le := Nat.le_trans (length_adjust_le k f _) c.length_le }
  put k v c := { c with
    entries := putBounded c.cap k v c.entries
    nodup := nodup_putBounded c.nodup
    length_le := length_putBounded_le c.pos c.length_le }
  pop k c := (c.entries.lookup k, { c with
    entries := erase k c.entries
    nodup := nodup_erase c.nodup
    length_le := Nat.le_trans (List.length_filter_le ..) c.length_le })
  iter_new _ := rfl
  cap_new n h := by simp only; omega
  nodup c := c.nodup
  length_le c := c.length_le
  contains_iff _ _ := lookup_isSome
  get_value _ _ := rfl
  iter_get _ _ := rfl
  iter_getMut _ _ _ := rfl
  iter_put _ _ _ := rfl
  pop_value _ _ := rfl
  iter_pop _ _ := rfl
  cap_get _ _ := rfl
  cap_getMut _ _ _ := rfl
  cap_put _ _ _ := rfl
  cap_pop _ _ := rfl

/-! ## What a cache holds for a key -/

namespace Lru
variable (L : Lru K V)

/-- What the cache holds for a key, without marking it used. -/
def find (c : L.Cache) (k : K) : Option V := (L.iter c).lookup k

variable (k : K)

variable (c : L.Cache)

theorem contains_eq : L.contains k c = (L.find c k).isSome := by
  rw [Bool.eq_iff_iff, L.contains_iff, find, lookup_isSome]

@[simp] theorem find_new (n k) : L.find (L.new n) k = none := by
  simp [find, L.iter_new]

@[simp] theorem get_fst : (L.get k c).1 = L.find c k := L.get_value k c

@[simp] theorem pop_fst : (L.pop k c).1 = L.find c k := L.pop_value k c

@[simp] theorem find_get (k k' : K) (c : L.Cache) : L.find (L.get k c).2 k' = L.find c k' := by
  rw [find, L.iter_get, lookup_touch, find]

@[simp] theorem find_getMut_self (f c) : L.find (L.getMut k f c) k = (L.find c k).map f := by
  rw [find, L.iter_getMut, lookup_adjust_self, find]

theorem find_getMut_ne {k k'} (h : k' ≠ k) (f : V → V) (c : L.Cache) :
    L.find (L.getMut k f c) k' = L.find c k' := by
  rw [find, L.iter_getMut, lookup_adjust_ne h, find]

@[simp] theorem find_pop_self : L.find (L.pop k c).2 k = none := by
  rw [find, L.iter_pop, lookup_erase_self]

theorem find_pop_ne {k k'} (h : k' ≠ k) (c) : L.find (L.pop k c).2 k' = L.find c k' := by
  rw [find, L.iter_pop, lookup_erase_ne h, find]

@[simp] theorem find_put_self (v c) : L.find (L.put k v c) k = some v := by
  rw [find, L.iter_put, putBounded]
  split
  · exact lookup_insert_self k v _
  · exact lookup_cons_eq (e := (k, v)) rfl _

theorem find_of_find_put {k k'} (h : k' ≠ k) {v x c}
    (hf : L.find (L.put k v c) k' = some x) : L.find c k' = some x := by
  rw [find, L.iter_put] at hf
  by_cases hk : k ∈ keys (L.iter c)
  · rw [putBounded, if_pos hk, lookup_insert_ne h] at hf
    exact hf
  obtain ⟨_, hs, he⟩ := putBounded_sublist (L.cap c) v hk
  rw [he, lookup_cons_ne h] at hf
  exact lookup_of_mem (L.nodup c) (hs.mem (lookup_mem hf))

theorem find_put_ne {k k'} (h : k' ≠ k) (v) {c}
    (hroom : k ∈ keys (L.iter c) ∨ (L.iter c).length < L.cap c) :
    L.find (L.put k v c) k' = L.find c k' := by
  rw [find, L.iter_put, putBounded]
  split
  · exact lookup_insert_ne h v _
  next hk => rw [if_neg (Nat.ne_of_lt (hroom.resolve_left hk)), lookup_cons_ne h, find]

/-- A cache that differs from another one only in what it holds for one key. -/
structure Only (c : L.Cache) (k : K) (v : Option V) (c' : L.Cache) : Prop where
  own : L.find c' k = v
  other : ∀ k' ≠ k, L.find c' k' = L.find c k'

theorem Only.refl {c k} : L.Only c k (L.find c k) c := ⟨rfl, fun _ _ => rfl⟩

variable {L} in
theorem Only.getMut {c c' k v} (h : L.Only c k (some v) c') (f) :
    L.Only c k (some (f v)) (L.getMut k f c') where
  own := by rw [L.find_getMut_self, h.own]; rfl
  other k' hk := by rw [L.find_getMut_ne hk, h.other k' hk]

variable {L} in
theorem Only.pop {c c' k v} (h : L.Only c k v c') :
    ∃ c'', L.pop k c' = (v, c'') ∧ L.Only c k none c'' :=
  ⟨_, Prod.ext (by rw [L.pop_fst, h.own]) rfl, L.find_pop_self k c',
    fun k' hk => by rw [L.find_pop_ne hk, h.other k' hk]⟩

/-- A step that changes one key of the cache only. -/
theorem keyed {E R : Type} {step : L.Cache → E → R × L.Cache} {ok key slot}
    (h : ∀ c e, ok c e → (step c e).1 = (slot (L.find c (key e)) e).1 ∧
      L.Only c (key e) (slot (L.find c (key e)) e).2 (step c e).2) :
    Machine.Keyed step ok key L.find slot :=
  ⟨fun c e hok => (h c e hok).1, fun c e hok => (h c e hok).2.own,
    fun c e k hok => (h c e hok).2.other k⟩

theorem total_get (f k c) : total f (L.iter (L.get k c).2) = total f (L.iter c) := by
  rw [L.iter_get, touch]
  split
  next v hv => rw [total_insert, total_erase f (L.nodup c) hv]
  · rfl

theorem total_put (f) {k} (v) {c} (hk : L.find c k = none) (hroom : (L.iter c).length < L.cap c) :
    total f (L.iter (L.put k v c)) = f v + total f (L.iter c) := by
  rw [L.iter_put, putBounded, if_neg (lookup_eq_none.mp hk), if_neg hroom.ne]
  simp [total]

end Lru

end Shoes.Lib.LruCache
