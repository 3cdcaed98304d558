import Mathlib.Data.List.Sort
import Mathlib.Data.List.Perm.Basic

/-! # Tables as sorted lists

Rows with a key, kept in a list in the order of their keys, each key at most once. Such a list is
determined by its rows, so two ways of changing it agree when they leave the same rows. -/
namespace Shoes.Lib.SortedTable
open List

variable {α : Type} (key : α → Nat)

/-- The loop of `slice::binary_search_by_key`: the window starts at `base`. -/
def searchLoop (xs : List α) (k : Nat) : Nat → Nat → Nat → Nat
  | 0, base, _ => base
  | fuel + 1, base, size =>
    if size > 1 then
      let half := size / 2
      let mid := base + half
      let above := xs[mid]?.all fun a => decide (k < key a)
      searchLoop xs k fuel (if above then base else mid) (size - half)
    else base

/-- `slice::binary_search_by_key`: where the key is, or where it belongs. -/
def binarySearchByKey (xs : List α) (k : Nat) : Except Nat Nat :=
  let base := searchLoop key xs k xs.length 0 xs.length
  match xs[base]? with
  | none => .error 0
  | some a => if key a = k then .ok base else .error (if key a < k then base + 1 else base)

/-- In the order of the keys, and no key twice. -/
def Sorted (xs : List α) : Prop := xs.Pairwise fun a b => key a < key b

section
variable {key} {xs ys : List α} {k : Nat}

theorem Sorted.getElem_lt (h : Sorted key xs) (hij : i < j) (hj : j < xs.length) :
    key (xs[i]) < key xs[j] :=
  pairwise_iff_getElem.mp h i j (by omega) hj hij

/-- **A table is determined by its rows.** -/
theorem Sorted.eq_of_mem_iff (hx : Sorted key xs) (hy : Sorted key ys)
    (h : ∀ a, a ∈ xs ↔ a ∈ ys) : xs = ys := by
  have hirr : Std.Irrefl fun a b : α => key a < key b := ⟨fun a => lt_irrefl (key a)⟩
  have hasymm : Std.Asymm fun a b : α => key a < key b := ⟨fun a b => Nat.lt_asymm⟩
  exact List.Pairwise.eq_of_mem_iff hx hy h

theorem Sorted.key_injective (h : Sorted key xs) (ha : a ∈ xs) (hb : b ∈ xs)
    (hk : key a = key b) : a = b := by
  obtain ⟨i, hi, rfl⟩ := getElem_of_mem ha
  obtain ⟨j, hj, rfl⟩ := getElem_of_mem hb
  rcases Nat.lt_trichotomy i j with hij | hij | hij
  · exact absurd hk (Nat.ne_of_lt (h.getElem_lt hij hj))
  · subst hij
    rfl
  · exact absurd hk.symm (Nat.ne_of_lt (h.getElem_lt hij hi))

/-! ## Binary search -/

/-- What lies behind the window is above the key, and where the window starts is not, unless it
starts at the beginning. -/
theorem searchLoop_spec (h : Sorted key xs) (fuel) :
    ∀ base size, 0 < size → base + size ≤ xs.length → size ≤ fuel + 1 →
      (∀ j (hj : j < xs.length), base + size ≤ j → k < key xs[j]) →
      (base ≠ 0 → ∀ hb : base < xs.length, key xs[base] ≤ k) →
      ∃ hr : searchLoop key xs k fuel base size < xs.length,
        (∀ j (hj : j < xs.length), searchLoop key xs k fuel base size < j → k < key xs[j]) ∧
        (searchLoop key xs k fuel base size ≠ 0 →
          key xs[searchLoop key xs k fuel base size] ≤ k) := by
  induction fuel with
  | zero =>
    intro base size hpos hle hfuel habove hbelow
    refine ⟨by simp only [searchLoop]; omega, ?_, ?_⟩
    · intro j hj hlt
      exact habove j hj (by simp only [searchLoop] at hlt; omega)
    intro hne
    exact hbelow hne (by omega)
  | succ fuel ih =>
    intro base size hpos hle hfuel habove hbelow
    by_cases hsize : size > 1
    · have hmid : base + size / 2 < xs.length := by omega
      rw [searchLoop, if_pos hsize]
      simp only [getElem?_eq_getElem hmid, Option.all_some, decide_eq_true_eq]
      by_cases hk : k < key xs[base + size / 2]
      · simp only [hk, if_true]
        refine ih base (size - size / 2) (by omega) (by omega) (by omega) ?_ hbelow
        intro j hj hge
        rcases Nat.lt_or_ge (base + size / 2) j with hlt | hge'
        · exact hk.trans (h.getElem_lt hlt hj)
        obtain rfl : base + size / 2 = j := by omega
        exact hk
      simp only [hk, if_false]
      refine ih (base + size / 2) (size - size / 2) (by omega) (by omega) (by omega) ?_ ?_
      · intro j hj hge
        exact habove j hj (by omega)
      intro _ _
      omega
    rw [searchLoop, if_neg hsize]
    refine ⟨by omega, ?_, ?_⟩
    · intro j hj hlt
      exact habove j hj (by omega)
    intro hne
    exact hbelow hne (by omega)

/-- **Binary search finds the key, or where it belongs.** -/
theorem binarySearchByKey_spec (h : Sorted key xs) (k) :
    (∃ l a r, xs = l ++ a :: r ∧ key a = k ∧ binarySearchByKey key xs k = .ok l.length) ∨
      ∃ l r, xs = l ++ r ∧ (∀ b ∈ l, key b < k) ∧ (∀ b ∈ r, k < key b) ∧
        binarySearchByKey key xs k = .error l.length := by
  rcases Nat.eq_zero_or_pos xs.length with hlen | hlen
  · obtain rfl := length_eq_zero_iff.mp hlen
    exact .inr ⟨[], [], rfl, nofun, nofun, rfl⟩
  obtain ⟨hr, habove, hbelow⟩ := searchLoop_spec (k := k) h xs.length 0 xs.length hlen
    (Nat.zero_add _).le (Nat.le_succ _) (fun j hj hge => absurd hge (by omega))
    (fun hne => absurd rfl hne)
  unfold binarySearchByKey
  generalize searchLoop key xs k xs.length 0 xs.length = i at hr habove hbelow ⊢
  simp only [getElem?_eq_getElem hr]
  have hsplit : ∀ j ≤ xs.length, xs = xs.take j ++ xs.drop j ∧ (xs.take j).length = j :=
    fun j hj => ⟨(take_append_drop j xs).symm, length_take_of_le hj⟩
  have hdrop : ∀ j, (∀ m (hm : m < xs.length), j ≤ m → k < key xs[m]) →
      ∀ b ∈ xs.drop j, k < key b := by
    intro j hj b hb
    obtain ⟨m, hm, rfl⟩ := getElem_of_mem hb
    rw [length_drop] at hm
    rw [getElem_drop]
    exact hj (j + m) (by omega) (by omega)
  have htake : ∀ j, (∀ m (hm : m < xs.length), m < j → key xs[m] < k) →
      ∀ b ∈ xs.take j, key b < k := by
    intro j hj b hb
    obtain ⟨m, hm, rfl⟩ := getElem_of_mem hb
    rw [length_take] at hm
    rw [getElem_take]
    exact hj m (by omega) (by omega)
  by_cases hk : key xs[i] = k
  · left
    refine ⟨xs.take i, xs[i], xs.drop (i + 1), ?_, hk, ?_⟩
    · rw [← drop_eq_getElem_cons hr, take_append_drop]
    · rw [if_pos hk, (hsplit i hr.le).2]
  right
  rw [if_neg hk]
  by_cases hlt : key xs[i] < k
  · refine ⟨xs.take (i + 1), xs.drop (i + 1), (hsplit _ hr).1, htake _ ?_, hdrop _ ?_, ?_⟩
    · intro m hm hmi
      rcases Nat.lt_or_ge m i with hmi' | hmi'
      · exact (h.getElem_lt hmi' hr).trans hlt
      obtain rfl : m = i := by omega
      exact hlt
    · intro m hm hmi
      exact habove m hm (by omega)
    · rw [if_pos hlt, (hsplit _ hr).2]
  -- the window can only have stopped at the beginning
  obtain rfl : i = 0 := by
    by_contra hne
    have := hbelow hne
    omega
  refine ⟨[], xs, rfl, nofun, ?_, ?_⟩
  · intro b hb
    refine hdrop 0 ?_ b hb
    intro m hm _
    rcases Nat.eq_zero_or_pos m with rfl | hpos
    · omega
    · exact habove m hm hpos
  rw [if_neg hlt]
  rfl

end

section
variable {key} {xs : List α} {k i : Nat}

theorem binarySearchByKey_ok (h : Sorted key xs) (hi : binarySearchByKey key xs k = .ok i) :
    ∃ a, xs[i]? = some a ∧ key a = k := by
  rcases binarySearchByKey_spec h k with ⟨l, a, r, rfl, ha, hsearch⟩ | ⟨l, r, rfl, -, -, hsearch⟩
  · cases hsearch.symm.trans hi
    exact ⟨a, by simp, ha⟩
  · cases hsearch.symm.trans hi

theorem binarySearchByKey_error (h : Sorted key xs) (hi : binarySearchByKey key xs k = .error i) :
    ∀ a ∈ xs, key a ≠ k := by
  rcases binarySearchByKey_spec h k with ⟨l, a, r, rfl, ha, hsearch⟩ | ⟨l, r, rfl, hl, hr, -⟩
  · cases hsearch.symm.trans hi
  intro a ha
  rcases mem_append.mp ha with ha | ha
  · exact Nat.ne_of_lt (hl a ha)
  · exact Nat.ne_of_gt (hr a ha)

end

/-! ## Changing single rows -/

/-- Put a row in the place of the row with its key, or where it belongs. -/
def upsert (xs : List α) (a : α) : List α :=
  match binarySearchByKey key xs (key a) with
  | .ok i => xs.set i a
  | .error i => xs.insertIdx i a

/-- Take the row with a key out. -/
def erase (xs : List α) (k : Nat) : List α :=
  match binarySearchByKey key xs k with
  | .ok i => xs.eraseIdx i
  | .error _ => xs

section
variable {key} {xs l r : List α} {a b : α} {k : Nat}

theorem sorted_append : Sorted key (l ++ r) ↔
    Sorted key l ∧ Sorted key r ∧ ∀ a ∈ l, ∀ b ∈ r, key a < key b := pairwise_append

theorem sorted_cons : Sorted key (a :: r) ↔ (∀ b ∈ r, key a < key b) ∧ Sorted key r :=
  pairwise_cons

theorem Sorted.middle (h : Sorted key (l ++ a :: r)) :
    (∀ b ∈ l, key b < key a) ∧ ∀ b ∈ r, key a < key b := by
  obtain ⟨-, hr, hlr⟩ := sorted_append.mp h
  exact ⟨fun b hb => hlr b hb a (mem_cons_self ..), (sorted_cons.mp hr).1⟩

theorem sorted_between (h : Sorted key (l ++ r)) (hl : ∀ b ∈ l, key b < key a)
    (hr : ∀ b ∈ r, key a < key b) : Sorted key (l ++ a :: r) := by
  obtain ⟨hl', hr', hlr⟩ := sorted_append.mp h
  refine sorted_append.mpr ⟨hl', sorted_cons.mpr ⟨hr, hr'⟩, ?_⟩
  intro b hb c hc
  rcases mem_cons.mp hc with rfl | hc
  · exact hl b hb
  · exact hlr b hb c hc

theorem Sorted.without (h : Sorted key (l ++ a :: r)) : Sorted key (l ++ r) :=
  h.sublist (List.Sublist.append_left (sublist_cons_self a r) l)

theorem mem_without (h : Sorted key (l ++ a :: r)) :
    b ∈ l ++ r ↔ b ∈ l ++ a :: r ∧ key b ≠ key a := by
  obtain ⟨hl, hr⟩ := h.middle
  simp only [mem_append, mem_cons]
  constructor
  · rintro (hb | hb)
    · exact ⟨.inl hb, Nat.ne_of_lt (hl b hb)⟩
    · exact ⟨.inr (.inr hb), Nat.ne_of_gt (hr b hb)⟩
  rintro ⟨hb | rfl | hb, hne⟩
  · exact .inl hb
  · exact absurd rfl hne
  · exact .inr hb

theorem key_ne (hl : ∀ b ∈ l, key b < k) (hr : ∀ b ∈ r, k < key b) (hb : b ∈ l ++ r) :
    key b ≠ k := by
  rcases mem_append.mp hb with hb | hb
  · exact Nat.ne_of_lt (hl b hb)
  · exact Nat.ne_of_gt (hr b hb)

theorem insertIdx_length_append (l r : List α) (a) :
    (l ++ r).insertIdx l.length a = l ++ a :: r := by
  induction l with
  | nil => rfl
  | cons b l ih => simp [ih]

section
variable (h : Sorted key xs)
include h

theorem upsert_spec (a) :
    ∃ l r, upsert key xs a = l ++ a :: r ∧ Sorted key (l ++ r) ∧ (∀ b ∈ l, key b < key a) ∧
      (∀ b ∈ r, key a < key b) ∧ ∀ b, b ∈ l ++ r ↔ b ∈ xs ∧ key b ≠ key a := by
  unfold upsert
  rcases binarySearchByKey_spec h (key a) with ⟨l, c, r, rfl, hc, hsearch⟩ |
      ⟨l, r, rfl, hl, hr, hsearch⟩
  · obtain ⟨hl, hr⟩ := h.middle
    rw [hc] at hl hr
    refine ⟨l, r, ?_, h.without, hl, hr, fun b => hc ▸ mem_without h⟩
    rw [hsearch]
    simp
  refine ⟨l, r, ?_, h, hl, hr, fun b => ⟨fun hb => ⟨hb, key_ne hl hr hb⟩, And.left⟩⟩
  rw [hsearch]
  exact insertIdx_length_append l r a

theorem Sorted.upsert (a) : Sorted key (upsert key xs a) := by
  obtain ⟨l, r, heq, hsorted, hl, hr, -⟩ := upsert_spec h a
  rw [heq]
  exact sorted_between hsorted hl hr

theorem mem_upsert : b ∈ SortedTable.upsert key xs a ↔ b = a ∨ b ∈ xs ∧ key b ≠ key a := by
  obtain ⟨l, r, heq, -, -, -, hmem⟩ := upsert_spec h a
  rw [heq, ← hmem b]
  simp only [mem_append, mem_cons]
  tauto

theorem Sorted.erase (k) : Sorted key (erase key xs k) := by
  unfold SortedTable.erase
  split
  · exact h.sublist (eraseIdx_sublist ..)
  · exact h

theorem mem_erase : b ∈ SortedTable.erase key xs k ↔ b ∈ xs ∧ key b ≠ k := by
  unfold SortedTable.erase
  rcases binarySearchByKey_spec h k with ⟨l, c, r, rfl, hc, hsearch⟩ | ⟨l, r, rfl, hl, hr, hsearch⟩
  · have herase : (l ++ c :: r).eraseIdx l.length = l ++ r := by simp [eraseIdx_append_of_length_le]
    rw [hsearch]
    dsimp only
    rw [herase, ← hc]
    exact mem_without h
  rw [hsearch]
  exact ⟨fun hb => ⟨hb, key_ne hl hr hb⟩, And.left⟩

end

end

/-! ## Changing many rows -/

/-- The last row with a key. -/
def latest (us : List α) (k : Nat) : Option α := us.reverse.find? fun a => decide (key a = k)

section
variable {key} {xs us : List α} {u b : α} {k : Nat}

theorem latest_nil : latest key [] k = none := rfl

theorem latest_cons :
    latest key (u :: us) k = (latest key us k).or (if key u = k then some u else none) := by
  rw [latest, reverse_cons, find?_append]
  by_cases h : key u = k <;> simp [latest, h]

theorem latest_key (h : latest key us k = some b) : key b = k := by
  simpa using find?_some h

theorem latest_mem (h : latest key us k = some b) : b ∈ us :=
  mem_reverse.mp (mem_of_find?_eq_some h)

theorem latest_eq_none : latest key us k = none ↔ ∀ a ∈ us, key a ≠ k := by
  simp [latest, find?_eq_none]

section
variable (h : Sorted key xs)
include h

theorem Sorted.foldl_upsert (us : List α) : Sorted key (us.foldl (SortedTable.upsert key) xs) := by
  induction us generalizing xs with
  | nil => exact h
  | cons u us ih => exact ih (h.upsert u)

/-- **Upserting row after row leaves the last row of each key.** -/
theorem mem_foldl_upsert (us) : b ∈ us.foldl (SortedTable.upsert key) xs ↔
      latest key us (key b) = some b ∨ latest key us (key b) = none ∧ b ∈ xs := by
  induction us generalizing xs with
  | nil => simp [latest_nil]
  | cons u us ih =>
    rw [foldl_cons, ih (h.upsert u), mem_upsert h, latest_cons]
    cases hlast : latest key us (key b) with
    | some c => simp
    | none =>
      by_cases hk : key u = key b
      · simp [hk, eq_comm]
      have hne : b ≠ u := fun heq => hk (by rw [heq])
      simp [hk, hne, Ne.symm hk]

theorem Sorted.foldl_erase (ks : List Nat) : Sorted key (ks.foldl (SortedTable.erase key) xs) := by
  induction ks generalizing xs with
  | nil => exact h
  | cons k ks ih => exact ih (h.erase k)

theorem mem_foldl_erase (ks : List Nat) :
    b ∈ ks.foldl (SortedTable.erase key) xs ↔ b ∈ xs ∧ key b ∉ ks := by
  induction ks generalizing xs with
  | nil => simp
  | cons k ks ih =>
    rw [foldl_cons, ih (h.erase k), mem_erase h, mem_cons]
    tauto

end

end

/-! ## Sorting -/

def sortByKey (xs : List α) : List α := xs.insertionSort fun a b => key a ≤ key b

/-- Of neighbours with one key, the last. -/
def dedupLast : List α → List α
  | [] => []
  | [a] => [a]
  | a :: b :: rest => if key b = key a then dedupLast (b :: rest) else a :: dedupLast (b :: rest)

section
variable {key} {xs us : List α} {a b : α} {k : Nat}

@[simp] theorem mem_sortByKey : a ∈ sortByKey key xs ↔ a ∈ xs := mem_insertionSort _

theorem sortByKey_pairwise (xs) : (sortByKey key xs).Pairwise fun a b => key a ≤ key b := by
  have htotal : Std.Total fun a b : α => key a ≤ key b := ⟨fun a b => Nat.le_total (key a) (key b)⟩
  have htrans : IsTrans α fun a b => key a ≤ key b := ⟨fun a b c => Nat.le_trans⟩
  exact pairwise_insertionSort _ xs

theorem sorted_of_nodup_keys (h : xs.Pairwise fun a b => key a ≤ key b)
    (hnodup : (xs.map key).Nodup) : Sorted key xs := by
  have hne := pairwise_map.mp hnodup
  exact (h.and hne).imp fun ⟨hle, hne⟩ => Nat.lt_of_le_of_ne hle hne

theorem Sorted.nodup_keys (h : Sorted key xs) : (xs.map key).Nodup :=
  pairwise_map.mpr (h.imp Nat.ne_of_lt)

theorem sortByKey_sorted (h : (xs.map key).Nodup) : Sorted key (sortByKey key xs) := by
  refine sorted_of_nodup_keys (sortByKey_pairwise xs) ?_
  exact ((perm_insertionSort _ xs).map key).nodup_iff.mpr h

theorem latest_eq_head (us k) :
    latest key us k = (us.filter fun a => decide (key a = k)).getLast? := by
  rw [latest, ← head?_filter, filter_reverse, head?_reverse]

theorem latest_sortByKey (us k) : latest key (sortByKey key us) k = latest key us k := by
  have hsame : (us.filter fun a => decide (key a = k)).Pairwise fun a b => key a ≤ key b := by
    refine pairwise_of_forall_mem_list ?_
    intro a ha b hb
    simp only [mem_filter, decide_eq_true_eq] at ha hb
    omega
  -- the rows of one key stand in the sorted list in their order, and there are no others
  have hsub : (us.filter fun a => decide (key a = k)).Sublist
      ((sortByKey key us).filter fun a => decide (key a = k)) := by
    have :=
      (sublist_insertionSort hsame filter_sublist).filter fun a => decide (key a = k)
    simp only [filter_filter, Bool.and_self] at this
    exact this
  have hlen := ((perm_insertionSort (fun a b : α => key a ≤ key b) us).filter
    fun a => decide (key a = k)).length_eq
  rw [latest_eq_head, latest_eq_head, hsub.eq_of_length hlen.symm]

theorem mem_of_mem_dedupLast : ∀ {xs}, a ∈ dedupLast key xs → a ∈ xs
  | [], h => h
  | [_], h => h
  | b :: c :: rest, h => by
    unfold dedupLast at h
    split at h
    · exact mem_cons_of_mem _ (mem_of_mem_dedupLast h)
    rcases mem_cons.mp h with rfl | h
    · exact mem_cons_self ..
    · exact mem_cons_of_mem _ (mem_of_mem_dedupLast h)

theorem dedupLast_sorted :
    ∀ {xs}, (xs.Pairwise fun a b => key a ≤ key b) → Sorted key (dedupLast key xs)
  | [], _ => List.Pairwise.nil
  | [_], _ => pairwise_singleton ..
  | b :: c :: rest, h => by
    obtain ⟨hb, hrest⟩ := pairwise_cons.mp h
    unfold dedupLast
    split
    · exact dedupLast_sorted hrest
    rename_i hne
    refine sorted_cons.mpr ⟨?_, dedupLast_sorted hrest⟩
    intro d hd
    have hc := hb c (mem_cons_self ..)
    rcases mem_cons.mp (mem_of_mem_dedupLast hd) with rfl | hd
    · omega
    have := (pairwise_cons.mp hrest).1 d hd
    omega

theorem mem_dedupLast : ∀ {xs}, (xs.Pairwise fun a b => key a ≤ key b) →
      (a ∈ dedupLast key xs ↔ latest key xs (key a) = some a)
  | [], _ => by simp [dedupLast, latest_nil]
  | [b], _ => by
    rw [latest_cons, latest_nil]
    by_cases h : key b = key a
    · simp [dedupLast, h, eq_comm]
    have hne : a ≠ b := fun heq => h (by rw [heq])
    simp [dedupLast, h, hne]
  | b :: c :: rest, h => by
    obtain ⟨hb, hrest⟩ := pairwise_cons.mp h
    unfold dedupLast
    split
    · rename_i heq
      rw [mem_dedupLast hrest, latest_cons (u := b)]
      by_cases hk : key b = key a
      swap
      · simp [hk]
      -- the neighbour has the same key, so there is a later row of it
      have hsome : latest key (c :: rest) (key a) ≠ none := by
        intro hnone
        exact latest_eq_none.mp hnone c (mem_cons_self ..) (heq.trans hk)
      cases hlast : latest key (c :: rest) (key a) with
      | none => exact absurd hlast hsome
      | some d => simp
    rename_i hne
    rw [mem_cons, mem_dedupLast hrest, latest_cons (u := b)]
    by_cases hk : key b = key a
    · have hnone : latest key (c :: rest) (key a) = none := by
        refine latest_eq_none.mpr ?_
        intro d hd hda
        have hc := hb c (mem_cons_self ..)
        rcases mem_cons.mp hd with rfl | hd
        · omega
        have := (pairwise_cons.mp hrest).1 d hd
        omega
      simp [hnone, hk, eq_comm]
    have hab : a ≠ b := fun heq => hk (by rw [heq])
    simp [hk, hab]

end

/-! ## Walking along two tables -/

section
variable {key} {xs : List α} {a : α} {k : Nat}

theorem Sorted.dropWhile (h : Sorted key xs) (p) : Sorted key (xs.dropWhile p) :=
  h.sublist (dropWhile_sublist p)

theorem mem_dropWhile_lt (h : Sorted key xs) :
    a ∈ xs.dropWhile (fun b => decide (key b < k)) ↔ a ∈ xs ∧ k ≤ key a := by
  induction xs with
  | nil => simp
  | cons b xs ih =>
    obtain ⟨hb, hxs⟩ := sorted_cons.mp h
    rw [dropWhile_cons]
    by_cases hlt : key b < k
    · simp only [hlt, decide_true, if_true, ih hxs, mem_cons]
      constructor
      · rintro ⟨ha, hk⟩
        exact ⟨.inr ha, hk⟩
      rintro ⟨rfl | ha, hk⟩
      · omega
      · exact ⟨ha, hk⟩
    simp only [hlt, decide_false, Bool.false_eq_true, if_false]
    refine ⟨fun ha => ⟨ha, ?_⟩, fun ha => ha.1⟩
    rcases mem_cons.mp ha with rfl | ha
    · omega
    have := hb a ha
    omega

theorem head_any_iff (h : Sorted key xs) :
    (xs.dropWhile fun b => decide (key b < k)).head?.any (fun b => decide (key b = k)) = true ↔
      ∃ b ∈ xs, key b = k := by
  have hmem := fun a => mem_dropWhile_lt (a := a) (k := k) h
  have hsorted := h.dropWhile fun b => decide (key b < k)
  generalize xs.dropWhile (fun b => decide (key b < k)) = ys at hmem hsorted ⊢
  rcases ys with _ | ⟨c, ys⟩
  · simp only [head?_nil, Option.any_none, Bool.false_eq_true, false_iff]
    rintro ⟨b, hb, hk⟩
    exact absurd ((hmem b).mpr ⟨hb, hk.ge⟩) not_mem_nil
  simp only [head?_cons, Option.any_some, decide_eq_true_eq]
  constructor
  · intro hc
    exact ⟨c, ((hmem c).mp (mem_cons_self ..)).1, hc⟩
  rintro ⟨b, hb, hk⟩
  have hge := ((hmem c).mp (mem_cons_self ..)).2
  rcases mem_cons.mp ((hmem b).mpr ⟨hb, hk.ge⟩) with rfl | hb
  · exact hk
  have := (sorted_cons.mp hsorted).1 b hb
  omega

end

end Shoes.Lib.SortedTable
