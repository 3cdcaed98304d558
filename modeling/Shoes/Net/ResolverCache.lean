import Shoes.Lib.Assoc
import Shoes.Lib.Machine

/-! # The caches of resolved names

`ResolverCache` and each shard of `CachingNativeResolver` keep one address for a name, with the
reading of the clock at its insertion. Both make room by the same `evict_for_insert`. -/
namespace Shoes.Net.ResolverCache
open Lib.Assoc Lib.Machine List

variable {K A : Type} [DecidableEq K]

structure CachedResolveResult (A : Type) where
  timestamp : Nat
  addr : A

abbrev Cache (K A : Type) [DecidableEq K] := Map K (CachedResolveResult A)

/-- One turn of the scan for the oldest entry. -/
def older (found : Option K × Nat) (entry : K × CachedResolveResult A) : Option K × Nat :=
  if entry.2.timestamp < found.2 then (some entry.1, entry.2.timestamp) else found

/-- The loop of `evict_for_insert`, of at most as many turns as the cache has entries. -/
def evictOldest (now maxEntries : Nat) : Nat → Cache K A → Cache K A
  | 0, cache => cache
  | turns + 1, cache =>
    if maxEntries ≤ cache.size then
      match (cache.entries.foldl older (none, now)).1 with
      | some key => evictOldest now maxEntries turns (cache.remove key)
      | none => cache
    else cache

def evictForInsert (cache : Cache K A) (now timeout maxEntries : Nat) : Cache K A :=
  let cache := cache.retain fun _ result => now - result.timestamp ≤ timeout
  evictOldest now (max maxEntries 1) cache.size cache

structure Policy where
  timeout : Nat
  maxEntries : Nat
  /-- A lookup removes the expired entry it meets. -/
  removesExpired : Bool

/-- An insertion has two readings of the clock: `CachingNativeResolver` takes another one for the
timestamp, `ResolverCache` the same. -/
inductive Event (K A : Type)
  | lookup (now : Nat) (key : K)
  | insert (now timestamp : Nat) (key : K) (addr : A)

variable (policy : Policy)

def step (cache : Cache K A) : Event K A → Option A × Cache K A
  | .lookup now key =>
    match cache.get key with
    | none => (none, cache)
    | some cached =>
      if now - cached.timestamp ≤ policy.timeout then (some cached.addr, cache)
      else (none, if policy.removesExpired then cache.remove key else cache)
  | .insert now timestamp key addr =>
    (none, (evictForInsert cache now policy.timeout policy.maxEntries).insert key ⟨timestamp, addr⟩)

section
variable {policy} {cache : Cache K A} {e : Event K A} {key : K} {result : CachedResolveResult A}

/-! ## What is cached was inserted -/

theorem get_of_evictOldest (h : (evictOldest now limit turns cache).get key = some result) :
    cache.get key = some result := by
  induction turns generalizing cache with
  | zero => exact h
  | succ turns ih =>
    rw [evictOldest] at h
    grind [Map.get_remove]

theorem get_of_step (h : (step policy cache e).2.get key = some result) :
    (∃ now, e = .insert now result.timestamp key result.addr) ∨ cache.get key = some result := by
  cases e with
  | lookup now name =>
    simp only [step] at h
    grind [Map.get_remove]
  | insert now timestamp name addr =>
    simp only [step, Map.get_insert] at h
    split at h
    next hname =>
      cases h
      exact .inl ⟨now, hname ▸ rfl⟩
    have h := get_of_evictOldest h
    rw [Map.get_retain] at h
    exact .inr (Option.eq_some_of_filter_eq_some h)

theorem get_of_after {es} (h : (after (step policy) cache es).get key = some result) :
    (∃ now, Event.insert now result.timestamp key result.addr ∈ es) ∨
      cache.get key = some result := by
  induction es generalizing cache with
  | nil => exact .inr h
  | cons e es ih =>
    rcases ih h with ⟨now, hmem⟩ | h
    · exact .inl ⟨now, mem_cons_of_mem _ hmem⟩
    · exact (get_of_step h).imp_left fun ⟨now, he⟩ => ⟨now, he ▸ mem_cons_self ..⟩

/-! ## The bound -/

omit [DecidableEq K] in
theorem foldl_older (entries : List (K × CachedResolveResult A)) (found) :
    ((entries.foldl older found).1 = none →
      found.1 = none ∧ ∀ e ∈ entries, found.2 ≤ e.2.timestamp) ∧
    ∀ key, (entries.foldl older found).1 = some key →
      found.1 = some key ∨ key ∈ entries.map Prod.fst := by
  induction entries generalizing found with
  | nil => simp
  | cons e entries ih =>
    have hrest := ih (older found e)
    rw [foldl_cons]
    grind [older]

theorem size_evictOldest (hnew : cache.entries.countP (now ≤ ·.2.timestamp) < limit)
    (hturns : cache.size ≤ turns) : (evictOldest now limit turns cache).size < limit := by
  induction turns generalizing cache with
  | zero => exact hturns.trans_lt (Nat.zero_lt_of_lt hnew)
  | succ turns ih =>
    rw [evictOldest]
    split
    swap
    next hroom => exact not_le.mp hroom
    rename_i hfull
    obtain ⟨hnone, hsome⟩ := foldl_older cache.entries (none, now)
    split
    next key hkey =>
      obtain ⟨e, he, rfl⟩ := mem_map.mp ((hsome key hkey).resolve_left nofun)
      refine ih (filter_sublist.countP_le.trans_lt hnew) (Nat.le_of_lt_succ ?_)
      exact (length_filter_lt_length_iff_exists.mpr ⟨e, he, by simp⟩).trans_le hturns
    rename_i hkey
    have hall := countP_eq_length.mpr fun e he => decide_eq_true ((hnone hkey).2 e he)
    exact absurd hnew (not_lt.mpr (hall ▸ hfull))

/-- Fewer than the maximum of the entries have the present reading of the clock. -/
def Later (policy : Policy) (cache : Cache K A) : Event K A → Prop
  | .lookup .. => True
  | .insert now .. => cache.entries.countP (now ≤ ·.2.timestamp) < max policy.maxEntries 1

instance : Decidable (Later policy cache e) :=
  match e with
  | .lookup .. => .isTrue trivial
  | .insert .. => Nat.decLt ..

theorem size_step (hlater : Later policy cache e) (h : cache.size ≤ max policy.maxEntries 1) :
    (step policy cache e).2.size ≤ max policy.maxEntries 1 := by
  cases e with
  | lookup now name =>
    simp only [step]
    grind [Map.size_remove_le]
  | insert now timestamp name addr =>
    refine (Map.size_insert_le ..).trans (size_evictOldest ?_ le_rfl)
    exact filter_sublist.countP_le.trans_lt hlater

/-- **Bounded and fresh.** A cached address was inserted at most the timeout ago. The cache stays
within its maximum if at every insertion fewer entries than that have the same reading. -/
theorem cache_bounded_fresh {es : List (Event K A)}
    (hlater : Along (step policy) (Later policy) Map.empty es) :
    let cache := after (step policy) Map.empty es
    cache.size ≤ max policy.maxEntries 1 ∧
      ∀ now key addr, (step policy cache (.lookup now key)).1 = some addr →
        ∃ reading timestamp, .insert reading timestamp key addr ∈ es ∧
          now - timestamp ≤ policy.timeout := by
  refine ⟨hlater.invariant (fun _ _ => size_step) (Nat.zero_le _), ?_⟩
  intro now key addr h
  simp only [step] at h
  split at h
  · cases h
  rename_i cached hcached
  split at h <;> cases h
  rename_i hfresh
  obtain ⟨reading, hmem⟩ := (get_of_after hcached).resolve_right (by simp)
  exact ⟨reading, _, hmem, hfresh⟩

/-- Two of the names have the same reading. -/
theorem two_readings_bounded : (after (step ⟨3600, 2, true⟩) Map.empty
      [Event.insert 0 0 "a" 1, .insert 0 0 "b" 2, .insert 1 1 "c" 3]).size ≤ 2 :=
  (@cache_bounded_fresh _ _ _ ⟨3600, 2, true⟩ _ (by decide)).1

/-- A `CachingNativeResolver` shard holds 256 names, and at one reading it takes one more. -/
theorem one_reading_unbounded :
    (after (step ⟨3600, 256, false⟩) Map.empty
      ((range 257).map fun name => Event.insert 0 0 name ())).size = 257 := by
  decide +kernel

end

end Shoes.Net.ResolverCache
