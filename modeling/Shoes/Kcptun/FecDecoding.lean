import Shoes.Kcptun.Fec
import Shoes.Lib.Machine

/-! # What the decoder does with one packet

A packet that is refused can still have made room for its set, or have ended it. What is given out
carries the number of its packet, and no number is given out twice as long as no data packet comes
for a set that is complete. -/
namespace Shoes.Kcptun.FecDecoding
open Lib.Assoc Lib.Bytes Lib.Io Lib.Machine Fec List

/-! ## The ways of a packet -/

/-- What is known of a packet before its set is looked up: the set, the place there and what is
passed on at once. -/
def route (d : FecDecoder) (packet : List UInt8) : Option (Nat × Nat × List (List UInt8)) :=
  let sequence := leNat (packet.take 4)
  let packetType := leNat (slice packet 4 6)
  if (packet.length < fecHeaderSize ∨ d.maxPacketSize < packet.length) ∨
      d.sequenceLimit ≤ sequence then none
  else
    match d.checkPosition packetType (sequence % d.totalShards),
      FecDecoder.directPayload packet packetType with
    | .ok _, .ok result => some (sequence / d.totalShards, sequence % d.totalShards, result)
    | _, _ => none

def free (set : ShardSet) (index : Nat) : Bool := (set.shards[index]?).join.isNone

/-- The set with one more shard. -/
def grown (set : ShardSet) (index : Nat) (shard : List UInt8) : ShardSet :=
  { set with
    maxLen := max set.maxLen shard.length
    shards := set.shards.set index (some shard)
    present := set.present + 1 }

def missing (d : FecDecoder) (set : ShardSet) : List Nat := (List.range d.dataShards).filter (free set)

variable {d : FecDecoder} {packet shard : List UInt8} {setId index : Nat}
  {result : List (List UInt8)}

theorem directPayload_ok {packetType} (h : FecDecoder.directPayload packet packetType = .ok result)
    : result.length ≤ 1 ∧ (result ≠ [] → packet.drop fecHeaderSize ≠ []) := by
  unfold FecDecoder.directPayload at h
  split at h
  · obtain ⟨hlong, h⟩ := of_ite_error h
    obtain ⟨-, ⟨⟩⟩ := of_ite_error h
    refine ⟨le_rfl, fun _ hnil => hlong ?_⟩
    rw [drop_eq_nil_iff, fecHeaderSize] at hnil
    rw [fecDataHeaderSize]
    omega
  cases h
  exact ⟨Nat.zero_le _, fun h => absurd rfl h⟩

theorem decode_route (d packet) : (∃ e, route d packet = none ∧ d.decode packet = (.error e, d)) ∨
    ∃ setId index result, route d packet = some (setId, index, result) ∧
      d.decode packet = (if d.completed.contains setId then (.ok result, d)
        else d.insertShard setId index (packet.drop fecHeaderSize) result) ∧
      (0 < d.totalShards → index < d.totalShards) ∧ result.length ≤ 1 ∧
      (result ≠ [] → packet.drop fecHeaderSize ≠ []) := by
  unfold route FecDecoder.decode
  dsimp only
  by_cases hlen : packet.length < fecHeaderSize ∨ d.maxPacketSize < packet.length
  · rw [if_pos (.inl hlen), if_pos hlen]
    exact .inl ⟨_, rfl, rfl⟩
  by_cases hseq : d.sequenceLimit ≤ leNat (packet.take 4)
  · rw [if_pos (.inr hseq), if_neg hlen, if_pos hseq]
    exact .inl ⟨_, rfl, rfl⟩
  rw [if_neg (not_or.mpr ⟨hlen, hseq⟩), if_neg hlen, if_neg hseq]
  generalize d.checkPosition _ _ = position
  rcases position with _ | _
  · exact .inl ⟨_, rfl, rfl⟩
  cases hdirect : FecDecoder.directPayload packet (leNat (slice packet 4 6)) with
  | error => exact .inl ⟨_, rfl, rfl⟩
  | ok => exact .inr ⟨_, _, _, rfl, rfl, Nat.mod_lt _, directPayload_ok hdirect⟩

/-- What becomes of a shard that comes to a set. -/
inductive Inserted (d : FecDecoder) (set : ShardSet) (setId index : Nat) (shard : List UInt8)
    (result : List (List UInt8)) : Except IoError (List (List UInt8)) × FecDecoder → Prop
  | again (taken : free set index = false) : Inserted d set setId index shard result (.ok [], d)
  | empty (isFree : free set index = true) (isNil : shard = []) (e : IoError) :
      Inserted d set setId index shard result (.error e, d)
  | kept (isFree : free set index = true) (hshard : shard ≠ [])
      (few : (grown set index shard).present < d.dataShards) :
      Inserted d set setId index shard result
        (.ok result, { d with sets := d.sets.insert setId (grown set index shard) })
  | failed (isFree : free set index = true) (hshard : shard ≠ [])
      (many : ¬(grown set index shard).present < d.dataShards)
      (lacks : missing d (grown set index shard) ≠ []) (e : IoError)
      (hrecover : d.recover (grown set index shard) (missing d (grown set index shard)) = .error e) :
      Inserted d set setId index shard result
        (.error e, { d with sets := d.sets.remove setId })
  | whole (isFree : free set index = true) (hshard : shard ≠ [])
      (many : ¬(grown set index shard).present < d.dataShards) (recovered : List (List UInt8))
      (hrecover : missing d (grown set index shard) = [] ∧ recovered = [] ∨
        missing d (grown set index shard) ≠ [] ∧
        d.recover (grown set index shard) (missing d (grown set index shard)) = .ok recovered) :
      Inserted d set setId index shard result (.ok (result ++ recovered),
        FecDecoder.markCompleted { d with sets := d.sets.remove setId } setId)

theorem insertShard_inserted (d : FecDecoder) (setId index shard result) :
    Inserted (d.entry setId).2 (d.entry setId).1 setId index shard result
      (d.insertShard setId index shard result) := by
  unfold FecDecoder.insertShard
  generalize d.entry setId = entry
  obtain ⟨set, d⟩ := entry
  dsimp only
  split
  next htaken => exact .again (by simpa [free] using htaken)
  rename_i hfree
  have hfree : free set index = true := by simpa [free] using hfree
  split
  next hnil => exact .empty hfree hnil _
  rename_i hshard
  split
  next hfew => exact .kept hfree hshard hfew
  rename_i hmany
  unfold FecDecoder.finishSet
  dsimp only
  split
  next hnone =>
    have hwhole := @Inserted.whole d set setId index shard result hfree hshard hmany []
      (.inl ⟨hnone, rfl⟩)
    rwa [append_nil] at hwhole
  rename_i hsome
  split
  next e hrecover => exact .failed hfree hshard hmany hsome e hrecover
  next recovered hrecover => exact .whole hfree hshard hmany recovered (.inr ⟨hsome, hrecover⟩)

/-! ## Packets that are refused -/

theorem evictOldestIfFull_eq (d : FecDecoder) :
    d.evictOldestIfFull = { d with sets := d.evictOldestIfFull.sets } := by
  unfold FecDecoder.evictOldestIfFull
  split
  · rfl
  · split <;> rfl

/-- Nothing but the sets and the count of arrivals changes when a set is looked up, and these only
if it was not there. -/
theorem entry_keeps (d : FecDecoder) (setId) :
    ∃ arrival sets, (d.entry setId).2 = { d with arrival := arrival, sets := sets } ∧
      sets.get setId = some (d.entry setId).1 ∧
      (d.sets.get setId = none ∧ arrival ≠ d.arrival ∨
        d.sets.get setId ≠ none ∧ arrival = d.arrival ∧ sets = d.sets) := by
  unfold FecDecoder.entry
  split
  · next set hset => exact ⟨d.arrival, d.sets, rfl, hset, .inr ⟨by rw [hset]; simp, rfl, rfl⟩⟩
  rename_i hnone
  rw [evictOldestIfFull_eq]
  exact ⟨_, _, rfl, Map.get_insert_self .., .inl ⟨hnone, by simp⟩⟩

/-- A packet that is refused leaves the decoder as it was, and is no good data packet. -/
def RefusedCleanly (d : FecDecoder) (packet : List UInt8) : Prop :=
  ∀ e d', d.decode packet = (.error e, d') →
    d' = d ∧ ∀ setId index result, route d packet = some (setId, index, result) → result = []

/-- The shard is refused when its set was made for it, or together with its set. -/
def Disturbs (d : FecDecoder) (setId index : Nat) (shard : List UInt8) : Prop :=
  let set := grown (d.entry setId).1 index shard
  free (d.entry setId).1 index = true ∧
    if shard = [] then d.sets.get setId = none
    else ¬set.present < d.dataShards ∧ missing d set ≠ [] ∧
      ∃ e, d.recover set (missing d set) = .error e

theorem insertShard_clean_iff (hshard : result ≠ [] → shard ≠ []) :
    (∀ e d', d.insertShard setId index shard result = (.error e, d') → d' = d ∧ result = []) ↔
      ¬Disturbs d setId index shard := by
  obtain ⟨_, _, hkeeps, -, hkind⟩ := entry_keeps d setId
  have hcases := insertShard_inserted d setId index shard result
  unfold Disturbs
  dsimp only
  rw [hkeeps] at hcases
  generalize (d.entry setId).1 = set at hcases ⊢
  generalize d.insertShard setId index shard result = out at hcases ⊢
  cases hcases with
  | again taken =>
    refine iff_of_true nofun fun h => ?_
    rw [taken] at h
    cases h.1
  | empty isFree isNil =>
    subst isNil
    rcases hkind with ⟨hnone, hne⟩ | ⟨hsome, rfl, rfl⟩
    · exact iff_of_false (fun h => hne (congrArg FecDecoder.arrival (h _ _ rfl).1))
        (not_not_intro ⟨isFree, hnone⟩)
    refine iff_of_true (fun e' d' h => ?_) fun h => hsome h.2
    cases h
    exact ⟨rfl, Classical.byContradiction fun hr => hshard hr rfl⟩
  | kept isFree hne few =>
    refine iff_of_true nofun fun h => ?_
    rw [if_neg hne] at h
    exact h.2.1 few
  | failed isFree hne many lacks e hrecover =>
    refine iff_of_false (fun h => ?_) (not_not_intro ⟨isFree, ?_⟩)
    · have hsame := (h _ _ rfl).1
      rcases hkind with ⟨-, hne⟩ | ⟨hsome, rfl, rfl⟩
      · exact hne (congrArg FecDecoder.arrival hsame)
      have hget := congrArg (fun d => d.sets.get setId) hsame
      rw [Map.get_remove_self] at hget
      exact hsome hget.symm
    rw [if_neg hne]
    exact ⟨many, lacks, e, hrecover⟩
  | whole isFree hne many recovered hrecover =>
    refine iff_of_true nofun fun h => ?_
    rw [if_neg hne] at h
    rcases hrecover with ⟨hnone, -⟩ | ⟨-, hok⟩
    · exact h.2.2.1 hnone
    obtain ⟨e, he⟩ := h.2.2.2
    cases he.symm.trans hok

/-- **When a refusal is clean.** A packet that is refused leaves the decoder as it was, unless it is
a free shard of no bytes whose set was made for it, or recovery fails with it. -/
theorem refused_cleanly_iff (d : FecDecoder) (packet : List UInt8) :
    RefusedCleanly d packet ↔ ∀ setId index result, route d packet = some (setId, index, result) →
      d.completed.contains setId = false →
      ¬Disturbs d setId index (packet.drop fecHeaderSize) := by
  unfold RefusedCleanly
  rcases decode_route d packet with
    ⟨e, hroute, hdecode⟩ | ⟨setId, index, result, hroute, hdecode, -, -, hshard⟩
  · rw [hroute, hdecode]
    refine iff_of_true (fun e' d' h => ?_) nofun
    cases h
    exact ⟨rfl, nofun⟩
  have hclean := @insertShard_clean_iff d _ setId index _ hshard
  by_cases hdone : setId ∈ d.completed
  · simp [hroute, hdecode, hdone]
  · simpa [hroute, hdecode, hdone] using hclean

/-- A parity packet of no shard for a set that is not known is refused, and the set is there. -/
theorem empty_shard_makes_set :
    ∃ d, FecDecoder.withMaxShardSets (fun _ _ => .ok ⟨.ok, .ok⟩) 2 1 1400 64 = .ok d ∧
      (d.decode (Fec.packet 2 fecTypeParity [])).1.toOption = none ∧ d.sets.size = 0 ∧
      (d.decode (Fec.packet 2 fecTypeParity [])).2.sets.size = 1 :=
  ⟨_, rfl, by decide +kernel, rfl, by decide +kernel⟩

/-! ## Packets that are given out -/

/-- What is given out for a packet, each payload with the number of the packet it belongs to. -/
def given (d : FecDecoder) (packet : List UInt8) : List (Nat × List UInt8) :=
  match route d packet, (d.decode packet).1 with
  | some (setId, index, result), .ok out =>
    ((List.replicate result.length index ++
      missing d (grown (d.entry setId).1 index (packet.drop fecHeaderSize))).map
        (setId * d.totalShards + ·)).zip out
  | _, _ => []

/-- A decoder and what it has given out. -/
structure Watched where
  decoder : FecDecoder
  out : List (Nat × List UInt8)

namespace Watched

section
variable (w : Watched) (packet : List UInt8)

def take : Except IoError (List (List UInt8)) × Watched :=
  ((w.decoder.decode packet).1, ⟨(w.decoder.decode packet).2, w.out ++ given w.decoder packet⟩)

/-- If anything was given out of the packet's set, the set is pending or known to be complete. -/
def remembers : Bool :=
  (route w.decoder packet).all fun (setId, _, _) =>
    (w.decoder.sets.get setId).isSome || w.decoder.completed.contains setId ||
      w.out.all fun sent => sent.1 / w.decoder.totalShards != setId

/-- No data packet comes for a set that is known to be complete. -/
def timely : Bool :=
  (route w.decoder packet).all fun (setId, _, result) =>
    !w.decoder.completed.contains setId || result.isEmpty

end

/-- No number is given out twice, and one that was given out has its place in the set taken. -/
structure Sound (w : Watched) : Prop where
  pos : 0 < w.decoder.totalShards
  data : w.decoder.dataShards ≤ w.decoder.totalShards
  nodup : (w.out.map Prod.fst).Nodup
  slots : ∀ id set, w.decoder.sets.get id = some set →
    set.shards.length = w.decoder.totalShards ∧ ∀ i < w.decoder.totalShards,
      id * w.decoder.totalShards + i ∈ w.out.map Prod.fst → free set i = false

variable {out : List (Nat × List UInt8)} {set : ShardSet} {sets : Map Nat ShardSet}

theorem Sound.entry (h : Sound ⟨d, out⟩) (hnew : d.sets.get setId = none →
      ∀ i < d.totalShards, setId * d.totalShards + i ∉ out.map Prod.fst) :
    Sound ⟨(d.entry setId).2, out⟩ := by
  unfold FecDecoder.entry
  split
  · exact h
  rename_i hnone
  have hkept : ∀ id set, d.evictOldestIfFull.sets.get id = some set → d.sets.get id = some set := by
    unfold FecDecoder.evictOldestIfFull
    split
    · exact fun _ _ h => h
    split
    · exact fun _ _ h => h
    · exact fun id set h => (Map.get_of_remove _ h).2
  rw [evictOldestIfFull_eq]
  refine ⟨h.pos, h.data, h.nodup, fun id set hid => ?_⟩
  rw [Map.get_insert] at hid
  split at hid
  next heq =>
    cases hid
    refine ⟨length_replicate, fun i hi hmem => absurd hmem ?_⟩
    rw [heq]
    exact hnew hnone i hi
  · exact h.slots id set (hkept id set hid)

theorem number_div (setId : Nat) {i total} (hi : i < total) :
    (setId * total + i) / total = setId := by
  rw [mul_comm, Nat.mul_add_div (by omega), Nat.div_eq_of_lt hi, add_zero]

theorem Sound.give {places : List Nat} {payloads : List (List UInt8)} (h : Sound ⟨d, out⟩)
    (hget : d.sets.get setId = some set) (hlen : places.length = payloads.length)
    (hfree : places.Nodup ∧ ∀ i ∈ places, i < d.totalShards ∧ free set i = true)
    (hsets : ∀ id s, sets.get id = some s → id ≠ setId ∧ d.sets.get id = some s ∨
      id = setId ∧ s.shards.length = d.totalShards ∧
        ∀ i, free s i = true → free set i = true ∧ i ∉ places) : Sound ⟨{ d with sets := sets },
      out ++ (places.map (setId * d.totalShards + ·)).zip payloads⟩ ∧
    ((places.map (setId * d.totalShards + ·)).zip payloads).map Prod.snd = payloads := by
  obtain ⟨hnodup, hfree⟩ := hfree
  have hnumbers := @List.map_fst_zip _ _ (places.map (setId * d.totalShards + ·)) payloads
    (by simp [hlen])
  refine ⟨⟨h.pos, h.data, ?_, fun id s hid => ?_⟩, map_snd_zip (by simp [hlen])⟩
  · rw [map_append, hnumbers]
    refine nodup_append.mpr ⟨h.nodup, hnodup.map fun _ _ => Nat.add_left_cancel, ?_⟩
    intro n hn m hm heq
    obtain ⟨i, hi, rfl⟩ := mem_map.mp hm
    have htaken := (h.slots setId set hget).2 i (hfree i hi).1 (heq ▸ hn)
    rw [(hfree i hi).2] at htaken
    cases htaken
  rw [map_append, hnumbers]
  rcases hsets id s hid with ⟨hne, hid⟩ | ⟨rfl, hlen, htaken⟩
  · obtain ⟨hlen, hslots⟩ := h.slots id s hid
    refine ⟨hlen, fun i hi hmem => ?_⟩
    rcases mem_append.mp hmem with hold | hnew
    · exact hslots i hi hold
    obtain ⟨j, hj, heq⟩ := mem_map.mp hnew
    have hid := number_div setId (hfree j hj).1
    rw [heq, number_div id hi] at hid
    exact absurd hid hne
  refine ⟨hlen, fun i hi hmem => eq_false_of_ne_true fun hopen => ?_⟩
  obtain ⟨hopen, hnot⟩ := htaken i hopen
  rcases mem_append.mp hmem with hold | hnew
  · rw [(h.slots id set hget).2 i hi hold] at hopen
    cases hopen
  obtain ⟨j, hj, heq⟩ := mem_map.mp hnew
  exact hnot (Nat.add_left_cancel heq ▸ hj)

theorem free_grown {i} (hlt : index < set.shards.length)
    (h : free (grown set index shard) i = true) : i ≠ index ∧ free set i = true := by
  unfold free grown at h
  rw [List.getElem?_set] at h
  split at h
  · simp [hlt] at h
  · exact ⟨fun heq => ‹¬_› heq.symm, h⟩

theorem places_free {n} (hlen : set.shards.length = d.totalShards) (hindex : index < d.totalShards)
    (hfree : free set index = true) (hn : n ≤ 1) (hdata : d.dataShards ≤ d.totalShards) :
    (List.replicate n index ++ missing d (grown set index shard)).Nodup ∧
      ∀ i ∈ List.replicate n index ++ missing d (grown set index shard),
        i < d.totalShards ∧ free set i = true := by
  have hmissing : ∀ i ∈ missing d (grown set index shard),
      i ≠ index ∧ i < d.totalShards ∧ free set i = true := by
    intro i hi
    obtain ⟨hrange, hi⟩ := mem_filter.mp hi
    obtain ⟨hne, hi⟩ := free_grown (hlen ▸ hindex) hi
    exact ⟨hne, (mem_range.mp hrange).trans_le hdata, hi⟩
  refine ⟨nodup_append.mpr ⟨nodup_replicate.mpr hn, nodup_range.filter _, ?_⟩, ?_⟩
  · intro i hi j hj heq
    exact (hmissing j hj).1 (heq ▸ eq_of_mem_replicate hi)
  intro i hi
  rcases mem_append.mp hi with hi | hi
  · rw [eq_of_mem_replicate hi]
    exact ⟨hindex, hfree⟩
  · exact (hmissing i hi).2

theorem length_of_mapM {α β ε : Type} {f : α → Except ε β} {ys : List β} {xs : List α}
    (h : xs.mapM f = .ok ys) : xs.length = ys.length := by
  induction xs generalizing ys with
  | nil =>
    cases h
    rfl
  | cons x xs ih =>
    obtain ⟨y, _, -, hrest, rfl⟩ := exists_of_mapM_ok h
    rw [length_cons, length_cons, ih hrest]

theorem zip_append_left {α β : Type} {xs : List α} {zs : List β} (ys)
    (h : xs.length = zs.length) : (xs ++ ys).zip zs = xs.zip zs := by
  have hzip := @List.zip_append _ _ xs ys zs [] h
  rwa [append_nil, zip_nil_right, append_nil] at hzip

theorem Sound.take {w} (h : Sound w) (hr : w.remembers packet = true) (ht : w.timely packet = true)
    : Sound (w.take packet).2 ∧
      (given w.decoder packet).map Prod.snd = (w.decoder.decode packet).1.toOption.getD [] := by
  obtain ⟨d, out⟩ := w
  unfold Watched.take given
  unfold remembers at hr
  unfold timely at ht
  dsimp only at *
  rcases decode_route d packet with
    ⟨e, hroute, hdecode⟩ | ⟨setId, index, result, hroute, hdecode, hindex, hone, -⟩
  · simp only [hroute, hdecode, append_nil]
    exact ⟨h, rfl⟩
  rw [hroute] at hr ht ⊢
  by_cases hdone : setId ∈ d.completed
  · have hnil : result = [] := by simpa [hdone] using ht
    have hdecode : d.decode packet = (.ok [], d) := by simp [hdecode, hdone, hnil]
    simp only [hdecode, zip_nil_right, append_nil]
    exact ⟨h, rfl⟩
  have hentry : Sound ⟨(d.entry setId).2, out⟩ := by
    refine h.entry fun hnone i hi hmem => ?_
    obtain ⟨sent, hsent, hnum⟩ := mem_map.mp hmem
    have hnot : ∀ a b, (a, b) ∈ out → a / d.totalShards ≠ setId := by simpa [hnone, hdone] using hr
    refine hnot sent.1 sent.2 hsent ?_
    rw [hnum, number_div setId hi]
  obtain ⟨_, _, hkeeps, hget, -⟩ := entry_keeps d setId
  have hcases := insertShard_inserted d setId index (packet.drop fecHeaderSize) result
  simp only [hdecode, contains_iff_mem, hdone, if_false]
  rw [hkeeps] at hcases hentry
  have hlen := (hentry.slots setId _ hget).1
  generalize d.insertShard setId index (packet.drop fecHeaderSize) result = answer at *
  have hplaces := fun hfree => @places_free d (packet.drop fecHeaderSize) index _ _
    hlen (hindex h.pos) hfree hone h.data
  cases hcases with
  | again =>
    simp only [zip_nil_right, append_nil]
    exact ⟨hentry, rfl⟩
  | empty =>
    simp only [append_nil]
    exact ⟨hentry, rfl⟩
  | failed =>
    simp only [append_nil]
    exact ⟨⟨h.pos, h.data, h.nodup, fun id set hid =>
      hentry.slots id set (Map.get_of_remove _ hid).2⟩, rfl⟩
  | kept isFree =>
    obtain ⟨hnodup, hfree⟩ := hplaces isFree
    dsimp only
    rw [map_append, zip_append_left _ (by simp)]
    refine hentry.give hget (by simp) ⟨hnodup.of_append_left, fun i hi =>
      hfree i (mem_append_left _ hi)⟩ fun id s hid => ?_
    rw [Map.get_insert] at hid
    split at hid
    · cases hid
      refine .inr ⟨‹_›, by simpa [grown] using hlen, fun i hi => ?_⟩
      obtain ⟨hne, hi⟩ := free_grown (hlen ▸ hindex h.pos) hi
      exact ⟨hi, fun hmem => hne (eq_of_mem_replicate hmem)⟩
    · exact .inl ⟨‹_›, hid⟩
  | whole isFree hshard many recovered hrecover =>
    have hcount : (List.replicate result.length index ++ missing d (grown (d.entry setId).1
        index (packet.drop fecHeaderSize))).length = (result ++ recovered).length := by
      rw [length_append, length_append, length_replicate]
      rcases hrecover with ⟨hnil, rfl⟩ | ⟨-, hok⟩
      · exact congrArg (result.length + List.length ·) hnil
      obtain ⟨_, -, hok⟩ := exists_of_bind_ok hok
      exact congrArg (result.length + ·) (length_of_mapM hok)
    obtain ⟨hsound, hpayloads⟩ := hentry.give hget hcount (hplaces isFree) fun id s hid =>
      .inl (Map.get_of_remove _ hid)
    exact ⟨{ hsound with }, hpayloads⟩

theorem Sound.run {w} (h : Sound w) {packets}
    (hrun : Along Watched.take (fun w packet => w.remembers packet ∧ w.timely packet) w packets) :
    (after Watched.take w packets).out.map Prod.snd = w.out.map Prod.snd ++
        (w.decoder.decodeAll packets).flatMap (·.toOption.getD []) ∧
      Sound (after Watched.take w packets) := by
  induction packets generalizing w with
  | nil => exact ⟨(append_nil _).symm, h⟩
  | cons packet packets ih =>
    obtain ⟨hnext, hout⟩ := h.take hrun.1.1 hrun.1.2
    obtain ⟨hrest, hsound⟩ := ih hnext hrun.2
    refine ⟨hrest.trans ?_, hsound⟩
    rw [FecDecoder.decodeAll, flatMap_cons, ← append_assoc, ← hout, ← map_append]
    rfl

end Watched

theorem ok_of_mapError {α ε ε' : Type} {x : Except ε α} {f : ε → ε'} {a : α}
    (h : x.mapError f = .ok a) : x = .ok a := by
  rcases x with _ | _
  · cases h
  cases h
  rfl

variable {reedSolomon : Nat → Nat → Except String Codec}
  {dataShards parityShards maxPacketSize maxShardSets : Nat}

theorem decoder_new (h : FecDecoder.withMaxShardSets reedSolomon dataShards parityShards
      maxPacketSize maxShardSets = .ok d) :
    ∃ codec, reedSolomon dataShards parityShards = .ok codec ∧ 0 < dataShards ∧
      0 < maxShardSets ∧ d = ⟨codec, dataShards, dataShards + parityShards,
        sequenceLimit (dataShards + parityShards), maxPacketSize, maxShardSets, 0, .empty, [],
    []⟩ := by
  obtain ⟨u, hvalid, h⟩ := exists_of_bind_ok h
  split at h
  · cases h
  obtain ⟨codec, hlib, h⟩ := exists_of_bind_ok h
  cases h
  unfold validateParameters at hvalid
  split at hvalid
  · cases hvalid
  · exact ⟨codec, ok_of_mapError hlib, by omega, by omega, rfl⟩

/-- **Each packet is given out once.** As long as packets come for sets that the decoder remembers,
and no data packet for one that is complete, every payload is the one of another packet. -/
theorem given_once (packets : List (List UInt8))
    (hnew : FecDecoder.withMaxShardSets reedSolomon dataShards parityShards maxPacketSize
      maxShardSets = .ok d)
    (hrun : Along Watched.take (fun w packet => w.remembers packet ∧ w.timely packet) ⟨d, []⟩
      packets) : (after Watched.take ⟨d, []⟩ packets).out.map Prod.snd =
        (d.decodeAll packets).flatMap (·.toOption.getD []) ∧
      ((after Watched.take ⟨d, []⟩ packets).out.map Prod.fst).Nodup := by
  obtain ⟨_, -, hdata, -, rfl⟩ := decoder_new hnew
  have hall := fun hstart => @Watched.Sound.run _ hstart packets hrun
  obtain ⟨hout, hsound⟩ := hall
    ⟨Nat.add_pos_left hdata _, Nat.le_add_right _ _, nodup_nil, nofun⟩
  exact ⟨hout, hsound.nodup⟩

/-- A packet that comes twice while its set is pending is given out once. -/
theorem given_once_pending :
    ∃ d, FecDecoder.withMaxShardSets (fun _ _ => .ok ⟨.ok, .ok⟩) 2 1 1400 64 = .ok d ∧
      let first := Fec.packet 0 fecTypeData (dataShard [7])
      let packets := [first, first, Fec.packet 1 fecTypeData (dataShard [8])]
      (d.decodeAll packets).map (·.toOption.getD []) = [[[7]], [], [[8]]] ∧
      ((after Watched.take ⟨d, []⟩ packets).out.map Prod.fst).Nodup :=
  ⟨_, rfl, by decide +kernel,
    (@given_once _ (fun _ _ => .ok ⟨.ok, .ok⟩) 2 1 1400 64 _ rfl (by decide +kernel)).2⟩

/-- A data packet of a set that is complete is given out again. -/
theorem given_again :
    ∃ d, FecDecoder.withMaxShardSets (fun _ _ => .ok ⟨.ok, .ok⟩) 1 1 1400 64 = .ok d ∧
      let packet := Fec.packet 0 fecTypeData (dataShard [7])
      (after Watched.take ⟨d, []⟩ [packet, packet]).out = [(0, [7]), (0, [7])] ∧
      (d.decodeAll [packet, packet]).map (·.toOption.getD []) = [[[7]], [[7]]] :=
  ⟨_, rfl, by decide +kernel, by decide +kernel⟩

end Shoes.Kcptun.FecDecoding
