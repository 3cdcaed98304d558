import Shoes.Lib.IpText

/-! # Text form of IPv6 addresses

`Ipv6Addr`'s parser and `Display`. Printing picks the longest run of zero groups for `::`; parsing
pads between the groups before and after it. The round trip needs only that the run is all zeros. -/
namespace Shoes.Lib.Ipv6Text
open Bytes IpText List

structure Ipv6Addr where
  segments : List UInt16
  segments_length : segments.length = 8
  deriving DecidableEq, Repr

def Ipv6Addr.octets (ip : Ipv6Addr) : List UInt8 := ip.segments.flatMap u16ToBeBytes

/-- `Ipv6Addr::from` on the first sixteen bytes of a slice. -/
def Ipv6Addr.ofOctets (bs : List UInt8) : Ipv6Addr where
  segments := (range 8).map fun i => u16FromBeBytes (bs.getD (2 * i) 0) (bs.getD (2 * i + 1) 0)
  segments_length := by simp

theorem Ipv6Addr.ext_segments {x y : Ipv6Addr} (h : x.segments = y.segments) : x = y := by
  cases x; cases y; cases h; rfl

@[simp] theorem Ipv6Addr.octets_length (ip : Ipv6Addr) : ip.octets.length = 16 := by
  simp [Ipv6Addr.octets, length_flatMap, ip.segments_length]

@[simp] theorem Ipv6Addr.ofOctets_octets (ip rest) :
    Ipv6Addr.ofOctets (ip.octets ++ rest) = ip := by
  obtain ⟨segments, hl⟩ := ip
  match segments, hl with
  | [s0, s1, s2, s3, s4, s5, s6, s7], _ =>
    apply Ipv6Addr.ext_segments
    simp [Ipv6Addr.ofOctets, Ipv6Addr.octets, u16ToBeBytes, range_succ]

/-! ## Printing -/

/-- A run of consecutive segments. -/
structure Span where
  start : Nat
  len : Nat
  deriving DecidableEq, Repr

/-- The loop over the segments that finds the longest run of zeros, the first one on
a tie; `i` is the index of the next segment. -/
def longestZeroes : List UInt16 → Nat → Span → Span → Span
  | [], _, _, longest => longest
  | s :: rest, i, current, longest =>
    if s = 0 then
      let current := { start := if current.len = 0 then i else current.start,
                       len := current.len + 1 : Span }
      longestZeroes rest (i + 1) current (if current.len > longest.len then current else longest)
    else longestZeroes rest (i + 1) ⟨0, 0⟩ longest

/-- The groups after the first one, each in hexadecimal after a colon. -/
def fmtTail (gs : List UInt16) : List UInt8 := gs.flatMap fun s => 58 :: numText 16 s.toNat

/-- `fmt_subslice`: groups in hexadecimal with colons between them. -/
def fmtSubslice : List UInt16 → List UInt8
  | [] => []
  | g :: gs => numText 16 g.toNat ++ fmtTail gs

def Ipv6Addr.toIpv4Mapped (ip : Ipv6Addr) : Option Ipv4Addr :=
  match ip.segments with
  | [0, 0, 0, 0, 0, 0xffff, ab, cd] => some (Ipv4Addr.ofOctets (u16ToBeBytes ab ++ u16ToBeBytes cd))
  | _ => none

/-- `Display for Ipv6Addr`. -/
def Ipv6Addr.text (ip : Ipv6Addr) : List UInt8 :=
  match ip.toIpv4Mapped with
  | some ip4 => 58 :: 58 :: (numText 16 0xffff ++ 58 :: ip4.text)
  | none =>
    let zeroes := longestZeroes ip.segments 0 ⟨0, 0⟩ ⟨0, 0⟩
    if zeroes.len > 1 then
      fmtSubslice (ip.segments.take zeroes.start) ++
        58 :: 58 :: fmtSubslice (ip.segments.drop (zeroes.start + zeroes.len))
    else fmtSubslice ip.segments

/-- Every segment of the run is zero, and the run lies inside the list. -/
def Span.Zero (z : Span) (segs : List UInt16) : Prop :=
  z.start + z.len ≤ segs.length ∧ ∀ j, z.start ≤ j → j < z.start + z.len → segs[j]? = some 0

theorem longestZeroes_zero :
    ∀ (rest : List UInt16) (i : Nat) (current longest : Span), i + rest.length = segs.length →
      segs.drop i = rest → current.Zero segs → (current.len ≠ 0 → current.start + current.len = i) →
      longest.Zero segs → (longestZeroes rest i current longest).Zero segs
  | [], _, _, _, _, _, _, _, hl => hl
  | s :: rest, i, current, longest, hlen, hdrop, hc, hend, hl => by
    have hs : segs[i]? = some s := by rw [← head?_drop, hdrop]; rfl
    have hdrop' : segs.drop (i + 1) = rest := by rw [← tail_drop, hdrop]; rfl
    have hlen' : i + 1 + rest.length = segs.length := by simp at hlen; omega
    unfold longestZeroes
    split
    swap
    · exact longestZeroes_zero rest (i + 1) _ _ hlen' hdrop' ⟨Nat.zero_le _, by simp⟩ (by simp) hl
    rename_i hz
    subst hz
    -- the run that ends at `i` grows by this segment
    have hc' : Span.Zero ⟨if current.len = 0 then i else current.start, current.len + 1⟩ segs := by
      by_cases h0 : current.len = 0
      · simp only [h0, if_true]
        refine ⟨by dsimp only; omega, fun j h1 h2 => ?_⟩
        have hj : j = i := by dsimp only at h1 h2; omega
        rw [hj, hs]
      simp only [h0, if_false]
      have he := hend h0
      refine ⟨by dsimp only; omega, fun j h1 h2 => ?_⟩
      by_cases hj : j = i
      · rw [hj, hs]
      · exact hc.2 j h1 (by dsimp only at h2; omega)
    refine longestZeroes_zero rest (i + 1) _ _ hlen' hdrop' hc' ?_ ?_
    · intro _
      by_cases h0 : current.len = 0
      · simp [h0]
      have he := hend h0
      simp only [h0, if_false]
      omega
    by_cases hg : current.len + 1 > longest.len
    · rw [if_pos hg]; exact hc'
    · rw [if_neg hg]; exact hl

theorem Span.Zero.split {z : Span} {segs : List UInt16} (h : z.Zero segs) :
    segs.take z.start ++ replicate z.len 0 ++ segs.drop (z.start + z.len) = segs := by
  have hmid : (segs.drop z.start).take z.len = replicate z.len 0 := by
    apply ext_getElem?
    intro j
    by_cases hj : j < z.len
    · rw [getElem?_take_of_lt hj, getElem?_drop, h.2 _ (by omega) (by omega),
        getElem?_replicate_of_lt hj]
    · rw [getElem?_eq_none, getElem?_eq_none] <;> simp <;> omega
  rw [← hmid, append_assoc, ← drop_drop, take_append_drop, take_append_drop]

/-! ## Parsing -/

/-- One group: at most four hexadecimal digits. -/
def readGroup : List UInt8 → Option (Nat × List UInt8) := readNumber 16 4 0xffff true

/-- `read_groups`: groups separated by colons into the `remaining` of `limit` slots, with an IPv4
address accepted in place of the last two. It returns the groups, whether they end in an IPv4
address, and the rest. -/
def readGroups (limit : Nat) : Nat → List UInt16 → List UInt8 → List UInt16 × Bool × List UInt8
  | 0, acc, bs => (acc, false, bs)
  | remaining + 1, acc, bs =>
    match (if acc.length < limit - 1 then readSeparator 58 acc.length readIpv4Addr bs else none) with
    | some (ip4, rest) =>
      (acc ++ [u16FromBeBytes ip4.a ip4.b, u16FromBeBytes ip4.c ip4.d], true, rest)
    | none =>
      match readSeparator 58 acc.length readGroup bs with
      | some (g, rest) => readGroups limit remaining (acc ++ [UInt16.ofNat g]) rest
      | none => (acc, false, bs)

/-- Eight segments from the groups on the two sides of `::`. -/
def padGroups (head tail : List UInt16) : Ipv6Addr where
  segments := ((head ++ replicate (8 - head.length - tail.length) 0 ++ tail).take 8) ++
    replicate (8 - (head ++ replicate (8 - head.length - tail.length) 0 ++ tail).length) 0
  segments_length := by simp only [length_append, length_take, length_replicate]; omega

def readIpv6Addr (bs : List UInt8) : Option (Ipv6Addr × List UInt8) :=
  let (head, headIpv4, rest) := readGroups 8 8 [] bs
  if head.length = 8 then some (padGroups head [], rest)
  -- an IPv4 part is not allowed before `::`
  else if headIpv4 then none
  else match rest with
    | 58 :: 58 :: rest =>
      -- `::` stands for at least one group
      let limit := 8 - (head.length + 1)
      let (tail, _, rest) := readGroups limit limit [] rest
      some (padGroups head tail, rest)
    | _ => none

/-- `Ipv6Addr::from_str`. -/
def parseIpv6 (bs : List UInt8) : Option Ipv6Addr :=
  match readIpv6Addr bs with
  | some (ip, []) => some ip
  | _ => none

theorem padGroups_segments {head tail} (h : head.length + tail.length ≤ 8) :
    (padGroups head tail).segments =
      head ++ replicate (8 - head.length - tail.length) 0 ++ tail := by
  have hl : (head ++ replicate (8 - head.length - tail.length) 0 ++ tail).length = 8 := by
    simp only [length_append, length_replicate]; omega
  simp only [padGroups, hl, Nat.sub_self, replicate_zero, append_nil]
  exact take_of_length_le (by omega)

theorem stops_colon (radix bs) : Stops radix (58 :: bs) := by
  intro b hb
  simp only [head?_cons, Option.mem_def, Option.some.injEq] at hb
  subst hb
  simp [toDigit]

theorem readGroup_text (g : UInt16) (h : Stops 16 rest) :
    readGroup (numText 16 g.toNat ++ rest) = some (g.toNat, rest) := by
  have hg := g.toNat_lt
  exact readNumber_numText (by decide) (by decide) (by decide) (by omega) (by omega) h

theorem readIpv4Addr_none (h : (46 : UInt8) ∉ bs) : readIpv4Addr bs = none := by
  unfold readIpv4Addr
  simp only [readSeparator, if_true]
  rcases ha : readOctet bs with _ | r
  · rfl
  obtain ⟨a, rest⟩ := r
  have hs : rest <:+ bs := readNumber_suffix ha
  rcases rest with _ | ⟨c, _⟩
  · rfl
  have hc : c ≠ 46 := fun he => h (hs.mem (by simp [he]))
  simp [hc]

theorem readIpv4Addr_stops (h : Stops 10 bs) : readIpv4Addr bs = none := by
  have ho : readOctet bs = none := readNumber_stops h
  simp [readIpv4Addr, readSeparator, ho]

/-- Where reading groups ends: at the end of the text, or before `::`. -/
def GroupsEnd (rest : List UInt8) : Prop := rest = [] ∨ ∃ tail, rest = 58 :: 58 :: tail

theorem GroupsEnd.readSeparator_none {α : Type} (h : GroupsEnd rest)
    (index : Nat) (inner : List UInt8 → Option (α × List UInt8)) (h0 : inner [] = none)
    (hc : ∀ bs, inner (58 :: bs) = none) : readSeparator 58 index inner rest = none := by
  unfold readSeparator
  rcases h with rfl | ⟨_, rfl⟩
  · split <;> simp [h0]
  · split <;> simp [hc]

theorem readGroups_end (limit remaining acc) (h : GroupsEnd rest) :
    readGroups limit remaining acc rest = (acc, false, rest) := by
  cases remaining with
  | zero => rfl
  | succ =>
    have h4 := h.readSeparator_none acc.length readIpv4Addr (readIpv4Addr_stops (stops_nil 10))
      (fun bs => readIpv4Addr_stops (stops_colon 10 bs))
    have hg := h.readSeparator_none acc.length readGroup (readNumber_stops (stops_nil 16))
      (fun bs => readNumber_stops (stops_colon 16 bs))
    simp [readGroups, h4, hg]

theorem dot_not_mem_hex (n) : (46 : UInt8) ∉ numText 16 n := by
  intro h
  have hd := toDigit_of_mem_numText (by decide : 1 < 16) (by decide) h
  simp [toDigit] at hd

theorem dot_not_mem_fmtTail (gs) : (46 : UInt8) ∉ fmtTail gs := by
  simp [fmtTail, dot_not_mem_hex]

theorem GroupsEnd.stops (h : GroupsEnd rest) (gs) : Stops 16 (fmtTail gs ++ rest) := by
  cases gs with
  | cons => exact stops_colon 16 _
  | nil =>
    rcases h with rfl | ⟨_, rfl⟩
    · exact stops_nil 16
    · exact stops_colon 16 _

theorem readIpv4Addr_group (g : UInt16) (gs) (hdot : (46 : UInt8) ∉ rest) :
    readIpv4Addr (numText 16 g.toNat ++ (fmtTail gs ++ rest)) = none := by
  apply readIpv4Addr_none
  simp only [mem_append, not_or]
  exact ⟨dot_not_mem_hex _, dot_not_mem_fmtTail gs, hdot⟩

theorem readGroups_fmtTail (limit) (hend : GroupsEnd rest) (hdot : (46 : UInt8) ∉ rest) :
    ∀ (gs acc : List UInt16) (remaining : Nat), acc ≠ [] → gs.length ≤ remaining →
      readGroups limit remaining acc (fmtTail gs ++ rest) = (acc ++ gs, false, rest)
  | [], acc, remaining, _, _ => by simpa [fmtTail] using readGroups_end limit remaining acc hend
  | g :: gs, acc, remaining, hacc, hle => by
    obtain ⟨remaining, rfl⟩ : ∃ r, remaining = r + 1 := ⟨remaining - 1, by simp at hle; omega⟩
    have hpos : acc.length ≠ 0 := by simpa using hacc
    have ih := readGroups_fmtTail limit hend hdot gs (acc ++ [g]) remaining (by simp)
      (by simp at hle; omega)
    have htext : fmtTail (g :: gs) ++ rest = 58 :: (numText 16 g.toNat ++ (fmtTail gs ++ rest)) := by
      simp [fmtTail]
    simp only [htext, readGroups, readSeparator, hpos, if_false, if_true,
      readIpv4Addr_group g gs hdot, readGroup_text g (hend.stops gs), ite_self]
    rw [UInt16.ofNat_toNat, ih]
    simp

/-- **Printed groups read back**, up to where they end. -/
theorem readGroups_fmtSubslice (gs rest)
    (hle : gs.length ≤ limit) (hend : GroupsEnd rest) (hdot : (46 : UInt8) ∉ rest) :
    readGroups limit limit [] (fmtSubslice gs ++ rest) = (gs, false, rest) := by
  rcases gs with _ | ⟨g, gs⟩
  · simpa [fmtSubslice] using readGroups_end limit limit [] hend
  obtain ⟨limit, rfl⟩ : ∃ l, limit = l + 1 := ⟨limit - 1, by simp at hle; omega⟩
  have hrest := readGroups_fmtTail (limit + 1) hend hdot gs [g] limit (by simp)
    (by simp at hle; omega)
  simp only [fmtSubslice, append_assoc, readGroups, readSeparator, length_nil, if_true,
    readIpv4Addr_group g gs hdot, ite_self, readGroup_text g (hend.stops gs)]
  rw [UInt16.ofNat_toNat, nil_append, hrest]
  rfl

theorem dot_not_mem_fmtSubslice (gs) : (46 : UInt8) ∉ fmtSubslice gs := by
  cases gs with
  | nil => simp [fmtSubslice]
  | cons => simp [fmtSubslice, dot_not_mem_hex, dot_not_mem_fmtTail]

/-! ## Round trip -/

variable (ip : Ipv6Addr)

theorem padGroups_nil : padGroups ip.segments [] = ip := by
  apply Ipv6Addr.ext_segments
  rw [padGroups_segments (by simp [ip.segments_length])]
  simp [ip.segments_length]

theorem readIpv6Addr_full : readIpv6Addr (fmtSubslice ip.segments) = some (ip, []) := by
  have hle : ip.segments.length ≤ 8 := by rw [ip.segments_length]
  have h := readGroups_fmtSubslice ip.segments [] hle (.inl rfl) (by simp)
  rw [append_nil] at h
  simp [readIpv6Addr, h, ip.segments_length, padGroups_nil]

/-- Text with `::` in place of a run of at least two zero groups. -/
theorem readIpv6Addr_compressed {z : Span} (hz : z.Zero ip.segments) (hlen : 1 < z.len) :
    readIpv6Addr (fmtSubslice (ip.segments.take z.start) ++
      58 :: 58 :: fmtSubslice (ip.segments.drop (z.start + z.len))) = some (ip, []) := by
  have h8 := ip.segments_length
  have hin := hz.1
  have htake : (ip.segments.take z.start).length = z.start := by simp; omega
  have hdrop : (ip.segments.drop (z.start + z.len)).length = 8 - (z.start + z.len) := by
    simp; omega
  have hle : (ip.segments.take z.start).length ≤ 8 := by omega
  have hle' : (ip.segments.drop (z.start + z.len)).length ≤ 8 - (z.start + 1) := by omega
  have hhead := readGroups_fmtSubslice (ip.segments.take z.start)
    (58 :: 58 :: fmtSubslice (ip.segments.drop (z.start + z.len))) hle (.inr ⟨_, rfl⟩)
    (by simp [dot_not_mem_fmtSubslice])
  have htail := readGroups_fmtSubslice (ip.segments.drop (z.start + z.len)) [] hle' (.inl rfl)
    (by simp)
  rw [append_nil] at htail
  have hpad : padGroups (ip.segments.take z.start) (ip.segments.drop (z.start + z.len)) = ip := by
    apply Ipv6Addr.ext_segments
    rw [padGroups_segments (by omega), htake, hdrop,
      show 8 - z.start - (8 - (z.start + z.len)) = z.len by omega]
    exact hz.split
  simp only [readIpv6Addr, hhead, htake, htail, hpad, Bool.false_eq_true, if_false]
  rw [if_neg (by omega)]

theorem readIpv6Addr_mapped (ip4 : Ipv4Addr) :
    readIpv6Addr (58 :: 58 :: (numText 16 0xffff ++ 58 :: ip4.text)) =
      some (padGroups [] [0xffff, u16FromBeBytes ip4.a ip4.b, u16FromBeBytes ip4.c ip4.d], []) := by
  have hhead := readGroups_end 8 8 []
    (.inr ⟨_, rfl⟩ : GroupsEnd (58 :: 58 :: (numText 16 0xffff ++ 58 :: ip4.text)))
  -- the text starts with the letter f, which no octet does
  have hno4 : readIpv4Addr (numText 16 0xffff ++ 58 :: ip4.text) = none := by
    apply readIpv4Addr_stops
    intro b hb
    have hf : b = 102 := by simpa [numText, digitsOf, digitByte, eq_comm] using hb
    rw [hf]; rfl
  have hffff := readGroup_text 0xffff (stops_colon 16 ip4.text)
  have h4 := readIpv4Addr_text ip4 (stops_nil 10)
  rw [append_nil] at h4
  have htail : readGroups 7 7 [] (numText 16 0xffff ++ 58 :: ip4.text) =
      ([0xffff, u16FromBeBytes ip4.a ip4.b, u16FromBeBytes ip4.c ip4.d], true, []) := by
    rw [readGroups]
    simp only [readSeparator, length_nil, hno4, if_true, ite_self]
    rw [show (0xffff : Nat) = (0xffff : UInt16).toNat from rfl, hffff]
    simp [readGroups, readSeparator, h4]
  simp [readIpv6Addr, hhead, htail]

/-- **A printed IPv6 address reads back**, in each of the three forms `Display` writes. -/
theorem parseIpv6_text : parseIpv6 ip.text = some ip := by
  have hread : readIpv6Addr ip.text = some (ip, []) := by
    unfold Ipv6Addr.text
    split
    next ip4 h4 =>
      rw [readIpv6Addr_mapped]
      congr 2
      apply Ipv6Addr.ext_segments
      unfold Ipv6Addr.toIpv4Mapped at h4
      split at h4 <;> cases h4
      rename_i ab cd hs
      rw [padGroups_segments (by simp), hs]
      simp [Ipv4Addr.ofOctets, u16ToBeBytes, replicate_succ]
    dsimp only
    have hz : (longestZeroes ip.segments 0 ⟨0, 0⟩ ⟨0, 0⟩).Zero ip.segments :=
      longestZeroes_zero ip.segments 0 ⟨0, 0⟩ ⟨0, 0⟩ (by simp) rfl ⟨Nat.zero_le _, by simp⟩
        (by simp) ⟨Nat.zero_le _, by simp⟩
    split
    · exact readIpv6Addr_compressed ip hz ‹_›
    · exact readIpv6Addr_full ip
  simp [parseIpv6, hread]

theorem fmtSubslice_colon (h : 1 < gs.length ∨ ∃ tail, rest = 58 :: tail) :
    ∃ ds tail, fmtSubslice gs ++ rest = ds ++ 58 :: tail ∧
      ∀ b ∈ ds, (toDigit 16 b).isSome = true := by
  match gs, h with
  | [], .inr ⟨tail, ht⟩ => exact ⟨[], tail, by simp [fmtSubslice, ht], by simp⟩
  | [g], .inr ⟨tail, ht⟩ =>
    exact ⟨numText 16 g.toNat, tail, by simp [fmtSubslice, fmtTail, ht],
      fun _ => toDigit_of_mem_numText (by decide) (by decide)⟩
  | g :: g' :: gs, _ =>
    exact ⟨numText 16 g.toNat, numText 16 g'.toNat ++ fmtTail gs ++ rest, by simp [fmtSubslice, fmtTail],
      fun _ => toDigit_of_mem_numText (by decide) (by decide)⟩

/-- Hexadecimal digits, if any, and then a colon is how every printed address starts. -/
theorem text_colon :
    ∃ ds tail, ip.text = ds ++ 58 :: tail ∧ ∀ b ∈ ds, (toDigit 16 b).isSome = true := by
  unfold Ipv6Addr.text
  split
  · exact ⟨[], _, rfl, by simp⟩
  dsimp only
  split
  · exact fmtSubslice_colon (.inr ⟨_, rfl⟩)
  rw [← append_nil (fmtSubslice ip.segments)]
  exact fmtSubslice_colon (.inl (by rw [ip.segments_length]; decide))

theorem fmtSubslice_ascii (gs) : ∀ b ∈ fmtSubslice gs, b < 0x80 := by
  intro b hb
  have hnum : ∀ n, b ∈ numText 16 n → b < 0x80 := fun n => numText_ascii (by decide) (by decide) b
  rcases gs with _ | ⟨_, _⟩
  · cases hb
  simp only [fmtSubslice, fmtTail, mem_append, mem_flatMap, mem_cons] at hb
  rcases hb with hb | ⟨s, _, rfl | hb⟩
  · exact hnum _ hb
  · decide
  · exact hnum _ hb

theorem Ipv6Addr.text_ascii : ∀ b ∈ ip.text, b < 0x80 := by
  intro b hb
  unfold Ipv6Addr.text at hb
  split at hb
  · simp only [mem_append, mem_cons] at hb
    rcases hb with rfl | rfl | hb | rfl | hb
    · decide
    · decide
    · exact numText_ascii (by decide) (by decide) b hb
    · decide
    · exact Ipv4Addr.text_ascii _ b hb
  dsimp only at hb
  split at hb
  swap
  · exact fmtSubslice_ascii _ b hb
  simp only [mem_append, mem_cons] at hb
  rcases hb with hb | rfl | rfl | hb
  · exact fmtSubslice_ascii _ b hb
  · decide
  · decide
  · exact fmtSubslice_ascii _ b hb

end Shoes.Lib.Ipv6Text
