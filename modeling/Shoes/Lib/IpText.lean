import Shoes.Lib.Bytes
import Mathlib.Data.List.Basic

/-! # Text forms of numbers and IP addresses

The parsers and `Display` of `std::net::{Ipv4Addr, Ipv6Addr}` and `u16::from_str`, over ASCII bytes.
A parser gives the value with what is left of the text, or `none`; a failed attempt leaves the text
untouched, as `read_atomically` does. -/
namespace Shoes.Lib.IpText
open Bytes List Option

/-! ## Numbers -/

/-- The digit `d < 36` as `char::from_digit` writes it. -/
def digitByte (d : Nat) : UInt8 := UInt8.ofNat (if d < 10 then 48 + d else 87 + d)

/-- `char::to_digit` on an ASCII byte. -/
def toDigit (radix : Nat) (b : UInt8) : Option Nat :=
  let n := b.toNat
  let v := if 48 ≤ n ∧ n ≤ 57 then n - 48
    else if 97 ≤ n ∧ n ≤ 122 then n - 87
    else if 65 ≤ n ∧ n ≤ 90 then n - 55
    else radix
  if v < radix then some v else none

/-- The digits of `n` in `radix`, most significant first; one digit for zero. -/
def digitsOf (radix : Nat) : Nat → Nat → List Nat
  | 0, n => [n % radix]
  | fuel + 1, n =>
    if n < radix then [n] else digitsOf radix fuel (n / radix) ++ [n % radix]

/-- `{}` for radix 10 and `{:x}` for radix 16. -/
def numText (radix n : Nat) : List UInt8 := (digitsOf radix n n).map digitByte

theorem toDigit_digitByte (hd : d < radix) (hr : radix ≤ 16) :
    toDigit radix (digitByte d) = some d := by
  have h16 : d < 16 := by omega
  have hv : ∀ d < 16, (digitByte d).toNat = if d < 10 then 48 + d else 87 + d := by decide
  simp only [toDigit, hv d h16]
  split <;> (repeat' split) <;> simp_all <;> omega

/-- What the digits of a number are: a positional writing without a leading zero. -/
structure IsDigits (radix n : Nat) (ds : List Nat) : Prop where
  lt : ∀ d ∈ ds, d < radix
  value : ds.foldl (fun acc d => acc * radix + d) 0 = n
  ne_nil : ds ≠ []
  lead : 1 < ds.length → ds.head? ≠ some 0
  size : ∀ k, 0 < k → n < radix ^ k → ds.length ≤ k

theorem isDigits_one (hn : n < radix) : IsDigits radix n [n] where
  lt := by simpa using hn
  value := by simp
  ne_nil := by simp
  lead := by simp
  size := by intro k hk _; simpa using Nat.succ_le_of_lt hk

theorem isDigits_snoc (hr : 1 < radix) (hn : radix ≤ n)
    (h : IsDigits radix (n / radix) ds) : IsDigits radix n (ds ++ [n % radix]) where
  lt := by
    intro d hd
    rcases mem_append.mp hd with hd | hd
    · exact h.lt d hd
    · rw [mem_singleton.mp hd]; exact Nat.mod_lt _ (by omega)
  value := by
    rw [foldl_append, h.value]
    simpa using Nat.div_add_mod' n radix
  ne_nil := by simp
  lead := by
    intro _ h0
    rw [List.head?_append_of_ne_nil _ h.ne_nil] at h0
    -- the digits before the last one spell `n / radix`, which is not zero
    have hpos : 0 < n / radix := Nat.div_pos hn (by omega)
    by_cases hl : 1 < ds.length
    · exact h.lead hl h0
    match ds, h.ne_nil with
    | [d], _ =>
      have hv := h.value
      simp only [List.head?_cons, some.injEq] at h0
      simp only [foldl_cons, foldl_nil] at hv
      omega
    | _ :: _ :: _, _ => simp at hl
  size := by
    intro k hk hlt
    match k, hk with
    | 1, _ => simp only [pow_one] at hlt; omega
    | k + 2, _ =>
      have hlt' : n / radix < radix ^ (k + 1) := by
        apply Nat.div_lt_of_lt_mul
        rwa [← Nat.pow_succ']
      have hs := h.size (k + 1) (by omega) hlt'
      simp only [length_append, length_singleton]
      omega

theorem digitsOf_isDigits (hr : 1 < radix) :
    ∀ fuel n, n ≤ fuel → IsDigits radix n (digitsOf radix fuel n)
  | 0, n, h => by
    have h0 : n = 0 := by omega
    subst h0
    simpa [digitsOf] using isDigits_one (n := 0) (by omega)
  | fuel + 1, n, h => by
    unfold digitsOf
    split
    · exact isDigits_one ‹_›
    rename_i hn
    have hlt : n / radix < n := Nat.div_lt_self (by omega) hr
    exact isDigits_snoc hr (by omega) (digitsOf_isDigits hr fuel (n / radix) (by omega))

/-- The digit loop of `Parser::read_number`: give up on digit `max + 1`, stop before
the first byte that is not a digit. -/
def readDigits (radix max : Nat) : Nat → Nat → List UInt8 → Option (Nat × Nat × List UInt8)
  | result, count, [] => some (result, count, [])
  | result, count, b :: bs =>
    match toDigit radix b with
    | none => some (result, count, b :: bs)
    | some d =>
      if count + 1 > max then none else readDigits radix max (result * radix + d) (count + 1) bs

/-- `Parser::read_number` into an integer type whose largest value is `limit`. -/
def readNumber (radix max limit : Nat) (allowZeroPrefix : Bool) (bs : List UInt8) :
    Option (Nat × List UInt8) :=
  match readDigits radix max 0 0 bs with
  | none => none
  | some (result, count, rest) =>
    if count = 0 then none
    else if !allowZeroPrefix && bs.head? == some 48 && decide (1 < count) then none
    else if result ≤ limit then some (result, rest) else none

/-- The text after a number: nothing, or a byte that is not a digit. -/
def Stops (radix : Nat) (rest : List UInt8) : Prop := ∀ b ∈ rest.head?, toDigit radix b = none

theorem stops_nil (radix) : Stops radix [] := by
  intro b hb; cases hb

theorem readDigits_stops {radix max result count rest} (h : Stops radix rest) :
    readDigits radix max result count rest = some (result, count, rest) := by
  cases rest with
  | nil => rfl
  | cons b bs => simp [readDigits, h b (by simp)]

theorem readDigits_map (max) (hr : radix ≤ 16) (hrest : Stops radix rest) :
    ∀ (ds : List Nat) (result count : Nat), (∀ d ∈ ds, d < radix) → count + ds.length ≤ max →
      readDigits radix max result count (ds.map digitByte ++ rest) =
        some (ds.foldl (fun acc d => acc * radix + d) result, count + ds.length, rest)
  | [], _, _, _, _ => by simpa using readDigits_stops hrest
  | d :: ds, result, count, hd, hc => by
    simp only [length_cons] at hc
    simp only [map_cons, cons_append, readDigits, toDigit_digitByte (hd d (by simp)) hr]
    rw [if_neg (by omega), readDigits_map max hr hrest ds _ _ (fun x hx => hd x (by simp [hx]))
      (by omega)]
    simp [add_comm, Nat.add_left_comm]

theorem digitByte_head_zero {ds : List Nat} (hr : radix ≤ 16) (hlt : ∀ d ∈ ds, d < radix)
    (h : (ds.map digitByte).head? = some 48) : ds.head? = some 0 := by
  rcases ds with _ | ⟨d, ds⟩
  · simp at h
  have hd := toDigit_digitByte (hlt d (by simp)) hr
  simp only [map_cons, List.head?_cons, some.injEq] at h ⊢
  rw [h] at hd
  have h48 : toDigit radix 48 = if 0 < radix then some 0 else none := rfl
  rw [h48] at hd
  split at hd
  · exact (some.inj hd).symm
  · cases hd

/-- **A printed number reads back.** The rest of the text is left alone. -/
theorem readNumber_numText {radix max limit n allow rest} (hr : 1 < radix) (hr' : radix ≤ 16)
    (hmax : 0 < max) (hn : n < radix ^ max) (hlim : n ≤ limit) (hrest : Stops radix rest) :
    readNumber radix max limit allow (numText radix n ++ rest) = some (n, rest) := by
  have hds := digitsOf_isDigits hr n n (Nat.le_refl n)
  have hread := readDigits_map max hr' hrest (digitsOf radix n n) 0 0 hds.lt
    (by simpa using hds.size max hmax hn)
  unfold readNumber numText
  rw [hread, hds.value]
  have hne : (digitsOf radix n n).length ≠ 0 := by simpa using hds.ne_nil
  have hlead : ((digitsOf radix n n).map digitByte ++ rest).head? = some 48 →
      ¬ 1 < (digitsOf radix n n).length := by
    intro h0 hl
    rw [List.head?_append_of_ne_nil _ (by simpa using hds.ne_nil)] at h0
    exact hds.lead hl (digitByte_head_zero hr' hds.lt h0)
  simp only [zero_add, if_neg hne, if_pos hlim]
  rw [if_neg]
  simp only [Bool.and_eq_true, beq_iff_eq, decide_eq_true_eq, not_and]
  exact fun h0 => hlead h0.2

theorem readDigits_suffix {radix max} : ∀ {bs result count n k rest},
      readDigits radix max result count bs = some (n, k, rest) → rest <:+ bs
  | [], _, _, _, _, _, h => by cases h; exact suffix_rfl
  | b :: bs, _, _, _, _, _, h => by
    simp only [readDigits] at h
    split at h
    · cases h; exact suffix_rfl
    split at h
    · cases h
    · exact (readDigits_suffix h).trans (suffix_cons b bs)

theorem readNumber_suffix {radix max limit n allow bs rest}
    (h : readNumber radix max limit allow bs = some (n, rest)) : rest <:+ bs := by
  unfold readNumber at h
  split at h
  · cases h
  rename_i hd
  repeat' split at h
  all_goals cases h
  exact readDigits_suffix hd

theorem readNumber_stops {radix max limit allow bs}
    (h : Stops radix bs) : readNumber radix max limit allow bs = none := by
  simp [readNumber, readDigits_stops h]

/-- The digit loop of `u16::from_str`. -/
def parseDigits (limit : Nat) : Nat → List UInt8 → Option Nat
  | acc, [] => some acc
  | acc, b :: bs =>
    match toDigit 10 b with
    | none => none
    | some d => if acc * 10 + d > limit then none else parseDigits limit (acc * 10 + d) bs

/-- `str::parse::<u16>`: an optional `+`, then at least one digit. -/
def parseU16 (bs : List UInt8) : Option UInt16 :=
  let digits := match bs with
    | 43 :: rest => rest
    | bs => bs
  if digits.isEmpty then none else (parseDigits 65535 0 digits).map UInt16.ofNat

theorem le_foldl_digits (ds : List Nat) (acc) : acc ≤ ds.foldl (fun acc d => acc * 10 + d) acc := by
  induction ds generalizing acc with
  | nil => exact Nat.le_refl acc
  | cons d ds ih => exact Nat.le_trans (by omega) (ih (acc * 10 + d))

theorem parseDigits_map : ∀ (ds : List Nat) (acc : Nat), (∀ d ∈ ds, d < 10) →
      ds.foldl (fun acc d => acc * 10 + d) acc ≤ limit →
      parseDigits limit acc (ds.map digitByte) = some (ds.foldl (fun acc d => acc * 10 + d) acc)
  | [], _, _, _ => rfl
  | d :: ds, acc, hd, hl => by
    have hle := le_foldl_digits ds (acc * 10 + d)
    simp only [foldl_cons] at hl
    simp only [map_cons, parseDigits, foldl_cons,
      toDigit_digitByte (hd d (by simp)) (by decide : 10 ≤ 16)]
    rw [if_neg (by omega)]
    exact parseDigits_map ds _ (fun x hx => hd x (by simp [hx])) hl

theorem numText_ne_nil (hr : 1 < radix) (n) : numText radix n ≠ [] := by
  simpa [numText] using (digitsOf_isDigits hr n n (Nat.le_refl n)).ne_nil

theorem toDigit_of_mem_numText (hr : 1 < radix) (hr' : radix ≤ 16) (hb : b ∈ numText radix n) :
    (toDigit radix b).isSome = true := by
  obtain ⟨d, hd, rfl⟩ := mem_map.mp hb
  have hlt := (digitsOf_isDigits hr n n (Nat.le_refl n)).lt d hd
  rw [toDigit_digitByte hlt hr']
  rfl

theorem lt_of_toDigit (h : (toDigit radix b).isSome = true) : b < 0x80 := by
  rw [UInt8.lt_iff_toNat_lt]
  by_contra hb
  have h128 : 128 ≤ b.toNat := not_lt.mp hb
  have h0 : ¬(48 ≤ b.toNat ∧ b.toNat ≤ 57) := by omega
  have ha : ¬(97 ≤ b.toNat ∧ b.toNat ≤ 122) := by omega
  have hA : ¬(65 ≤ b.toNat ∧ b.toNat ≤ 90) := by omega
  simp [toDigit, h0, ha, hA] at h

theorem numText_ascii (hr : 1 < radix) (hr' : radix ≤ 16) :
    ∀ b ∈ numText radix n, b < 0x80 := fun _ hb => lt_of_toDigit (toDigit_of_mem_numText hr hr' hb)

theorem numText_ne_plus (n rest) : numText 10 n ≠ 43 :: rest := by
  intro h
  have hd := toDigit_of_mem_numText (by decide : 1 < 10) (by decide) (n := n) (b := 43)
    (by simp [h])
  simp [toDigit] at hd

theorem parseDigits_numText (h : n ≤ limit) : parseDigits limit 0 (numText 10 n) = some n := by
  have hds := digitsOf_isDigits (by decide : 1 < 10) n n le_rfl
  rw [numText, parseDigits_map _ _ hds.lt (by rw [hds.value]; exact h), hds.value]

theorem parseU16_numText (x) : parseU16 (numText 10 x.toNat) = some x := by
  have hval := parseDigits_numText (Nat.le_of_lt_succ x.toNat_lt)
  unfold parseU16
  split
  next rest h => exact absurd h (numText_ne_plus _ rest)
  · simp [numText_ne_nil (by decide : 1 < 10), hval]

/-- `str::parse::<u64>`. -/
def parseU64 (bs : List UInt8) : Option UInt64 :=
  let digits := match bs with
    | 43 :: rest => rest
    | bs => bs
  if digits.isEmpty then none else (parseDigits 18446744073709551615 0 digits).map UInt64.ofNat

theorem parseU64_numText (x) : parseU64 (numText 10 x.toNat) = some x := by
  have hval := parseDigits_numText (Nat.le_of_lt_succ x.toNat_lt)
  unfold parseU64
  split
  next rest h => exact absurd h (numText_ne_plus _ rest)
  · simp [numText_ne_nil (by decide : 1 < 10), hval]

/-! ## IPv4 -/

structure Ipv4Addr where
  a : UInt8
  b : UInt8
  c : UInt8
  d : UInt8
  deriving DecidableEq, Repr

def Ipv4Addr.octets (ip : Ipv4Addr) : List UInt8 := [ip.a, ip.b, ip.c, ip.d]

/-- `Ipv4Addr::from` on the first four bytes of a slice. -/
def Ipv4Addr.ofOctets (bs : List UInt8) : Ipv4Addr :=
  ⟨bs.getD 0 0, bs.getD 1 0, bs.getD 2 0, bs.getD 3 0⟩

variable (ip : Ipv4Addr)

@[simp] theorem Ipv4Addr.octets_length : ip.octets.length = 4 := rfl

/-- `Display for Ipv4Addr`; 46 is the full stop. -/
def Ipv4Addr.text (ip : Ipv4Addr) : List UInt8 :=
  numText 10 ip.a.toNat ++ 46 :: (numText 10 ip.b.toNat ++ 46 ::
    (numText 10 ip.c.toNat ++ 46 :: numText 10 ip.d.toNat))

/-- `Parser::read_separator`: a separator before every element but the first. -/
def readSeparator {α : Type} (sep : UInt8) (index : Nat)
    (inner : List UInt8 → Option (α × List UInt8)) (bs : List UInt8) : Option (α × List UInt8) :=
  if index = 0 then inner bs
  else match bs with
    | c :: rest => if c = sep then inner rest else none
    | [] => none

/-- One octet: at most three digits, no leading zero, at most 255. -/
def readOctet : List UInt8 → Option (Nat × List UInt8) := readNumber 10 3 255 false

def readIpv4Addr (bs : List UInt8) : Option (Ipv4Addr × List UInt8) := do
  let (a, bs) ← readSeparator 46 0 readOctet bs
  let (b, bs) ← readSeparator 46 1 readOctet bs
  let (c, bs) ← readSeparator 46 2 readOctet bs
  let (d, bs) ← readSeparator 46 3 readOctet bs
  pure (⟨UInt8.ofNat a, UInt8.ofNat b, UInt8.ofNat c, UInt8.ofNat d⟩, bs)

/-- `Ipv4Addr::from_str`: nothing longer than `255.255.255.255`, nothing left over. -/
def parseIpv4 (bs : List UInt8) : Option Ipv4Addr :=
  if bs.length > 15 then none
  else match readIpv4Addr bs with
    | some (ip, []) => some ip
    | _ => none

theorem readOctet_text (x : UInt8) (h : Stops 10 rest) :
    readOctet (numText 10 x.toNat ++ rest) = some (x.toNat, rest) := by
  have hx := x.toNat_lt
  exact readNumber_numText (by decide) (by decide) (by decide) (by omega) (by omega) h

theorem stops_dot (radix bs) : Stops radix (46 :: bs) := by
  intro b hb
  simp only [List.head?_cons, mem_def, some.injEq] at hb
  subst hb
  simp [toDigit]

theorem readIpv4Addr_text (h : Stops 10 rest) :
    readIpv4Addr (ip.text ++ rest) = some (ip, rest) := by
  have hdot := stops_dot 10
  simp [readIpv4Addr, readSeparator, Ipv4Addr.text, readOctet_text, hdot, h]

theorem numText_length_le (hr : 1 < radix) (hk : 0 < k) (hn : n < radix ^ k) :
    (numText radix n).length ≤ k := by
  simpa [numText] using (digitsOf_isDigits hr n n (Nat.le_refl n)).size k hk hn

theorem Ipv4Addr.text_length_le : ip.text.length ≤ 15 := by
  have hle : ∀ x : UInt8, (numText 10 x.toNat).length ≤ 3 := fun x => by
    have hx := x.toNat_lt
    exact numText_length_le (by decide) (by decide) (by omega)
  have ha := hle ip.a
  have hb := hle ip.b
  have hc := hle ip.c
  have hd := hle ip.d
  simp only [Ipv4Addr.text, length_append, length_cons]
  omega

theorem parseIpv4_text : parseIpv4 ip.text = some ip := by
  have hr := readIpv4Addr_text ip (stops_nil 10)
  rw [append_nil] at hr
  simp [parseIpv4, hr, not_lt.mpr ip.text_length_le]

theorem Ipv4Addr.text_ascii : ∀ b ∈ ip.text, b < 0x80 := by
  intro b hb
  have hnum : ∀ n, b ∈ numText 10 n → b < 0x80 := fun n => numText_ascii (by decide) (by decide) b
  simp only [Ipv4Addr.text, mem_append, mem_cons] at hb
  rcases hb with hb | rfl | hb | rfl | hb | rfl | hb
  all_goals first | exact hnum _ hb | decide

end Shoes.Lib.IpText
