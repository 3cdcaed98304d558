import Mathlib.Data.List.Induction
import Mathlib.Tactic.Ring

/-! # Byte strings and big-endian integers

A field of `w` bytes in network order is `beBytes w n`; reading it back is `beNat`. The two-byte
case has its own pair of functions. -/
namespace Shoes.Lib.Bytes
open List

/-- The number a string of bytes spells, most significant byte first. -/
def beNat (bs : List UInt8) : Nat := bs.foldl (fun acc b => acc * 256 + b.toNat) 0

/-- The low `w` bytes of `n`, most significant byte first. -/
def beBytes : Nat → Nat → List UInt8
  | 0, _ => []
  | w + 1, n => beBytes w (n / 256) ++ [UInt8.ofNat n]

@[simp] theorem beBytes_length (w n) : (beBytes w n).length = w := by
  induction w generalizing n with
  | zero => rfl
  | succ w ih => simp [beBytes, ih]

theorem beNat_append_one (bs b) : beNat (bs ++ [b]) = beNat bs * 256 + b.toNat := by
  simp [beNat, foldl_append]

theorem foldl_be (bs acc) :
    bs.foldl (fun acc b => acc * 256 + b.toNat) acc = acc * 256 ^ bs.length + beNat bs := by
  induction bs using List.reverseRecOn with
  | nil => simp [beNat]
  | append_singleton bs b ih =>
    rw [foldl_append, ih, beNat_append_one]
    simp only [foldl_cons, foldl_nil, length_append, length_singleton]
    ring

theorem beNat_cons (b bs) : beNat (b :: bs) = b.toNat * 256 ^ bs.length + beNat bs := by
  have h := foldl_be bs b.toNat
  simpa [beNat] using h

theorem beNat_beBytes (w n) : beNat (beBytes w n) = n % 256 ^ w := by
  induction w generalizing n with
  | zero => simp [beBytes, beNat, Nat.mod_one]
  | succ w ih =>
    -- the low byte is `n % 256`, the bytes before it spell `n / 256 % 256 ^ w`
    have hsplit : n % 256 ^ (w + 1) = n % 256 + 256 * (n / 256 % 256 ^ w) := by
      rw [Nat.pow_succ', Nat.mod_mul]
    rw [beBytes, beNat_append_one, ih, UInt8.toNat_ofNat', hsplit]
    omega

/-! ## Two-byte fields -/

def u16ToBeBytes (x : UInt16) : List UInt8 :=
  [UInt8.ofNat (x.toNat / 256), x.toUInt8]

def u16FromBeBytes (hi lo : UInt8) : UInt16 := UInt16.ofNat (hi.toNat * 256 + lo.toNat)

@[simp] theorem u16ToBeBytes_length (x) : (u16ToBeBytes x).length = 2 := rfl

@[simp] theorem u16FromBeBytes_toBeBytes (x) :
    u16FromBeBytes (UInt8.ofNat (x.toNat / 256)) x.toUInt8 = x := by
  have hx := x.toNat_lt
  apply UInt16.toNat_inj.mp
  simp only [u16FromBeBytes, UInt16.toNat_ofNat', UInt8.toNat_ofNat', UInt16.toNat_toUInt8]
  omega

@[simp] theorem u16FromBeBytes_toNat (hi lo) :
    (u16FromBeBytes hi lo).toNat = hi.toNat * 256 + lo.toNat := by
  have hh := hi.toNat_lt
  have hl := lo.toNat_lt
  simp only [u16FromBeBytes, UInt16.toNat_ofNat']
  omega

/-! ## Four-byte fields -/

def u32ToBeBytes (x : UInt32) : List UInt8 := beBytes 4 x.toNat

/-- `u32::from_be_bytes` on a slice of four bytes. -/
def u32FromBeBytes (bs : List UInt8) : UInt32 := UInt32.ofNat (beNat bs)

@[simp] theorem u32ToBeBytes_length (x) : (u32ToBeBytes x).length = 4 :=
  beBytes_length 4 _

@[simp] theorem u32FromBeBytes_toBeBytes (x) : u32FromBeBytes (u32ToBeBytes x) = x := by
  have hx := x.toNat_lt
  apply UInt32.toNat_inj.mp
  rw [u32FromBeBytes, u32ToBeBytes, beNat_beBytes, UInt32.toNat_ofNat']
  omega

/-! ## Little-endian fields -/

def u16ToLeBytes (x : UInt16) : List UInt8 :=
  [x.toUInt8, UInt8.ofNat (x.toNat / 256)]

def u16FromLeBytes (lo hi : UInt8) : UInt16 := u16FromBeBytes hi lo

@[simp] theorem u16ToLeBytes_length (x) : (u16ToLeBytes x).length = 2 := rfl

@[simp] theorem u16FromLeBytes_toLeBytes (x) :
    u16FromLeBytes x.toUInt8 (UInt8.ofNat (x.toNat / 256)) = x := u16FromBeBytes_toBeBytes x

def u32ToLeBytes (x : UInt32) : List UInt8 := (u32ToBeBytes x).reverse

/-- `u32::from_le_bytes` on a slice of four bytes. -/
def u32FromLeBytes (bs : List UInt8) : UInt32 := u32FromBeBytes bs.reverse

@[simp] theorem u32ToLeBytes_length (x) : (u32ToLeBytes x).length = 4 := by
  simp [u32ToLeBytes]

@[simp] theorem u32FromLeBytes_toLeBytes (x) : u32FromLeBytes (u32ToLeBytes x) = x := by
  simp [u32FromLeBytes, u32ToLeBytes]

/-- `to_le_bytes` of a number in `w` bytes. -/
def leBytes (w n : Nat) : List UInt8 := (beBytes w n).reverse

def leNat (bs : List UInt8) : Nat := beNat bs.reverse

@[simp] theorem leBytes_length (w n) : (leBytes w n).length = w := by
  simp [leBytes]

theorem leNat_leBytes {w n} (h : n < 256 ^ w) : leNat (leBytes w n) = n := by
  rw [leNat, leBytes, reverse_reverse, beNat_beBytes, Nat.mod_eq_of_lt h]

/-! ## Slices -/

/-- `&bs[i..j]`; every use stands behind a length check of the source. -/
def slice (bs : List UInt8) (i j : Nat) : List UInt8 := (bs.take j).drop i

theorem slice_append_left (pre mid post) {i j} (hi : pre.length = i)
    (hj : i + mid.length = j) : slice (pre ++ mid ++ post) i j = mid := by
  subst hi; subst hj
  simp [slice, take_append]

theorem slice_cons {data bs b i j} (h : slice data i j = b :: bs) :
    data.getD i 0 = b ∧ slice data (i + 1) j = bs := by
  unfold slice at h ⊢
  have hhead : (data.take j)[i]? = some b := by rw [← List.head?_drop, h]; rfl
  refine ⟨?_, ?_⟩
  · rw [List.getElem?_take] at hhead
    split at hhead
    · rw [getD_eq_getElem?_getD, hhead]; rfl
    · cases hhead
  · rw [← tail_drop, h]; rfl

theorem getD_append_cons (pre post) (x : UInt8) {i} (h : pre.length = i) :
    (pre ++ x :: post).getD i 0 = x := by
  subst h
  simp

/-- `buf[i..i + bs.len()].copy_from_slice(bs)`. -/
def writeAt (buf : List UInt8) (i : Nat) (bs : List UInt8) : List UInt8 :=
  buf.take i ++ bs ++ buf.drop (i + bs.length)

@[simp] theorem writeAt_length {buf bs i} (h : i + bs.length ≤ buf.length) :
    (writeAt buf i bs).length = buf.length := by
  simp only [writeAt, length_append, length_take, length_drop]
  omega

theorem writeAt_all {buf bs} (h : bs.length = buf.length) : writeAt buf 0 bs = bs := by
  rw [writeAt, drop_of_length_le (by omega)]
  simp

theorem writeAt_writeAt {buf as bs i j} (h : i ≤ buf.length)
    (hj : i + as.length = j) : writeAt (writeAt buf i as) j bs = writeAt buf i (as ++ bs) := by
  subst hj
  have hi : (buf.take i ++ as).length = i + as.length := by simp [h]
  have hdrop : (buf.take i ++ as ++ buf.drop (i + as.length)).drop (i + as.length + bs.length) =
      buf.drop (i + (as ++ bs).length) := by
    rw [drop_append, drop_of_length_le (by omega), hi, nil_append, drop_drop, length_append]
    congr 1
    omega
  unfold writeAt
  rw [hdrop, ← hi, take_left]
  simp

theorem drop_writeAt {buf bs i j} (h : i ≤ buf.length)
    (hj : i + bs.length = j) : (writeAt buf i bs).drop j = buf.drop j := by
  have hi : (buf.take i ++ bs).length = j := by simp [h, hj]
  rw [writeAt, hj, ← hi, drop_left]

theorem slice_writeAt {buf bs i j} (h : i ≤ buf.length) (hj : i + bs.length = j) (n) :
    slice (writeAt buf i bs) i (j + n) = bs ++ (buf.drop j).take n := by
  have hi : (buf.take i).length = i := by simp [h]
  have hb : (buf.take i ++ bs).length = j := by simp [h, hj]
  rw [slice, writeAt, hj, take_append, hb, take_of_length_le (by omega),
    Nat.add_sub_cancel_left, append_assoc, drop_append, hi, Nat.sub_self,
    drop_of_length_le (by omega)]
  rfl

/-- A byte as two lower-case hexadecimal digits. -/
def hexByte (b : UInt8) : String :=
  String.ofList [Nat.digitChar (b.toNat / 16), Nat.digitChar (b.toNat % 16)]

end Shoes.Lib.Bytes
