import Mathlib.Data.List.Basic

/-! # UTF-8 text as bytes

A Rust `str` is a byte string that is well-formed UTF-8: shortest forms only, no surrogates, nothing
above U+10FFFF. `Str` carries the proof, so text and its bytes are the same thing below and slicing
at an ASCII byte stays inside the type. -/
namespace Shoes.Lib.Utf8

/-- Between two bytes of text: at a character boundary, or inside a character whose
next byte lies in `lo..=hi` and is followed by `more` further continuation bytes. -/
inductive Utf8State where
  | ground
  | need (lo hi : UInt8) (more : Nat)
  deriving DecidableEq, Repr

/-- One byte of the table of well-formed sequences. -/
def utf8Step : Utf8State → UInt8 → Option Utf8State
  | .ground, b =>
    if b < 0x80 then some .ground
    else if b < 0xC2 then none
    else if b ≤ 0xDF then some (.need 0x80 0xBF 0)
    else if b = 0xE0 then some (.need 0xA0 0xBF 1)
    else if b = 0xED then some (.need 0x80 0x9F 1)
    else if b ≤ 0xEF then some (.need 0x80 0xBF 1)
    else if b = 0xF0 then some (.need 0x90 0xBF 2)
    else if b ≤ 0xF3 then some (.need 0x80 0xBF 2)
    else if b = 0xF4 then some (.need 0x80 0x8F 2)
    else none
  | .need lo hi more, b =>
    if lo ≤ b ∧ b ≤ hi then
      match more with
      | 0 => some .ground
      | more + 1 => some (.need 0x80 0xBF more)
    else none

def utf8Run : Utf8State → List UInt8 → Option Utf8State
  | st, [] => some st
  | st, b :: bs => (utf8Step st b).bind fun st => utf8Run st bs

/-- `str::from_utf8` succeeds on exactly these bytes. -/
def isUtf8 (bs : List UInt8) : Bool := utf8Run .ground bs == some .ground

theorem utf8Run_append (st as bs) :
    utf8Run st (as ++ bs) = (utf8Run st as).bind fun st => utf8Run st bs := by
  induction as generalizing st with
  | nil => rfl
  | cons a as ih =>
    simp only [List.cons_append, utf8Run]
    cases utf8Step st a with
    | none => rfl
    | some st => exact ih st

theorem isUtf8_append {as bs} (ha : isUtf8 as = true) (hb : isUtf8 bs = true) :
    isUtf8 (as ++ bs) = true := by
  simp only [isUtf8, beq_iff_eq] at ha hb ⊢
  rw [utf8Run_append, ha]
  exact hb

theorem isUtf8_of_ascii {bs} (h : ∀ b ∈ bs, b < 0x80) : isUtf8 bs = true := by
  simp only [isUtf8, beq_iff_eq]
  induction bs with
  | nil => rfl
  | cons b bs ih =>
    have hb : utf8Step .ground b = some .ground := if_pos (h b (by simp))
    simp only [utf8Run, hb, Option.bind_some]
    exact ih fun c hc => h c (by simp [hc])

/-- Every range of the table lies among the continuation bytes. -/
def Utf8State.Continues : Utf8State → Prop
  | .ground => True
  | .need lo _ _ => 0x80 ≤ lo

theorem utf8Step_continues {st st' b} (h : utf8Step st b = some st') : st'.Continues := by
  cases st with
  | ground =>
    simp only [utf8Step] at h
    repeat' split at h
    all_goals cases h <;> simp [Utf8State.Continues]
  | need =>
    obtain ⟨-, h⟩ := Option.ite_none_right_eq_some.mp h
    split at h <;> cases h
    · trivial
    · exact UInt8.le_refl _

theorem utf8Run_continues (st : Utf8State) {st' bs} (hs : st.Continues)
    (h : utf8Run st bs = some st') : st'.Continues := by
  induction bs generalizing st with
  | nil => cases h; exact hs
  | cons b bs ih =>
    simp only [utf8Run] at h
    rcases hb : utf8Step st b with _ | _
    · rw [hb] at h; cases h
    rw [hb] at h
    exact ih _ (utf8Step_continues hb) h

/-- An ASCII byte is not a continuation byte, so the text before it ends at a
character boundary. -/
theorem isUtf8_before_ascii {as bs c} (hc : c < 0x80)
    (h : isUtf8 (as ++ c :: bs) = true) : isUtf8 as = true := by
  simp only [isUtf8, beq_iff_eq] at h ⊢
  rw [utf8Run_append] at h
  rcases hr : utf8Run .ground as with _ | st
  · rw [hr] at h; cases h
  rw [hr] at h
  cases st with
  | ground => rfl
  | need lo hi more =>
    have hlo : 0x80 ≤ lo := utf8Run_continues .ground trivial hr
    have hno : utf8Step (.need lo hi more) c = none :=
      if_neg fun hle => absurd (UInt8.lt_of_lt_of_le hc (UInt8.le_trans hlo hle.1))
        (UInt8.lt_irrefl c)
    simp only [Option.bind_some, utf8Run, hno] at h
    cases h

/-- A Rust `str`. -/
structure Str where
  bytes : List UInt8
  valid : isUtf8 bytes = true
  deriving DecidableEq

theorem Str.ext_bytes {s t : Str} (h : s.bytes = t.bytes) : s = t := by
  cases s; cases t; cases h; rfl

/-- The text as a Lean string, for error messages that quote it. -/
def Str.show (s : Str) : String := (String.fromUTF8? ⟨s.bytes.toArray⟩).getD ""

/-- `Utf8Error`: where the valid part ends, and how many bytes the bad sequence has;
`none` for a sequence that the text cuts short. -/
structure Utf8Error where
  validUpTo : Nat
  errorLen : Option Nat
  deriving DecidableEq, Repr

/-- `Display for Utf8Error`. -/
def Utf8Error.show (e : Utf8Error) : String :=
  match e.errorLen with
  | some len => s!"invalid utf-8 sequence of {len} bytes from index {e.validUpTo}"
  | none => s!"incomplete utf-8 byte sequence from index {e.validUpTo}"

/-- Where decoding stops: `boundary` is the last character boundary, `seen` bytes of the
next character have been accepted. -/
def utf8Error : Utf8State → Nat → Nat → List UInt8 → Utf8Error
  | _, boundary, _, [] => ⟨boundary, none⟩
  | st, boundary, seen, b :: bs =>
    match utf8Step st b with
    | none => ⟨boundary, some (max seen 1)⟩
    | some .ground => utf8Error .ground (boundary + seen + 1) 0 bs
    | some st' => utf8Error st' boundary (seen + 1) bs

def fromUtf8 (bs : List UInt8) : Except Utf8Error Str :=
  if h : isUtf8 bs = true then .ok ⟨bs, h⟩ else .error (utf8Error .ground 0 0 bs)

@[simp] theorem fromUtf8_bytes (s) : fromUtf8 s.bytes = .ok s := by
  simp [fromUtf8, s.valid]

/-! ## ASCII case -/

/-- `u8::to_ascii_lowercase`. -/
def asciiLower (b : UInt8) : UInt8 := if 65 ≤ b ∧ b ≤ 90 then b + 32 else b

theorem asciiLower_cases (b) : asciiLower b = b ∨ b < 0x80 ∧ asciiLower b < 0x80 := by
  have hall : ∀ n < 256, asciiLower (UInt8.ofNat n) = UInt8.ofNat n
      ∨ UInt8.ofNat n < 0x80 ∧ asciiLower (UInt8.ofNat n) < 0x80 := by
    decide +kernel
  have hb := hall b.toNat b.toNat_lt
  rwa [UInt8.ofNat_toNat] at hb

theorem utf8Step_asciiLower {st} (hs : st.Continues) (b : UInt8) :
    utf8Step st (asciiLower b) = utf8Step st b := by
  rcases asciiLower_cases b with h | ⟨hb, hl⟩
  · rw [h]
  cases st with
  | ground => simp only [utf8Step, hb, hl, if_true]
  | need lo hi =>
    have hno : ∀ c : UInt8, c < 0x80 → ¬(lo ≤ c ∧ c ≤ hi) := by
      intro c hc hle
      exact UInt8.lt_irrefl c (UInt8.lt_of_lt_of_le hc (UInt8.le_trans hs hle.1))
    simp only [utf8Step, if_neg (hno _ hb), if_neg (hno _ hl)]

theorem utf8Run_asciiLower {st} (hs : st.Continues) (bs : List UInt8) :
    utf8Run st (bs.map asciiLower) = utf8Run st bs := by
  induction bs generalizing st with
  | nil => rfl
  | cons b bs ih =>
    simp only [List.map_cons, utf8Run, utf8Step_asciiLower hs]
    cases hb : utf8Step st b with
    | none => rfl
    | some => exact ih (utf8Step_continues hb)

def Str.toAsciiLowercase (s : Str) : Str where
  bytes := s.bytes.map asciiLower
  valid := by
    rw [isUtf8, @utf8Run_asciiLower .ground trivial]
    exact s.valid

/-! ## Characters -/

/-- `str::chars`, by code point: `more` continuation bytes of the character whose leading
bits are `acc` are still to come. -/
def charsFrom : Nat → Nat → List UInt8 → List Nat
  | _, _, [] => []
  | 0, _, b :: bs =>
    if b < 0x80 then b.toNat :: charsFrom 0 0 bs
    else if b < 0xE0 then charsFrom 1 (b.toNat % 32) bs
    else if b < 0xF0 then charsFrom 2 (b.toNat % 16) bs
    else charsFrom 3 (b.toNat % 8) bs
  | 1, acc, b :: bs => (acc * 64 + b.toNat % 64) :: charsFrom 0 0 bs
  | more + 2, acc, b :: bs => charsFrom (more + 1) (acc * 64 + b.toNat % 64) bs

def Str.chars (s : Str) : List Nat := charsFrom 0 0 s.bytes

/-! ## White space -/

/-- The characters with the `White_Space` property. -/
def whitespace : List (List UInt8) :=
  [[0x09], [0x0A], [0x0B], [0x0C], [0x0D], [0x20], [0xC2, 0x85], [0xC2, 0xA0], [0xE1, 0x9A, 0x80],
    [0xE2, 0x80, 0x80], [0xE2, 0x80, 0x81], [0xE2, 0x80, 0x82], [0xE2, 0x80, 0x83],
    [0xE2, 0x80, 0x84], [0xE2, 0x80, 0x85], [0xE2, 0x80, 0x86], [0xE2, 0x80, 0x87],
    [0xE2, 0x80, 0x88], [0xE2, 0x80, 0x89], [0xE2, 0x80, 0x8A], [0xE2, 0x80, 0xA8],
    [0xE2, 0x80, 0xA9], [0xE2, 0x80, 0xAF], [0xE2, 0x81, 0x9F], [0xE3, 0x80, 0x80]]

def stripFront (cs : List (List UInt8)) : Nat → List UInt8 → List UInt8
  | 0, bs => bs
  | fuel + 1, bs =>
    match cs.find? fun c => decide (bs.take c.length = c) with
    | none => bs
    | some c => stripFront cs fuel (bs.drop c.length)

def trim (bs : List UInt8) : List UInt8 :=
  let bs := stripFront whitespace bs.length bs
  (stripFront (whitespace.map List.reverse) bs.length bs.reverse).reverse

example : trim [0x20, 0xC2, 0xA0, 0x61, 0x20, 0x62, 0xE2, 0x80, 0xA8] = [0x61, 0x20, 0x62] := by
  decide

end Shoes.Lib.Utf8
