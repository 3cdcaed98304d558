import Shoes.Lib.IpText
import Mathlib.Data.List.Forall2

/-! # JSON texts

The grammar of compact JSON texts over strings, natural numbers of 64 bits and objects, and a reader
that is complete for it. Only control characters and those with a short escape are escaped. -/
namespace Shoes.Lib.Json
open IpText List Option

/-! ## Strings and their bytes -/

def bytes (s : String) : List UInt8 := s.toByteArray.data.toList

def ofBytes (bs : List UInt8) : Option String := String.fromUTF8? ⟨bs.toArray⟩

theorem ofBytes_bytes (s) : ofBytes (bytes s) = some s := by
  have harray : (⟨(bytes s).toArray⟩ : ByteArray) = s.toByteArray := by simp [bytes]
  unfold ofBytes String.fromUTF8?
  rw [harray, dif_pos s.isValidUTF8]
  rfl

theorem bytes_injective : Function.Injective bytes := by
  intro s s' h
  have hsome : some s = some s' := by rw [← ofBytes_bytes s, ← ofBytes_bytes s', h]
  exact Option.some.inj hsome

/-- ASCII text. -/
def ascii (bs : List UInt8) : String := String.ofList (bs.map fun b => Char.ofNat b.toNat)

theorem encode_ascii : ∀ n < 128, String.utf8EncodeChar (Char.ofNat n) = [UInt8.ofNat n] := by
  decide

theorem bytes_ascii (h : ∀ b ∈ bs, b < 0x80) : bytes (ascii bs) = bs := by
  have hflat : bytes (ascii bs) =
      bs.flatMap fun b => String.utf8EncodeChar (Char.ofNat b.toNat) := by
    simp [bytes, ascii, List.utf8Encode, flatMap_map]
  rw [hflat]
  clear hflat
  induction bs with
  | nil => rfl
  | cons b bs ih =>
    have hb : b.toNat < 128 := h b mem_cons_self
    rw [flatMap_cons, encode_ascii _ hb, UInt8.ofNat_toNat, ih (forall_mem_cons.mp h).2]
    rfl

/-! ## Values -/

mutual

inductive Value
  | str (s : String)
  | num (n : Nat)
  | obj (members : Members)

inductive Members
  | nil
  | cons (key : String) (value : Value) (rest : Members)

end

def Members.ofList : List (String × Value) → Members
  | [] => .nil
  | e :: rest => .cons e.1 e.2 (ofList rest)

def Members.toList : Members → List (String × Value)
  | .nil => []
  | .cons key value rest => (key, value) :: rest.toList

@[simp] theorem Members.toList_ofList (es) : (Members.ofList es).toList = es := by
  induction es with
  | nil => rfl
  | cons e es ih =>
    show (e.1, e.2) :: (Members.ofList es).toList = e :: es
    rw [ih]

/-! ## The grammar -/

/-- The escapes of two characters. -/
def unescape (c : UInt8) : Option UInt8 :=
  if c = 34 then some 34
  else if c = 92 then some 92
  else if c = 47 then some 47
  else if c = 98 then some 8
  else if c = 102 then some 12
  else if c = 110 then some 10
  else if c = 114 then some 13
  else if c = 116 then some 9
  else none

/-- What follows a backslash: one of the short escapes, or the number of a control character. -/
inductive Escape : UInt8 → List UInt8 → Prop
  | short {c b : UInt8} (h : unescape c = some b) : Escape b [c]
  | unicode {high low : UInt8} {x y : Nat} (hx : toDigit 16 high = some x)
      (hy : toDigit 16 low = some y) (hcontrol : x < 2) :
      Escape (UInt8.ofNat (16 * x + y)) [117, 48, 48, high, low]

/-- The inside of a string literal. -/
inductive Body : List UInt8 → List UInt8 → Prop
  | nil : Body [] []
  | plain {b : UInt8} {s text : List UInt8} (hb : ¬b < 32) (hquote : b ≠ 34) (hslash : b ≠ 92)
      (h : Body s text) : Body (b :: s) (b :: text)
  | escape {b : UInt8} {s escaped text : List UInt8} (he : Escape b escaped) (h : Body s text) :
      Body (b :: s) (92 :: (escaped ++ text))

def StrText (s : String) (text : List UInt8) : Prop :=
  ∃ body, Body (bytes s) body ∧ text = 34 :: (body ++ [34])

def maxNum : Nat := 18446744073709551615

mutual

inductive Text : Value → List UInt8 → Prop
  | str {s : String} {text : List UInt8} (h : StrText s text) : Text (.str s) text
  | num {n : Nat} (h : n ≤ maxNum) : Text (.num n) (numText 10 n)
  | empty : Text (.obj .nil) [123, 125]
  | obj {members : Members} {text : List UInt8} (h : MembersText members text) :
      Text (.obj members) (123 :: (text ++ [125]))

/-- One member or more, with commas between them. -/
inductive MembersText : Members → List UInt8 → Prop
  | one {key : String} {keyText valueText : List UInt8} {value : Value}
      (hkey : StrText key keyText) (hvalue : Text value valueText) :
      MembersText (.cons key value .nil) (keyText ++ 58 :: valueText)
  | more {key : String} {keyText valueText restText : List UInt8} {value : Value}
      {rest : Members} (hkey : StrText key keyText) (hvalue : Text value valueText)
      (hrest : MembersText rest restText) :
      MembersText (.cons key value rest) (keyText ++ 58 :: (valueText ++ 44 :: restText))

end

/-! ## The reader -/

def readEscape : List UInt8 → Option (UInt8 × List UInt8)
  | [] => none
  | c :: rest =>
    if c = 117 then
      match rest with
      | a :: b :: high :: low :: rest =>
        match toDigit 16 high, toDigit 16 low with
        | some x, some y =>
          if a = 48 ∧ b = 48 ∧ x < 2 then some (UInt8.ofNat (16 * x + y), rest) else none
        | _, _ => none
      | _ => none
    else (unescape c).map fun b => (b, rest)

/-- A string literal behind its opening quote. -/
def readBody : Nat → List UInt8 → Option (List UInt8 × List UInt8)
  | 0, _ => none
  | _ + 1, [] => none
  | fuel + 1, b :: rest =>
    if b = 34 then some ([], rest)
    else if b = 92 then
      (readEscape rest).bind fun e => (readBody fuel e.2).map fun r => (e.1 :: r.1, r.2)
    else if b < 32 then none
    else (readBody fuel rest).map fun r => (b :: r.1, r.2)

def readStr (fuel : Nat) (bs : List UInt8) : Option (String × List UInt8) :=
  (readBody fuel bs).bind fun r => (ofBytes r.1).map fun s => (s, r.2)

def expect (b : UInt8) : List UInt8 → Option (List UInt8)
  | [] => none
  | c :: rest => if c = b then some rest else none

mutual

def readValue : Nat → List UInt8 → Option (Value × List UInt8)
  | 0, _ => none
  | fuel + 1, bs =>
    match expect 34 bs with
    | some rest => (readStr fuel rest).map fun r => (.str r.1, r.2)
    | none =>
      match expect 123 bs with
      | some rest =>
        match expect 125 rest with
        | some rest => some (.obj .nil, rest)
        | none => (readMembers fuel rest).map fun r => (.obj r.1, r.2)
      | none => (readNumber 10 20 maxNum false bs).map fun r => (.num r.1, r.2)

def readMembers : Nat → List UInt8 → Option (Members × List UInt8)
  | 0, _ => none
  | fuel + 1, bs =>
    (expect 34 bs).bind fun rest =>
      (readStr fuel rest).bind fun key =>
        (expect 58 key.2).bind fun rest =>
          (readValue fuel rest).bind fun value =>
            match expect 125 value.2 with
            | some rest => some (.cons key.1 value.1 .nil, rest)
            | none =>
              (expect 44 value.2).bind fun rest =>
                (readMembers fuel rest).map fun r => (.cons key.1 value.1 r.1, r.2)

end

def read (bs : List UInt8) : Option Value :=
  match readValue (bs.length + 1) bs with
  | some (value, []) => some value
  | _ => none

/-! ## Completeness -/

theorem Escape.read (h : Escape b escaped) (rest) :
    readEscape (escaped ++ rest) = some (b, rest) := by
  cases h with
  | @short c b h =>
    have hne : c ≠ 117 := by
      intro hc
      rw [hc] at h
      cases h
    show (if c = 117 then _ else (unescape c).map fun b => (b, rest)) = _
    rw [if_neg hne, h]
    rfl
  | @unicode high low x y hx hy hcontrol => simp [readEscape, hx, hy, hcontrol]

theorem Body.read (h : Body s text) (rest) :
    ∀ fuel, text.length < fuel → readBody fuel (text ++ 34 :: rest) = some (s, rest) := by
  induction h with
  | nil =>
    intro fuel hfuel
    obtain ⟨fuel, rfl⟩ := Nat.exists_eq_succ_of_ne_zero hfuel.ne'
    rfl
  | @plain b s text hb hquote hslash h ih =>
    intro fuel hfuel
    obtain ⟨fuel, rfl⟩ := Nat.exists_eq_succ_of_ne_zero (Nat.ne_zero_of_lt hfuel)
    rw [length_cons] at hfuel
    have hrest := ih fuel (by omega)
    show (if b = 34 then _ else if b = 92 then _ else if b < 32 then none
      else (readBody fuel (text ++ 34 :: rest)).map fun r => (b :: r.1, r.2)) = _
    rw [if_neg hquote, if_neg hslash, if_neg hb, hrest]
    rfl
  | @escape b s escaped text he h ih =>
    intro fuel hfuel
    obtain ⟨fuel, rfl⟩ := Nat.exists_eq_succ_of_ne_zero (Nat.ne_zero_of_lt hfuel)
    rw [length_cons, length_append] at hfuel
    have hrest := ih fuel (by omega)
    show (readEscape (escaped ++ text ++ 34 :: rest)).bind (fun e =>
      (readBody fuel e.2).map fun r => (e.1 :: r.1, r.2)) = _
    rw [append_assoc, he.read, bind_some, hrest]
    rfl

theorem expect_self (b rest) : expect b (b :: rest) = some rest := if_pos rfl

theorem expect_ne (h : c ≠ b) (rest) : expect b (c :: rest) = none :=
  if_neg h

theorem StrText.read (h : StrText s text) (hfuel : text.length ≤ fuel) (rest) :
    ∃ unread, expect 34 (text ++ rest) = some unread ∧ readStr fuel unread = some (s, rest) := by
  obtain ⟨body, hbody, rfl⟩ := h
  have hlen : (34 :: (body ++ [34])).length = body.length + 2 := by simp
  have hread := hbody.read rest fuel (by omega)
  refine ⟨body ++ 34 :: rest, ?_, ?_⟩
  · rw [cons_append, append_assoc, expect_self]
    rfl
  rw [readStr, hread, bind_some, ofBytes_bytes]
  rfl

theorem MembersText.starts (h : MembersText members text) : ∃ rest, text = 34 :: rest := by
  cases h with
  | one hkey | more hkey =>
    obtain ⟨body, -, rfl⟩ := hkey
    exact ⟨_, rfl⟩

theorem numText_starts (n) : ∃ b rest, numText 10 n = b :: rest ∧ b ≠ 34 ∧ b ≠ 123 := by
  rcases htext : numText 10 n with _ | ⟨b, rest⟩
  · exact absurd htext (numText_ne_nil (by decide) n)
  have hdigit : (toDigit 10 b).isSome = true :=
    toDigit_of_mem_numText (n := n) (by decide) (by decide) (by rw [htext]; exact .head _)
  refine ⟨b, rest, rfl, ?_, ?_⟩
  · rintro rfl
    cases hdigit
  rintro rfl
  cases hdigit

theorem stops_byte (h : toDigit 10 b = none) (rest) : Stops 10 (b :: rest) := by
  intro c hc
  cases hc
  exact h

mutual

theorem Text.read (h : Text value text) (fuel rest) (hfuel : text.length < fuel)
    (hstops : Stops 10 rest) : readValue fuel (text ++ rest) = some (value, rest) := by
  obtain ⟨fuel, rfl⟩ := Nat.exists_eq_succ_of_ne_zero (Nat.ne_zero_of_lt hfuel)
  cases h with
  | str h =>
    obtain ⟨unread, hquote, hread⟩ := h.read (Nat.le_of_lt_succ hfuel) rest
    rw [readValue, hquote]
    show (readStr fuel unread).map _ = _
    rw [hread]
    rfl
  | @num n h =>
    obtain ⟨b, digits, htext, hquote, hbrace⟩ := numText_starts n
    have hnum : readNumber 10 20 maxNum false (numText 10 n ++ rest) = some (n, rest) :=
      readNumber_numText (by decide) (by decide) (by decide)
        (h.trans_lt (by decide)) h hstops
    rw [htext, cons_append] at hnum ⊢
    rw [readValue, expect_ne hquote, expect_ne hbrace]
    rw [hnum]
    rfl
  | empty => rfl
  | @obj members text h =>
    obtain ⟨inside, rfl⟩ := h.starts
    rw [length_cons, length_append] at hfuel
    have hread := h.read fuel rest (by omega)
    have hall : 123 :: (34 :: inside ++ [125]) ++ rest = 123 :: (34 :: inside ++ 125 :: rest) := by
      simp
    rw [hall, readValue, expect_ne (by decide), expect_self]
    show (match expect 125 (34 :: (inside ++ 125 :: rest)) with
      | some rest => some (Value.obj .nil, rest)
      | none => (readMembers fuel (34 :: inside ++ 125 :: rest)).map _) = _
    rw [expect_ne (by decide), hread]
    rfl

theorem MembersText.read (h : MembersText members text) (fuel rest) (hfuel : text.length < fuel) :
    readMembers fuel (text ++ 125 :: rest) = some (members, rest) := by
  obtain ⟨fuel, rfl⟩ := Nat.exists_eq_succ_of_ne_zero (Nat.ne_zero_of_lt hfuel)
  cases h with
  | @one key keyText valueText value hkey hvalue =>
    rw [length_append, length_cons] at hfuel
    obtain ⟨unread, hquote, hname⟩ := hkey.read (by omega : keyText.length ≤ fuel)
      (58 :: (valueText ++ 125 :: rest))
    have hread := hvalue.read fuel (125 :: rest) (by omega) (stops_byte (by decide) rest)
    rw [append_assoc, cons_append, readMembers, hquote, bind_some, hname,
      bind_some, expect_self, bind_some, hread, bind_some, expect_self]
  | @more key keyText valueText restText value members hkey hvalue hrest =>
    rw [length_append, length_cons, length_append, length_cons] at hfuel
    have htail := hrest.read fuel rest (by omega)
    obtain ⟨unread, hquote, hname⟩ := hkey.read (by omega : keyText.length ≤ fuel)
      (58 :: (valueText ++ 44 :: (restText ++ 125 :: rest)))
    have hread := hvalue.read fuel (44 :: (restText ++ 125 :: rest)) (by omega)
      (stops_byte (by decide) _)
    have hall : keyText ++ 58 :: (valueText ++ 44 :: restText) ++ 125 :: rest =
        keyText ++ 58 :: (valueText ++ 44 :: (restText ++ 125 :: rest)) := by
      simp
    rw [hall, readMembers, hquote, bind_some, hname, bind_some, expect_self,
      bind_some, hread, bind_some, expect_ne (by decide), expect_self,
      bind_some, htail]
    rfl

end

/-- **The reader accepts every text of the grammar** with the value it stands for. -/
theorem Text.read_eq (h : Text value text) : Json.read text = some value := by
  have hread := h.read (text.length + 1) [] (Nat.lt_succ_self _) (stops_nil 10)
  rw [append_nil] at hread
  unfold Json.read
  rw [hread]

/-! ## Writing -/

def writeByte (b : UInt8) : List UInt8 :=
  if b = 34 then [92, 34]
  else if b = 92 then [92, 92]
  else if b = 8 then [92, 98]
  else if b = 12 then [92, 102]
  else if b = 10 then [92, 110]
  else if b = 13 then [92, 114]
  else if b = 9 then [92, 116]
  else if b < 32 then [92, 117, 48, 48, digitByte (b.toNat / 16), digitByte (b.toNat % 16)]
  else [b]

def writeStr (s : String) : List UInt8 := 34 :: ((bytes s).flatMap writeByte ++ [34])

theorem Body.control (hb : b < 32) (h : Body s text) : Body (b :: s)
      (92 :: ([117, 48, 48, digitByte (b.toNat / 16), digitByte (b.toNat % 16)] ++ text)) := by
  have hlt : b.toNat < 32 := hb
  have hhigh : toDigit 16 (digitByte (b.toNat / 16)) = some (b.toNat / 16) :=
    toDigit_digitByte (by omega) (by decide)
  have hlow : toDigit 16 (digitByte (b.toNat % 16)) = some (b.toNat % 16) :=
    toDigit_digitByte (by omega) (by decide)
  have hescape := Escape.unicode hhigh hlow (by omega)
  rw [Nat.div_add_mod, UInt8.ofNat_toNat] at hescape
  exact .escape hescape h

theorem Body.short (hc : unescape c = some b)
    (h : Body s text) : Body (b :: s) ([92, c] ++ text) := .escape (.short hc) h

theorem Body.writeByte (h : Body s text) (b) : Body (b :: s) (Json.writeByte b ++ text) := by
  unfold Json.writeByte
  -- a byte with a short escape; a control character without one; a byte that stands for itself
  iterate 2
    split
    · next hb =>
      rw [hb]
      exact .short rfl h
  iterate 5
    split
    · next hb => exact hb ▸ .short rfl h
  split
  · next hb => exact .control hb h
  · next hquote hslash _ _ _ _ _ hb => exact .plain hb hquote hslash h

theorem Body.write (s) : Body s (s.flatMap Json.writeByte) := by
  induction s with
  | nil => exact .nil
  | cons b s ih => exact ih.writeByte b

theorem writeStr_text (s) : StrText s (writeStr s) := ⟨_, Body.write (bytes s), rfl⟩

/-- One member of an object. -/
def MemberText (e : String × Value) (text : List UInt8) : Prop :=
  ∃ keyText valueText, StrText e.1 keyText ∧ Text e.2 valueText ∧ text = keyText ++ 58 :: valueText

/-- Texts with a comma before each but the first of all; `index` of them are written already. -/
def joined : Nat → List (List UInt8) → List UInt8
  | _, [] => []
  | index, text :: rest => (if 0 < index then [44] else []) ++ text ++ joined (index + 1) rest

theorem joined_append (index texts texts') : joined index (texts ++ texts') =
      joined index texts ++ joined (index + texts.length) texts' := by
  induction texts generalizing index with
  | nil => rfl
  | cons text texts ih =>
    have hlen : index + (texts.length + 1) = index + 1 + texts.length := by omega
    simp only [cons_append, joined, length_cons, ih, hlen, append_assoc]

theorem joined_congr (h : 0 < index) (h' : 0 < index')
    (texts) : joined index texts = joined index' texts := by
  induction texts generalizing index index' with
  | nil => rfl
  | cons text rest ih =>
    unfold joined
    rw [if_pos h, if_pos h', ih (Nat.succ_pos index) (Nat.succ_pos index')]

theorem membersText_joined (h : List.Forall₂ MemberText es texts) (hne : es ≠ []) :
    MembersText (.ofList es) (joined 0 texts) := by
  induction h with
  | nil => exact absurd rfl hne
  | @cons e text es texts he hes ih =>
    obtain ⟨keyText, valueText, hkey, hvalue, rfl⟩ := he
    cases hes with
    | nil =>
      show MembersText (.cons e.1 e.2 .nil) (keyText ++ 58 :: valueText ++ [])
      rw [append_nil]
      exact .one hkey hvalue
    | @cons e' text' es texts he' hes =>
      have hall : joined 0 ((keyText ++ 58 :: valueText) :: text' :: texts) =
          keyText ++ 58 :: (valueText ++ 44 :: joined 0 (text' :: texts)) := by
        show keyText ++ 58 :: valueText ++ 44 :: (text' ++ joined 2 texts) = _
        rw [joined_congr (Nat.succ_pos 1) (Nat.succ_pos 0)]
        simp [joined]
      rw [hall]
      exact .more hkey hvalue (ih (cons_ne_nil _ _))

/-- **Members joined by commas make an object**, also if there are none. -/
theorem text_joined (h : List.Forall₂ MemberText es texts) :
    Text (.obj (.ofList es)) (123 :: (joined 0 texts ++ [125])) := by
  by_cases hes : es = []
  · rw [hes] at h ⊢
    cases h
    exact .empty
  · exact .obj (membersText_joined h hes)

end Shoes.Lib.Json
