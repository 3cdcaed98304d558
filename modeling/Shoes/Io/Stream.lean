import Shoes.Lib.Io

/-! # The buffered stream reader

`StreamReader` keeps what it has read and not yet handed out in a buffer of fixed size. The two
offsets matter only through the length of that part: the buffer is full exactly when nothing in
front of it can be reclaimed. -/
namespace Shoes.Io.Stream
open Lib.Io Lib.Bytes List

/-- A reader whose buffer has `size` bytes. -/
structure StreamReader (size : Nat) where
  unparsed : List UInt8
  fits : unparsed.length ≤ size

/-- A reader and the stream its callers pass with every call. -/
structure Input (size : Nat) where
  reader : StreamReader size
  stream : Source

variable {size : Nat}

/-- `StreamReader::new_with_buffer_size` in front of a stream. -/
def Input.new (stream : Source) : Input size := ⟨⟨[], Nat.zero_le _⟩, stream⟩

/-- The bytes to come: those in the buffer, then those of the stream. -/
def Input.view (st : Input size) : List UInt8 := st.reader.unparsed ++ st.stream.bytes

abbrev Reader (size : Nat) := StateT (Input size) (Except IoError)

def Input.read (st : Input size) : Except IoError (Input size) :=
  if st.reader.unparsed.length = size then .error ⟨.connectionAborted, "cache is full"⟩
  else
    let got := st.stream.read (size - st.reader.unparsed.length)
    if got.1 = [] then .error ⟨.connectionAborted, "EOF while reading"⟩
    else .ok {
      reader := {
        unparsed := st.reader.unparsed ++ got.1
        fits := by
          have hgot : got.1.length ≤ size - st.reader.unparsed.length := st.stream.read_length_le _
          have hfits := st.reader.fits
          rw [List.length_append]
          omega }
      stream := got.2 }

/-- `while self.end_offset - self.start_offset < len { self.read(stream).await? }`; every
round adds a byte, so `len` rounds are enough. -/
def Input.fill (len : Nat) : Nat → Input size → Except IoError (Input size)
  | 0, st => .ok st
  | fuel + 1, st =>
    if st.reader.unparsed.length < len then
      match st.read with
      | .error e => .error e
      | .ok st => fill len fuel st
    else .ok st

def Input.consume (len : Nat) (st : Input size) : Input size where
  reader := {
    unparsed := st.reader.unparsed.drop len
    fits := Nat.le_trans (by simp) st.reader.fits }
  stream := st.stream

/-- Waits for `len` bytes, hands them out and moves on. -/
def take (len : Nat) : Reader size (List UInt8) := fun st =>
  match st.fill len len with
  | .error e => .error e
  | .ok st => .ok (st.reader.unparsed.take len, st.consume len)

def readU8 : Reader size UInt8 := do
  let bs ← take 1
  pure (bs.getD 0 0)

def readU16Be : Reader size UInt16 := do
  let bs ← take 2
  pure (u16FromBeBytes (bs.getD 0 0) (bs.getD 1 0))

def readSlice (len : Nat) : Reader size (List UInt8) :=
  if len > size then
    throw ⟨.invalidInput, s!"Requested length {len} exceeds buffer size {size}"⟩
  else take len

/-! ## What the readers give -/

theorem Input.read_view {st : Input size} (hroom : st.reader.unparsed.length < size)
    (hmore : st.stream.bytes ≠ []) : ∃ st', st.read = .ok st' ∧ st'.view = st.view ∧
      st.reader.unparsed.length < st'.reader.unparsed.length := by
  have hne := Source.read_ne_nil (Nat.sub_pos_of_lt hroom) hmore
  unfold Input.read
  rw [if_neg hroom.ne]
  dsimp only
  rw [if_neg hne]
  refine ⟨_, rfl, ?_, ?_⟩
  · simp [Input.view, Source.read_bytes]
  · simpa using length_pos_of_ne_nil hne

theorem Input.fill_view {len} (hlen : len ≤ size) :
    ∀ (fuel : Nat) (st : Input size), len ≤ st.reader.unparsed.length + fuel →
      len ≤ st.view.length →
      ∃ st', st.fill len fuel = .ok st' ∧ st'.view = st.view ∧ len ≤ st'.reader.unparsed.length
  | 0, st, hf, _ => ⟨st, rfl, rfl, hf⟩
  | fuel + 1, st, hf, hv => by
    unfold Input.fill
    by_cases hshort : st.reader.unparsed.length < len
    swap
    · exact ⟨st, by simp [hshort], rfl, by omega⟩
    have hmore : st.stream.bytes ≠ [] := by
      intro h0
      simp only [Input.view, h0, append_nil] at hv
      omega
    obtain ⟨st₁, hr, hv₁, hlt⟩ := st.read_view (by omega) hmore
    obtain ⟨st₂, hf₂, hv₂, hl₂⟩ := fill_view hlen fuel st₁ (by omega) (by rwa [hv₁])
    exact ⟨st₂, by simp [hshort, hr, hf₂], by rw [hv₂, hv₁], hl₂⟩

theorem take_parses (bs) (hlen : bs.length ≤ size) :
    Parses Input.view (take bs.length : Reader size _) bs bs := by
  intro st rest hview
  obtain ⟨st', hfill, hv, hl⟩ := Input.fill_view hlen bs.length st (Nat.le_add_left _ _)
    (by simp [hview])
  have hsplit : st'.reader.unparsed ++ st'.stream.bytes = bs ++ rest := hv.trans hview
  refine ⟨st'.consume bs.length, ?_, ?_⟩
  · have htake : st'.reader.unparsed.take bs.length = bs := by
      rw [← take_append_of_le_length hl, hsplit, take_left]
    simp [take, hfill, htake]
  have hdrop := congrArg (List.drop bs.length) hsplit
  rw [drop_append_of_le_length hl, drop_left] at hdrop
  exact hdrop

theorem readU8_parses (b) (h : 1 ≤ size) : Parses Input.view (readU8 : Reader size _) [b] b := by
  have hp := (take_parses [b] h).map fun bs => bs.getD 0 0
  exact hp

theorem readU16Be_parses (x) (h : 2 ≤ size) :
    Parses Input.view (readU16Be : Reader size _) (u16ToBeBytes x) x := by
  have hx : u16FromBeBytes ((u16ToBeBytes x).getD 0 0) ((u16ToBeBytes x).getD 1 0) = x :=
    u16FromBeBytes_toBeBytes x
  have hp := (take_parses (u16ToBeBytes x) h).map
    fun bs => u16FromBeBytes (bs.getD 0 0) (bs.getD 1 0)
  rw [hx] at hp
  exact hp

theorem readSlice_parses (bs) (h : bs.length ≤ size) :
    Parses Input.view (readSlice bs.length : Reader size _) bs bs := by
  unfold readSlice
  rw [if_neg (by omega)]
  exact take_parses bs h

/-! ## What is read and what is left -/

theorem Input.read_ok_view {st st' : Input size} (h : st.read = .ok st') : st'.view = st.view := by
  obtain ⟨-, h⟩ := of_ite_error h
  dsimp only at h
  split at h <;> cases h
  simp [Input.view, Source.read_bytes]

theorem Input.fill_ok_view {len fuel} {st st' : Input size}
    (h : st.fill len fuel = .ok st') : st'.view = st.view := by
  induction fuel generalizing st with
  | zero =>
    cases h
    rfl
  | succ fuel ih =>
    unfold Input.fill at h
    split at h
    · split at h
      · cases h
      · rename_i st₁ hread
        rw [ih h, Input.read_ok_view hread]
    cases h
    rfl

/-- **What is handed out and what is left make up what was there.** -/
theorem readSlice_ok_view {len} {st st' : Input size} {bs}
    (h : readSlice len st = .ok (bs, st')) : st.view = bs ++ st'.view := by
  unfold readSlice at h
  split at h
  · cases h
  unfold take at h
  split at h <;> cases h
  rename_i st₁ hfill
  rw [← Input.fill_ok_view hfill, Input.view, Input.view]
  simp [Input.consume, ← append_assoc]

end Shoes.Io.Stream
