import Shoes.Lib.Bytes
import Mathlib.Data.List.Basic

/-! # Errors and byte sources

`std::io::Error` by kind and text, and an asynchronous byte source: what is still to come, cut where
the transport delivers it, and then end of file. -/
namespace Shoes.Lib.Io
open List

inductive ErrorKind
  | other
  | invalidData
  | invalidInput
  | permissionDenied
  | connectionAborted
  | connectionReset
  | unexpectedEof
  | unsupported
  | writeZero
  | brokenPipe
  | timedOut
  | outOfMemory
  deriving DecidableEq, Repr

structure IoError where
  kind : ErrorKind
  message : String
  deriving DecidableEq, Repr

def IoError.other (message : String) : IoError := ⟨.other, message⟩

inductive Poll (α : Type)
  | pending
  | ready (a : α)
  deriving DecidableEq

/-- A byte source. No delivery is empty: an empty read is end of file. -/
structure Source where
  chunks : List (List UInt8)
  nonempty : ∀ c ∈ chunks, c ≠ []
  deriving DecidableEq, Repr

def Source.bytes (s : Source) : List UInt8 := s.chunks.flatten

theorem Source.exists_bytes (bs) : ∃ s : Source, s.bytes = bs := by
  by_cases h : bs = []
  · exact ⟨⟨[], by simp⟩, by simp [Source.bytes, h]⟩
  · exact ⟨⟨[bs], by simpa using h⟩, by simp [Source.bytes]⟩

def Source.read (room : Nat) : Source → List UInt8 × Source
  | ⟨[], h⟩ => ([], ⟨[], h⟩)
  | ⟨c :: cs, h⟩ =>
    if hr : c.length ≤ room then (c, ⟨cs, fun d hd => h d (by simp [hd])⟩)
    else (c.take room, ⟨c.drop room :: cs, by
      intro d hd
      rcases List.mem_cons.mp hd with rfl | hd
      · simpa using hr
      · exact h d (by simp [hd])⟩)

theorem Source.read_bytes (room) (s : Source) :
    (s.read room).1 ++ (s.read room).2.bytes = s.bytes := by
  obtain ⟨chunks, h⟩ := s
  rcases chunks with _ | ⟨_, _⟩
  · rfl
  simp only [Source.read]
  split
  · simp [Source.bytes]
  · simp [Source.bytes, ← append_assoc]

theorem Source.read_length_le (room) (s : Source) : (s.read room).1.length ≤ room := by
  obtain ⟨chunks, h⟩ := s
  rcases chunks with _ | ⟨_, _⟩
  · simp [Source.read]
  simp only [Source.read]
  split
  · assumption
  · simp

theorem Source.read_ne_nil {room} {s : Source} (hr : 0 < room) (hs : s.bytes ≠ []) :
    (s.read room).1 ≠ [] := by
  obtain ⟨chunks, h⟩ := s
  rcases chunks with _ | ⟨c, _⟩
  · exact absurd rfl hs
  have hc := h c (by simp)
  simp only [Source.read]
  split
  · exact hc
  simp only [ne_eq, take_eq_nil_iff, not_or]
  exact ⟨by omega, hc⟩

/-- `read_exact`: reads until `n` bytes are there. Each read but the last brings at least
one byte, so `n` rounds are enough. -/
def Source.readExactLoop : Nat → Nat → List UInt8 → Source → Except IoError (List UInt8 × Source)
  | _, 0, acc, s => .ok (acc, s)
  | 0, _ + 1, acc, s => .ok (acc, s)
  | fuel + 1, n + 1, acc, s =>
    match s.read (n + 1) with
    | ([], _) => .error ⟨.unexpectedEof, "early eof"⟩
    | (got, s) => readExactLoop fuel (n + 1 - got.length) (acc ++ got) s

def Source.readExact (n : Nat) (s : Source) : Except IoError (List UInt8 × Source) :=
  readExactLoop n n [] s

theorem Source.readExactLoop_bytes :
    ∀ (fuel n : Nat) (acc : List UInt8) (s : Source), n ≤ fuel → n ≤ s.bytes.length →
      ∃ s', readExactLoop fuel n acc s = .ok (acc ++ s.bytes.take n, s') ∧ s'.bytes = s.bytes.drop n
  | fuel, 0, acc, s, _, _ => ⟨s, by cases fuel <;> simp [readExactLoop], by simp⟩
  | fuel + 1, n + 1, acc, s, hf, hn => by
    have hne := read_ne_nil (Nat.succ_pos n) (s := s) (by intro h0; simp [h0] at hn)
    have hle := read_length_le (n + 1) s
    have hsplit := read_bytes (n + 1) s
    unfold readExactLoop
    generalize hr : s.read (n + 1) = r at hne hle hsplit
    obtain ⟨got, s₁⟩ := r
    rcases got with _ | ⟨g, gs⟩
    · exact absurd rfl hne
    simp only at hle hsplit
    -- what is still missing is what the rest of the source has to give
    have hlen : s.bytes.length = (g :: gs).length + s₁.bytes.length := by
      rw [← hsplit, length_append]
    obtain ⟨s', hok, hs'⟩ := readExactLoop_bytes fuel (n + 1 - (g :: gs).length)
      (acc ++ (g :: gs)) s₁ (by simp; omega) (by omega)
    have htake : s.bytes.take (n + 1) = (g :: gs) ++ s₁.bytes.take (n + 1 - (g :: gs).length) := by
      rw [← hsplit, take_append, take_of_length_le hle]
    have hdrop : s.bytes.drop (n + 1) = s₁.bytes.drop (n + 1 - (g :: gs).length) := by
      rw [← hsplit, drop_append, drop_of_length_le hle, nil_append]
    exact ⟨s', by rw [htake, ← append_assoc]; exact hok, by rw [hs', hdrop]⟩

theorem Source.readExact_bytes {n} {s : Source} (hn : n ≤ s.bytes.length) :
    ∃ s', s.readExact n = .ok (s.bytes.take n, s') ∧ s'.bytes = s.bytes.drop n := by
  simpa [readExact] using readExactLoop_bytes n n [] s (Nat.le_refl n) hn

/-! ## Readers -/

section Parses
variable {σ α β : Type} {view : σ → List UInt8}

/-- From every state whose bytes to come start with `bs`, the reader gives `a` and has
consumed `bs` and nothing more. -/
def Parses (view : σ → List UInt8) (m : StateT σ (Except IoError) α) (bs : List UInt8) (a : α) :
    Prop :=
  ∀ st rest, view st = bs ++ rest → ∃ st', m st = .ok (a, st') ∧ view st' = rest

theorem Parses.pure (a : α) : Parses view (Pure.pure a) [] a :=
  fun st rest h => ⟨st, rfl, by simpa using h⟩

theorem Parses.bind {m : StateT σ (Except IoError) α} {f : α → StateT σ (Except IoError) β}
    {as bs : List UInt8} {a : α} {b : β} (hm : Parses view m as a) (hf : Parses view (f a) bs b) :
    Parses view (m >>= f) (as ++ bs) b := by
  intro st rest h
  obtain ⟨st₁, h₁, hv₁⟩ := hm st (bs ++ rest) (by simpa using h)
  obtain ⟨st₂, h₂, hv₂⟩ := hf st₁ rest hv₁
  refine ⟨st₂, ?_, hv₂⟩
  change (m st >>= fun p => f p.1 p.2) = _
  rw [h₁]
  exact h₂

theorem Parses.map {m bs a} (f : α → β)
    (hm : Parses view m bs a) : Parses view (m >>= fun x => Pure.pure (f x)) bs (f a) := by
  rw [← append_nil bs]
  exact hm.bind (Parses.pure (f a))

theorem Parses.lift {x : Except IoError α} {a : α} (h : x = .ok a) :
    Parses view (liftM x : StateT σ (Except IoError) α) [] a := by
  subst h
  exact fun st rest hv => ⟨st, rfl, by simpa using hv⟩

/-- Whatever the reader returns has a property, whatever it reads. -/
def Returns (m : StateT σ (Except IoError) α) (P : α → Prop) : Prop :=
  ∀ st a st', m st = .ok (a, st') → P a

theorem Returns.pure {P a} (h : P a) : Returns (Pure.pure a : StateT σ (Except IoError) α) P := by
  intro st b st' hb
  cases hb
  exact h

theorem Returns.bind {m : StateT σ (Except IoError) α} {f : α → StateT σ (Except IoError) β}
    {P : α → Prop} {Q : β → Prop} (hm : Returns m P) (hf : ∀ a, P a → Returns (f a) Q) :
    Returns (m >>= f) Q := by
  intro st b st' hb
  change (m st >>= fun p => f p.1 p.2) = .ok (b, st') at hb
  rcases h : m st with _ | r
  · rw [h] at hb; cases hb
  rw [h] at hb
  exact hf r.1 (hm st r.1 r.2 h) r.2 b st' hb

theorem Returns.any (m : StateT σ (Except IoError) α) : Returns m fun _ => True :=
  fun _ _ _ _ => trivial

theorem Returns.skip {m : StateT σ (Except IoError) α} {f : α → StateT σ (Except IoError) β}
    {Q : β → Prop} (hf : ∀ a, Returns (f a) Q) : Returns (m >>= f) Q :=
  (Returns.any m).bind fun a _ => hf a

/-- All errors of the reader have a property. -/
def Fails (m : StateT σ (Except IoError) α) (P : IoError → Prop) : Prop :=
  ∀ st e, m st = .error e → P e

theorem Fails.pure {P} (a) : Fails (Pure.pure a : StateT σ (Except IoError) α) P := by
  intro st e h
  cases h

theorem Fails.throw {P e} (h : P e) : Fails (throw e : StateT σ (Except IoError) α) P := by
  intro st e' he
  cases he
  exact h

theorem Fails.bind {P : IoError → Prop} {m : StateT σ (Except IoError) α}
    {f : α → StateT σ (Except IoError) β} (hm : Fails m P) (hf : ∀ a, Fails (f a) P) :
    Fails (m >>= f) P := by
  intro st e h
  change (m st >>= fun p => f p.1 p.2) = .error e at h
  rcases hst : m st with _ | p
  · rw [hst] at h
    cases h
    exact hm st e hst
  rw [hst] at h
  exact hf p.1 p.2 e h

theorem Fails.lift {P : IoError → Prop} {x : Except IoError α} (h : ∀ e, x = .error e → P e) :
    Fails (liftM x : StateT σ (Except IoError) α) P := by
  intro st e he
  cases x with
  | error =>
    cases he
    exact h e rfl
  | ok => cases he

end Parses

theorem exists_of_bind_ok {ε α β : Type} {x : Except ε α} {f : α → Except ε β} {b : β}
    (h : (x >>= f) = .ok b) : ∃ a, x = .ok a ∧ f a = .ok b := by
  cases x with
  | error => cases h
  | ok a => exact ⟨a, rfl, h⟩

theorem of_ite_error {ε α : Type} {c : Prop} [Decidable c] {e : ε} {x : Except ε α} {a : α}
    (h : (if c then .error e else x) = .ok a) : ¬c ∧ x = .ok a := by
  split at h
  · cases h
  · exact ⟨‹_›, h⟩

theorem exists_of_mapM_ok {ε α β : Type} {f : α → Except ε β} {x : α} {xs : List α} {ys : List β}
    (h : (x :: xs).mapM f = .ok ys) : ∃ y rest, f x = .ok y ∧ xs.mapM f = .ok rest ∧ ys =
    y :: rest := by
  rw [mapM_cons] at h
  obtain ⟨y, hy, h⟩ := exists_of_bind_ok h
  obtain ⟨rest, hrest, h⟩ := exists_of_bind_ok h
  cases h
  exact ⟨y, rest, hy, hrest, rfl⟩

theorem exists_of_map_ok {ε α β : Type} {f : α → β} {x : Except ε α} {b : β}
    (h : x.map f = .ok b) : ∃ a, x = .ok a ∧ f a = b := by
  cases x with
  | error => cases h
  | ok a => exact ⟨a, rfl, Except.ok.inj h⟩

end Shoes.Lib.Io
