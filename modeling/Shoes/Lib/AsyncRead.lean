import Shoes.Lib.Io

/-! # Asynchronous readers

An asynchronous function runs until it awaits a read. What it has on its own stack is lost when its
future is dropped there; what it has stored outlives it. `drive` calls it again and again over a
stream that is cut anywhere, with futures dropped anywhere. For a function that can be resumed from
what it has stored, and that takes a read in parts, neither makes a difference. -/
namespace Shoes.Lib.AsyncRead
open Io Bytes List

/-- Where a function comes to: it awaits up to `room` bytes, or it returns. -/
inductive Await (S L R : Type)
  | read (room : Nat) (locals : L) (state : S)
  | ret (result : R) (state : S)

/-- A function that awaits reads. A read of nothing is the end of the stream. -/
structure Async (S L R : Type) where
  start : S → Await S L R
  resume : L → S → List UInt8 → Await S L R

/-- What the stream does next: it has bytes, or it has none yet and the future that waits for them
may be dropped. -/
inductive Item
  | bytes (first : UInt8) (rest : List UInt8)
  | pending (dropped : Bool)

inductive Close
  | eof
  | failed (e : IoError)

/-- How frames end when the stream ends between two of them. -/
def Close.result : Close → Except IoError Unit
  | .eof => .ok ()
  | .failed e => .error e

def Item.data : Item → List UInt8
  | .bytes first rest => first :: rest
  | .pending _ => []

def scriptBytes (script : List Item) : List UInt8 := script.flatMap Item.data

/-- Bytes in front of what comes next. -/
def putBack : List UInt8 → List Item → List Item
  | [], script => script
  | b :: bs, script => .bytes b bs :: script

/-- A stream that has all its bytes at once. -/
def whole (bs : List UInt8) : List Item := putBack bs []

theorem scriptBytes_cons (item script) :
    scriptBytes (item :: script) = item.data ++ scriptBytes script := flatMap_cons

variable (bs : List UInt8)

theorem scriptBytes_putBack (script) :
    scriptBytes (putBack bs script) = bs ++ scriptBytes script := by
  cases bs <;> rfl

theorem scriptBytes_whole : scriptBytes (whole bs) = bs :=
  (scriptBytes_putBack bs []).trans (append_nil bs)

theorem putBack_length_le (script) : (putBack bs script).length ≤ script.length + 1 := by
  cases bs with
  | nil => exact Nat.le_succ _
  | cons => exact le_rfl

variable {n : Nat} {bs : List UInt8}

section
variable {S L F : Type} (A : Async S L (Except IoError (Option F))) (close : Close)

/-- Frame after frame, until the function fails or comes to the end. -/
def drive : Nat → Await S L (Except IoError (Option F)) → List Item → List F × Except IoError Unit
  | 0, _, _ => ([], .ok ())
  | fuel + 1, .ret (.ok (some frame)) s, script =>
    (frame :: (drive fuel (A.start s) script).1, (drive fuel (A.start s) script).2)
  | _ + 1, .ret (.ok none) _, _ => ([], .ok ())
  | _ + 1, .ret (.error e) _, _ => ([], .error e)
  | fuel + 1, .read _ l s, [] =>
    match close with
    | .eof => drive fuel (A.resume l s []) []
    | .failed e => ([], .error e)
  | fuel + 1, .read n l s, .pending dropped :: script =>
    drive fuel (if dropped then A.start s else .read n l s) script
  | fuel + 1, .read n l s, .bytes b bs :: script =>
    drive fuel (A.resume l s ((b :: bs).take n)) (putBack ((b :: bs).drop n) script)

/-- Enough rounds for what is to come. -/
def cost : Await S L (Except IoError (Option F)) → List Item → Nat
  | .read _ _ _, script => 2 * (scriptBytes script).length + script.length + 2
  | .ret _ _, script => 2 * (scriptBytes script).length + script.length + 3

def outcome (aw : Await S L (Except IoError (Option F))) (script : List Item) :
    List F × Except IoError Unit :=
  drive A close (cost aw script) aw script

/-- A function that can be resumed from its state, and that takes a read in parts. -/
structure Steady (Ok : Await S L (Except IoError (Option F)) → Prop) : Prop where
  restart : ∀ {n l s}, Ok (.read n l s) → A.start s = .read n l s
  room : ∀ {n l s}, Ok (.read n l s) → 0 < n
  resume : ∀ {n l s bs}, Ok (.read n l s) → bs ≠ [] → bs.length ≤ n → Ok (A.resume l s bs)
  split : ∀ {n l s as bs}, Ok (.read n l s) → as ≠ [] → bs ≠ [] → as.length + bs.length ≤ n →
    ∃ l' s', A.resume l s as = .read (n - as.length) l' s' ∧
      A.resume l s (as ++ bs) = A.resume l' s' bs
  eof : ∀ {n l s}, Ok (.read n l s) → ∃ r s', A.resume l s [] = .ret r s' ∧ ∀ f, r ≠ .ok (some f)
  again : ∀ {f s}, Ok (.ret (.ok (some f)) s) →
    ∃ n l s', A.start s = .read n l s' ∧ Ok (.read n l s')

end

section
variable {S L F : Type} {A : Async S L (Except IoError (Option F))} {close : Close}
  {Ok : Await S L (Except IoError (Option F)) → Prop}

theorem drive_last (hr : ∀ f, r ≠ .ok (some f)) (s script script' fuel fuel') :
    drive A close (fuel + 1) (.ret r s) script = drive A close (fuel' + 1) (.ret r s) script' := by
  rcases r with _ | frame
  · rfl
  cases frame with
  | none => rfl
  | some f => exact absurd rfl (hr f)

variable {s : S} {l : L}

theorem cost_take (aw : Await S L (Except IoError (Option F))) (hn : 0 < n)
    (h : cost (.read n l s : Await S L (Except IoError (Option F))) (.bytes b bs :: script) ≤
      k + 1) : cost aw (putBack ((b :: bs).drop n) script) ≤ k := by
  have hput := putBack_length_le ((b :: bs).drop n) script
  have hbytes := congrArg List.length (scriptBytes_putBack ((b :: bs).drop n) script)
  simp only [cost, scriptBytes_cons, Item.data, length_append, length_cons, length_drop] at h hbytes
  cases aw <;> simp only [cost] <;> omega

theorem Steady.taken (h : Steady A Ok) (hok : Ok (.read n l s)) : Ok
    (A.resume l s ((b :: bs).take n)) := by
  have hn := h.room hok
  refine h.resume hok ?_ (length_take_le _ _)
  rw [ne_eq, take_eq_nil_iff]
  rintro (h0 | h0)
  · omega
  · cases h0

theorem drive_whole_read (hbs : bs ≠ []) (l s fuel) :
    drive A close (fuel + 1) (.read n l s) (whole bs) =
      drive A close fuel (A.resume l s (bs.take n)) (whole (bs.drop n)) := by
  cases bs with
  | nil => exact absurd rfl hbs
  | cons => rfl

theorem cost_whole_take (aw : Await S L (Except IoError (Option F))) (hbs : bs ≠ []) (hn : 0 < n)
    (h : cost (.read n l s : Await S L (Except IoError (Option F))) (whole bs) ≤ k + 1) :
    cost aw (whole (bs.drop n)) ≤ k := by
  cases bs with
  | nil => exact absurd rfl hbs
  | cons => exact cost_take aw hn h

section
variable (h : Steady A Ok)
include h

theorem Steady.drive_split (hok : Ok (.read n l s)) (has : as ≠ []) (hlt : as.length < n)
    (hbs : bs ≠ []) (fuel) : drive A close (fuel + 1) (A.resume l s as) (whole bs) =
      drive A close fuel (A.resume l s ((as ++ bs).take n)) (whole ((as ++ bs).drop n)) := by
  have htake : bs.take (n - as.length) ≠ [] := by
    rw [ne_eq, take_eq_nil_iff]
    rintro (h0 | h0)
    · omega
    · exact hbs h0
  have hroom : as.length + (bs.take (n - as.length)).length ≤ n := by
    rw [length_take]
    omega
  obtain ⟨l', s', hfirst, hboth⟩ := h.split hok has htake hroom
  rw [hfirst, drive_whole_read hbs, ← hboth, take_append, take_of_length_le hlt.le,
    drop_append, drop_of_length_le hlt.le, nil_append]

theorem Steady.cost_split (hok : Ok (.read n l s)) (has : as ≠ []) (hlt : as.length < n)
    (hbs : bs ≠ [])
    (hcost : cost (.read n l s : Await S L (Except IoError (Option F))) (whole (as ++ bs)) ≤
      k + 1) : cost (A.resume l s as) (whole bs) ≤ k + 1 := by
  have hb := length_pos_iff.mpr hbs
  have htake : bs.take 1 ≠ [] := by simpa using hbs
  obtain ⟨l', s', hfirst, -⟩ := h.split hok has htake (by rw [length_take]; omega)
  have hlen : (whole bs).length ≤ (whole (as ++ bs)).length := by
    obtain ⟨b, bs, rfl⟩ := exists_cons_of_ne_nil hbs
    obtain ⟨a, as, rfl⟩ := exists_cons_of_ne_nil has
    exact le_rfl
  rw [hfirst]
  simp only [cost, scriptBytes_whole, length_append] at hcost ⊢
  omega

/-- **Neither cuts nor dropped futures make a difference.** -/
theorem Steady.drive_whole (fuel) :
    ∀ (aw : Await S L (Except IoError (Option F))) (script : List Item), Ok aw →
      cost aw script ≤ fuel → ∀ fuel', cost aw (whole (scriptBytes script)) ≤ fuel' →
      drive A close fuel aw script = drive A close fuel' aw (whole (scriptBytes script)) := by
  induction fuel with
  | zero => intro aw script _ hfuel; cases aw <;> simp [cost] at hfuel
  | succ fuel ih =>
    intro aw script hok hfuel fuel' hfuel'
    obtain ⟨fuel', rfl⟩ : ∃ k, fuel' = k + 1 :=
      ⟨fuel' - 1, by cases aw <;> simp only [cost] at hfuel' <;> omega⟩
    cases aw with
    | ret r s =>
      by_cases hr : ∃ f, r = .ok (some f)
      · obtain ⟨f, rfl⟩ := hr
        obtain ⟨n, l, s', hstart, hok'⟩ := h.again hok
        have hnext := ih (.read n l s') script hok' (by simp only [cost] at hfuel ⊢; omega) fuel'
          (by simp only [cost] at hfuel' ⊢; omega)
        simp only [drive, hstart, hnext]
      · exact drive_last (fun f he => hr ⟨f, he⟩) s _ _ _ _
    | read n l s =>
      have hn := h.room hok
      rcases script with _ | ⟨item, script⟩
      · obtain ⟨r, s', hresume, hr⟩ := h.eof hok
        obtain ⟨fuel, rfl⟩ : ∃ k, fuel = k + 1 := ⟨fuel - 1, by simp [cost] at hfuel; omega⟩
        obtain ⟨fuel', rfl⟩ : ∃ k, fuel' = k + 1 :=
          ⟨fuel' - 1, by simp [cost, whole, putBack, scriptBytes] at hfuel'; omega⟩
        change drive A close (fuel + 1 + 1) (.read n l s) [] =
          drive A close (fuel' + 1 + 1) (.read n l s) []
        cases close with
        | failed => rfl
        | eof =>
          simp only [drive, hresume]
          exact drive_last hr s' _ _ _ _
      cases item with
      | pending dropped =>
        have hsame : (if dropped then A.start s else .read n l s) = .read n l s := by
          split
          · exact h.restart hok
          · rfl
        rw [drive, hsame]
        refine ih (.read n l s) script hok ?_ (fuel' + 1) hfuel'
        simp only [cost, scriptBytes_cons, Item.data, nil_append, length_cons] at hfuel
        simp only [cost]
        omega
      | bytes b bs =>
        rw [scriptBytes_cons, Item.data] at hfuel' ⊢
        have hleft := ih (A.resume l s ((b :: bs).take n)) (putBack ((b :: bs).drop n) script)
          (h.taken hok) (cost_take _ hn hfuel)
        rw [scriptBytes_putBack] at hleft
        have hne : b :: bs ++ scriptBytes script ≠ [] := cons_ne_nil _ _
        rw [drive, drive_whole_read hne]
        by_cases hlen : n ≤ (b :: bs).length
        · -- the read ends inside the first piece
          have hcost := cost_whole_take (A.resume l s ((b :: bs).take n)) hne hn hfuel'
          rw [take_append_of_le_length hlen]
          rw [drop_append_of_le_length hlen] at hcost ⊢
          exact hleft fuel' hcost
        -- the read goes on into the pieces behind the first
        have hlt := not_le.mp hlen
        have hcost := cost_whole_take (A.resume l s (b :: bs)) hne hn hfuel'
        rw [take_of_length_le hlt.le, drop_of_length_le hlt.le, nil_append] at hleft
        rw [take_of_length_le hlt.le, drop_of_length_le hlt.le]
        by_cases hrest : scriptBytes script = []
        · rw [hrest, append_nil, drop_of_length_le hlt.le] at hcost
          rw [hrest] at hleft
          rw [hrest, append_nil, take_of_length_le hlt.le, drop_of_length_le hlt.le]
          exact hleft fuel' hcost
        rw [← h.drive_split hok (cons_ne_nil b bs) hlt hrest]
        exact hleft (fuel' + 1) (h.cost_split hok (cons_ne_nil b bs) hlt hrest hfuel')

/-- What comes of a stream is what comes of its bytes, all of them at once. -/
theorem Steady.outcome_whole (hok : Ok aw) (script) :
    outcome A close aw script = outcome A close aw (whole (scriptBytes script)) :=
  h.drive_whole _ aw script hok le_rfl _ le_rfl

end

/-! ## Step by step -/

theorem Steady.outcome_frame (h : Steady A Ok) (hok : Ok (.ret (.ok (some f)) s)) (bs) :
    outcome A close (.ret (.ok (some f)) s) (whole bs) =
      (f :: (outcome A close (A.start s) (whole bs)).1,
        (outcome A close (A.start s) (whole bs)).2) := by
  obtain ⟨n, l, s', hstart, _⟩ := h.again hok
  simp only [outcome, cost, drive, hstart]

section
variable (h : Steady A Ok)
include h

theorem Steady.outcome_read_nil (hok : Ok (.read n l s)) :
    outcome A close (.read n l s) (whole []) =
      match close with
      | .eof => outcome A .eof (A.resume l s []) (whole [])
      | .failed e => ([], .error e) := by
  obtain ⟨r, s', hresume, hr⟩ := h.eof hok
  cases close with
  | failed => rfl
  | eof =>
    change drive A .eof 1 (A.resume l s []) [] = drive A .eof _ (A.resume l s []) []
    rw [hresume]
    exact drive_last hr s' _ _ 0 2

theorem Steady.outcome_read (hok : Ok (.read n l s)) (hbs : bs ≠ []) :
    outcome A close (.read n l s) (whole bs) =
      outcome A close (A.resume l s (bs.take n)) (whole (bs.drop n)) := by
  obtain ⟨b, bs, rfl⟩ := exists_cons_of_ne_nil hbs
  have hfuel : cost (.read n l s : Await S L (Except IoError (Option F))) (whole (b :: bs)) =
      2 * (bs.length + 1) + 2 + 1 := by
    simp [cost, whole, putBack, scriptBytes, Item.data]
  rw [outcome, hfuel, drive_whole_read hbs]
  have hcost := cost_whole_take (A.resume l s ((b :: bs).take n)) hbs (h.room hok) hfuel.le
  refine (h.drive_whole _ _ _ (h.taken hok) hcost _ le_rfl).trans ?_
  rw [scriptBytes_whole]
  rfl

theorem Steady.outcome_read_append (hok : Ok (.read n l s)) (has : as.length = n) :
    outcome A close (.read n l s) (whole (as ++ bs)) =
      outcome A close (A.resume l s as) (whole bs) := by
  have hpos := h.room hok
  have hne : as ++ bs ≠ [] := by
    intro h0
    rw [(append_eq_nil_iff.mp h0).1] at has
    exact hpos.ne has
  rw [h.outcome_read hok hne, ← has, take_left, drop_left]

theorem Steady.outcome_short (hok : Ok (.read n l s)) (hbs : bs.length < n) :
    (outcome A close (.read n l s) (whole bs)).1 = [] := by
  have hnil {n : Nat} {l : L} {s : S} (hok : Ok (.read n l s)) :
      (outcome A close (.read n l s) (whole [])).1 = [] := by
    obtain ⟨r, s', hresume, hr⟩ := h.eof hok
    rw [h.outcome_read_nil hok]
    cases close with
    | failed => rfl
    | eof =>
      rw [hresume]
      rcases r with _ | frame
      · rfl
      cases frame with
      | none => rfl
      | some f => exact absurd rfl (hr f)
  by_cases hne : bs = []
  · rw [hne]
    exact hnil hok
  obtain ⟨l', s', hresume, -⟩ := h.split hok hne (cons_ne_nil 0 []) hbs
  have hok' := h.resume hok hne hbs.le
  rw [hresume] at hok'
  rw [h.outcome_read hok hne, take_of_length_le hbs.le, drop_of_length_le hbs.le, hresume]
  exact hnil hok'

end

end

/-! ## A buffer that reads fill -/

/-- A buffer and how much of it has been filled. -/
structure Filling where
  bytes : List UInt8
  read : Nat
  deriving DecidableEq

namespace Filling

/-- `n` bytes to fill. -/
def zeroed (n : Nat) : Filling := ⟨List.replicate n 0, 0⟩

/-- The length of `&mut self.bytes[self.read..]`. -/
def room (b : Filling) : Nat := b.bytes.length - b.read

def put (b : Filling) (got : List UInt8) : Filling :=
  ⟨writeAt b.bytes b.read got, b.read + got.length⟩

@[simp] theorem put_read (b : Filling) (got : List UInt8) :
    (b.put got).read = b.read + got.length := rfl

theorem put_length {b : Filling} {got : List UInt8} (hread : b.read ≤ b.bytes.length)
    (h : got.length ≤ b.room) : (b.put got).bytes.length = b.bytes.length :=
  writeAt_length (by unfold room at h; omega)

theorem put_put {b : Filling} (as bs) (h : b.read ≤ b.bytes.length) :
    (b.put as).put bs = b.put (as ++ bs) := by
  simp only [put, writeAt_writeAt h rfl, length_append, add_assoc]

theorem put_all {b : Filling} {got : List UInt8} (hread : b.read = 0)
    (h : got.length = b.bytes.length) : b.put got = ⟨got, got.length⟩ := by
  simp only [put, hread, writeAt_all h, zero_add]

/-- A buffer of `n` bytes with something left to fill. -/
structure Part (n : Nat) (b : Filling) : Prop where
  size : b.bytes.length = n
  more : b.read < n

theorem Part.put (h : Part n b) (hgot : got.length ≤ b.room) :
    (b.put got).bytes.length = n ∧ (b.put got).read ≤ n := by
  have hmore := h.more
  have hsize := h.size
  refine ⟨(put_length (by omega) hgot).trans hsize, ?_⟩
  unfold room at hgot
  rw [put_read]
  omega

theorem Part.put_append {b : Filling} {as : List UInt8} (hp : Part n b)
    (hbs : bs ≠ []) (h : as.length + bs.length ≤ b.room) :
    (b.put as).read < n ∧ (b.put as).room = b.room - as.length ∧
      (b.put as).put bs = b.put (as ++ bs) := by
  have hpos := length_pos_iff.mpr hbs
  have hsize := hp.size
  have hmore := hp.more
  have hlength := put_length (show b.read ≤ b.bytes.length by omega)
    (show as.length ≤ b.room by omega)
  refine ⟨?_, ?_, put_put as bs (by omega)⟩
  · simp only [room, put_read] at h ⊢
    omega
  · simp only [room, hlength, put_read, Nat.sub_sub]

theorem Part.room_pos (hp : Part n b) : 0 < b.room :=
  Nat.sub_pos_of_lt (hp.size ▸ hp.more)

end Filling

end Shoes.Lib.AsyncRead
