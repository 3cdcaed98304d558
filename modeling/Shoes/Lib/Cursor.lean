import Shoes.Lib.Io

/-! # Reading from a byte buffer

The getters of `bytes::Buf`, which take bytes off the front of a buffer and panic when there are not
enough. A reader that fails leaves the buffer where it stood then. -/
namespace Shoes.Lib.Cursor
open Io Bytes

/-- What comes of reading: a value or an error, each with what is left of the buffer, or a
panic. -/
inductive Outcome (α : Type)
  | ok (a : α) (rest : List UInt8)
  | err (e : IoError) (rest : List UInt8)
  | panic
  deriving DecidableEq

def Cursor (α : Type) := List UInt8 → Outcome α

variable {α β : Type}

instance : Monad Cursor where
  pure a := fun buf => .ok a buf
  bind m f := fun buf =>
    match m buf with
    | .ok a rest => f a rest
    | .err e rest => .err e rest
    | .panic => .panic

theorem bind_apply (m : Cursor α) (f : α → Cursor β) (buf : List UInt8) :
    (m >>= f) buf = match m buf with
      | .ok a rest => f a rest
      | .err e rest => .err e rest
      | .panic => .panic := rfl

@[simp] theorem pure_apply (a buf) : (pure a : Cursor α) buf = .ok a buf := rfl

theorem bind_ok {m : Cursor α} {f : α → Cursor β} {buf rest : List UInt8} {a : α}
    (h : m buf = .ok a rest) : (m >>= f) buf = f a rest := by
  rw [bind_apply, h]

def fail (e : IoError) : Cursor α := fun buf => .err e buf

/-- `?` on a result. -/
def ofExcept : Except IoError α → Cursor α
  | .ok a => pure a
  | .error e => fail e

@[simp] theorem ofExcept_ok (a buf) : (ofExcept (.ok a) : Cursor α) buf = .ok a buf := rfl

@[simp] theorem ofExcept_error (e buf) : (ofExcept (.error e) : Cursor α) buf = .err e buf := rfl

def remaining : Cursor Nat := fun buf => .ok buf.length buf

/-- `buf[0]`. -/
def front : Cursor UInt8
  | [] => .panic
  | b :: rest => .ok b (b :: rest)

def getU8 : Cursor UInt8
  | [] => .panic
  | b :: rest => .ok b rest

def getU16 : Cursor UInt16
  | hi :: lo :: rest => .ok (u16FromBeBytes hi lo) rest
  | _ => .panic

def advance (n : Nat) : Cursor Unit := fun buf =>
  if n ≤ buf.length then .ok () (buf.drop n) else .panic

/-- `copy_to_slice` and `copy_to_bytes`. -/
def copyTo (n : Nat) : Cursor (List UInt8) := fun buf =>
  if n ≤ buf.length then .ok (buf.take n) (buf.drop n) else .panic

theorem getU16_short {buf} (h : buf.length < 2) : getU16 buf = .panic := by
  match buf, h with
  | [], _ => rfl
  | [_], _ => rfl

theorem advance_of_le {n buf} (h : n ≤ buf.length) : advance n buf = .ok () (buf.drop n) := if_pos h

end Shoes.Lib.Cursor
