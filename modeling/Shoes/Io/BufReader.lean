import Shoes.Lib.Io

/-! # A reader over a byte slice

`BufReader`: the state is what is left of the slice. -/
namespace Shoes.Io.BufReader
open Lib.Io Lib.Bytes

abbrev Reader := StateT (List UInt8) (Except IoError)

def pastEnd : IoError := ⟨.unexpectedEof, "Read past end of buffer"⟩

def remaining : Reader Nat := do return (← get).length

def isConsumed : Reader Bool := do return (← get).isEmpty

def readSlice (len : Nat) : Reader (List UInt8) := do
  let buf ← get
  if len > buf.length then throw pastEnd
  else
    set (buf.drop len)
    return buf.take len

def skip (amount : Nat) : Reader Unit := do
  let _ ← readSlice amount

def readU8 : Reader UInt8 := do
  match ← get with
  | b :: rest => set rest; return b
  | _ => throw pastEnd

def readU16Be : Reader UInt16 := do
  match ← get with
  | b₀ :: b₁ :: rest => set rest; return u16FromBeBytes b₀ b₁
  | _ => throw pastEnd

def readU24Be : Reader Nat := do
  match ← get with
  | b₀ :: b₁ :: b₂ :: rest => set rest; return b₀.toNat * 65536 + b₁.toNat * 256 + b₂.toNat
  | _ => throw pastEnd

/-- The checks between the reads. -/
def failIf (c : Prop) [Decidable c] (e : IoError) : Reader Unit := if c then throw e else pure ()

/-! ## Errors -/

section
variable {P : IoError → Prop}

theorem failIf_fails {e} (h : P e) (c : Prop) [Decidable c] : Fails (failIf c e) P := by
  unfold failIf
  split
  · exact Fails.throw h
  · exact Fails.pure ()

theorem remaining_fails : Fails remaining P := by
  intro st e h
  cases h

section
variable [h : Fact (P pastEnd)]
include h

theorem readSlice_fails (len) : Fails (readSlice len) P := by
  intro st e he
  simp only [readSlice, bind, StateT.bind, get, getThe, MonadStateOf.get, StateT.get, pure,
    Except.pure, Except.bind] at he
  split at he <;> cases he
  exact h.out

theorem skip_fails (amount) : Fails (skip amount) P :=
  (readSlice_fails amount).bind fun _ => Fails.pure ()

theorem readU8_fails : Fails readU8 P := by
  intro st e he
  match st with
  | [] => cases he; exact h.out
  | _ :: _ => cases he

theorem readU16Be_fails : Fails readU16Be P := by
  intro st e he
  match st with
  | [] | [_] => cases he; exact h.out
  | _ :: _ :: _ => cases he

theorem readU24Be_fails : Fails readU24Be P := by
  intro st e he
  match st with
  | [] | [_] | [_, _] => cases he; exact h.out
  | _ :: _ :: _ :: _ => cases he

end

end

end Shoes.Io.BufReader
