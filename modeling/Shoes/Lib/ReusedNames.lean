import Mathlib.Logic.Basic

/-! # Messages to names that are used again

A table gives a free name to the next member that asks for it, and a message to a member carries
nothing but its name. It finds the member it was meant for, or nobody, as long as no name is given
away that a message may still come for. -/
namespace Shoes.Lib.ReusedNames

variable {ι : Type} {name : Nat → Option ι} {table table' : ι → Option Nat} {due due' : Nat → Prop}

/-- Under the name of a member that may still be sent a message stands that member, or nobody. -/
def Addressed (name : Nat → Option ι) (table : ι → Option Nat) (due : Nat → Prop) : Prop :=
  ∀ b x c, due b → name b = some x → table x = some c → c = b

theorem Addressed.mono (h : Addressed name table due)
    (htable : ∀ x c, table' x = some c → table x = some c) (hdue : ∀ b, due' b → due b) :
    Addressed name table' due' :=
  fun b x c hb hx hc => h b x c (hdue b hb) hx (htable x c hc)

theorem Addressed.enter (h : Addressed name table due) {b : Nat} {x : ι} (hname : name b = some x)
    (hfree : ∀ c, due c → name c ≠ some x) (hx : table' x = some b)
    (htable : ∀ y c, y ≠ x → table' y = some c → table y = some c)
    (hdue : ∀ c, due' c → due c ∨ c = b) : Addressed name table' due' := by
  intro c y d hc hy hd
  by_cases hyx : y = x
  · subst hyx
    cases hx.symm.trans hd
    rcases hdue c hc with hc | hc
    · exact absurd hy (hfree c hc)
    · exact hc.symm
  rcases hdue c hc with hc | hc
  · exact h c y d hc hy (htable y d hyx hd)
  subst hc
  exact absurd (Option.some.inj (hy.symm.trans hname)) hyx

end Shoes.Lib.ReusedNames
