import Mathlib.Data.List.Basic

/-! # Scanners

A scanner reads one symbol at a time. Each symbol may give some output, and either leads to the
next state or stops the scan; what is behind the symbol that stopped it is left over. -/
namespace Shoes.Lib.Scanner

/-- Where a symbol leads. -/
inductive Next (S X : Type)
  | go (s : S)
  | stop (x : X)
  deriving DecidableEq

variable {S X A O : Type}

/-- How a scan ends: out of symbols in a state, or stopped with symbols left over. -/
inductive Ended (S X A : Type)
  | more (s : S)
  | stopped (x : X) (rest : List A)
  deriving DecidableEq

/-- The output of a scan and how it ends. -/
def scan (step : S → A → List O × Next S X) : S → List A → List O × Ended S X A
  | s, [] => ([], .more s)
  | s, a :: as =>
    match step s a with
    | (out, .go s') => (out ++ (scan step s' as).1, (scan step s' as).2)
    | (out, .stop x) => (out, .stopped x as)

variable {step : S → A → List O × Next S X}

/-- A scan that may have stopped already. -/
def resume (step : S → A → List O × Next S X) : Next S X → List A → List O × Ended S X A
  | .go s, as => scan step s as
  | .stop x, as => ([], .stopped x as)

@[simp] theorem resume_go (s as) : resume step (.go s) as = scan step s as := rfl

@[simp] theorem resume_stop (x as) : resume step (.stop x) as = ([], .stopped x as) := rfl

theorem scan_cons (s a as) : scan step s (a :: as) =
      ((step s a).1 ++ (resume step (step s a).2 as).1, (resume step (step s a).2 as).2) := by
  rw [scan]
  split <;> rename_i h <;> simp [h]

/-- What has ended goes on with more symbols. -/
def Ended.continue (step : S → A → List O × Next S X) : Ended S X A → List A → List O × Ended S X A
  | .more s, as => scan step s as
  | .stopped x rest, as => ([], .stopped x (rest ++ as))

/-- **A scan does not depend on where its input is cut.** -/
theorem scan_append (s as bs) :
    scan step s (as ++ bs) = ((scan step s as).1 ++ ((scan step s as).2.continue step bs).1,
      ((scan step s as).2.continue step bs).2) := by
  induction as generalizing s with
  | nil => rfl
  | cons a as ih =>
    rw [List.cons_append, scan_cons, scan_cons]
    cases (step s a).2 with
    | go s' => simp [ih, List.append_assoc]
    | stop x => simp [Ended.continue]

/-- A scan that gives at most one output for a symbol gives no more output than it reads. -/
theorem scan_length (hstep : ∀ s a, (step s a).1.length ≤ 1) (s as) : match (scan step s as).2 with
    | .more _ => (scan step s as).1.length ≤ as.length
    | .stopped _ rest => (scan step s as).1.length + rest.length ≤ as.length := by
  induction as generalizing s with
  | nil => simp [scan]
  | cons a as ih =>
    have hone := hstep s a
    rw [scan_cons]
    cases (step s a).2 with
    | stop x => simp; omega
    | go s' =>
      have h := ih s'
      simp only [resume_go]
      split <;> rename_i heq <;> rw [heq] at h <;> simp only at h <;>
        simp only [List.length_append, List.length_cons] <;> omega

end Shoes.Lib.Scanner
