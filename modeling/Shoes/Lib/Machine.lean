import Mathlib.Data.List.Basic

/-! # Runs of state machines

Machines whose steps give a result, and machines whose steps may be impossible, with the induction
over a run done once for each. A machine may be many machines, one for each key: then a run of the
large machine shows, for one key, what the small machine does on the events of that key, however
they are interleaved with others. -/
namespace Shoes.Lib.Machine
open List Option

section Run
variable {C E R : Type}

/-- The results of a run, each with its event. -/
def outputs (step : C → E → R × C) : C → List E → List (E × R)
  | _, [] => []
  | c, e :: es => (e, (step c e).1) :: outputs step (step c e).2 es

def after (step : C → E → R × C) : C → List E → C
  | c, [] => c
  | c, e :: es => after step (step c e).2 es

/-- A condition on every step of a run, in the state it is taken in. -/
def Along (step : C → E → R × C) (ok : C → E → Prop) : C → List E → Prop
  | _, [] => True
  | c, e :: es => ok c e ∧ Along step ok (step c e).2 es

instance Along.decidable (step : C → E → R × C) (ok : C → E → Prop) [∀ c e, Decidable (ok c e)] :
    ∀ (c : C) (es : List E), Decidable (Along step ok c es)
  | _, [] => inferInstanceAs (Decidable True)
  | c, e :: es =>
    have := Along.decidable step ok (step c e).2 es
    inferInstanceAs (Decidable (_ ∧ _))

variable (step : C → E → R × C)

@[simp] theorem outputs_length (es c) : (outputs step c es).length = es.length := by
  induction es generalizing c with
  | nil => rfl
  | cons e es ih => simp [outputs, ih]

theorem outputs_append (es₁ es₂ c) :
    outputs step c (es₁ ++ es₂) = outputs step c es₁ ++ outputs step (after step c es₁) es₂ := by
  induction es₁ generalizing c with
  | nil => rfl
  | cons e es ih => simp [outputs, after, ih]

theorem after_append (es₁ es₂ c) :
    after step c (es₁ ++ es₂) = after step (after step c es₁) es₂ := by
  induction es₁ generalizing c with
  | nil => rfl
  | cons e es ih => simp [after, ih]

theorem Along.left {step : C → E → R × C} {ok : C → E → Prop} {es₁ es₂ : List E} {c : C}
    (h : Along step ok c (es₁ ++ es₂)) : Along step ok c es₁ := by
  induction es₁ generalizing c with
  | nil => trivial
  | cons e es ih => exact ⟨h.1, ih h.2⟩

theorem Along.at {step : C → E → R × C} {ok : C → E → Prop} {es₁ es₂ : List E} {c : C} {e : E}
    (h : Along step ok c (es₁ ++ e :: es₂)) : ok (after step c es₁) e := by
  induction es₁ generalizing c with
  | nil => exact h.1
  | cons e' es ih => exact ih h.2

/-- **What every allowed step preserves holds after the run.** -/
theorem Along.invariant {step : C → E → R × C} {ok : C → E → Prop} {Inv : C → Prop}
    (hstep : ∀ c e, ok c e → Inv c → Inv (step c e).2) {es : List E} {c : C}
    (h : Along step ok c es) (hc : Inv c) : Inv (after step c es) := by
  induction es generalizing c with
  | nil => exact hc
  | cons e es ih => exact ih h.2 (hstep c e h.1 hc)

theorem along_of_at {step : C → E → R × C} {ok : C → E → Prop} {es : List E} {c : C}
    (h : ∀ es₁ e es₂, es = es₁ ++ e :: es₂ → ok (after step c es₁) e) : Along step ok c es := by
  induction es generalizing c with
  | nil => trivial
  | cons e es ih =>
    refine ⟨h [] e es rfl, ih fun es₁ e' es₂ hes => ?_⟩
    exact h (e :: es₁) e' es₂ (by rw [hes]; rfl)

theorem along_true (c es) : Along step (fun _ _ => True) c es := by
  induction es generalizing c with
  | nil => trivial
  | cons e es ih => exact ⟨trivial, ih _⟩

/-- **What every step gives while an invariant holds.** -/
theorem outputs_of_invariant {step : C → E → R × C} {Inv : C → Prop} {ok : E → Prop}
    {Q : E → R → Prop}
    (hstep : ∀ c e, Inv c → ok e → Q e (step c e).1 ∧ Inv (step c e).2) {es : List E} {c : C}
    (hc : Inv c) (hes : ∀ e ∈ es, ok e) : ∀ p ∈ outputs step c es, Q p.1 p.2 := by
  induction es generalizing c with
  | nil =>
    intro p hp
    cases hp
  | cons e es ih =>
    obtain ⟨hQ, hInv⟩ := hstep c e hc (hes e mem_cons_self)
    exact forall_mem_cons.mpr ⟨hQ, ih hInv (forall_mem_cons.mp hes).2⟩

end Run

variable {C E R K S : Type} [DecidableEq K]

/-- `step` is `slot` on the part of the state that belongs to the event's key, wherever
`ok` allows the step. -/
structure Keyed (step : C → E → R × C) (ok : C → E → Prop) (key : E → K) (view : C → K → S)
    (slot : S → E → R × S) : Prop where
  result : ∀ c e, ok c e → (step c e).1 = (slot (view c (key e)) e).1
  same : ∀ c e, ok c e → view (step c e).2 (key e) = (slot (view c (key e)) e).2
  other : ∀ c e k, ok c e → k ≠ key e → view (step c e).2 k = view c k

variable {step : C → E → R × C} {ok : C → E → Prop} {key : E → K} {view : C → K → S}
  {slot : S → E → R × S}

/-- **One key of an interleaved run.** -/
theorem Keyed.outputs_filter (h : Keyed step ok key view slot) (k) :
    ∀ (es : List E) (c : C), Along step ok c es →
      (outputs step c es).filter (fun o => decide (key o.1 = k)) =
        outputs slot (view c k) (es.filter fun e => decide (key e = k))
  | [], _, _ => rfl
  | e :: es, c, hok => by
    have ih := h.outputs_filter k es (step c e).2 hok.2
    by_cases hk : key e = k
    · subst hk
      simp only [outputs, decide_true, filter_cons_of_pos, ih, h.same c e hok.1, h.result c e hok.1]
    simp only [outputs, hk, decide_false, Bool.false_eq_true, not_false_eq_true,
      filter_cons_of_neg, ih, h.other c e k hok.1 (Ne.symm hk)]

/-! ## Steps that may be impossible -/

section Possible
variable {A : Type} (next : S → A → Option S)

def run : S → List A → Option S
  | s, [] => some s
  | s, a :: as =>
    match next s a with
    | none => none
    | some s' => run s' as

/-- A condition on every step of a run, in the state it is taken in. -/
def Throughout (ok : S → A → Prop) : S → List A → Prop
  | _, [] => True
  | s, a :: as => ok s a ∧ ∀ s', next s a = some s' → Throughout ok s' as

instance Throughout.decidable (ok : S → A → Prop) [∀ s a, Decidable (ok s a)] :
    ∀ (s : S) (as : List A), Decidable (Throughout next ok s as)
  | _, [] => inferInstanceAs (Decidable True)
  | s, a :: as =>
    match h : next s a with
    | none => decidable_of_iff (ok s a)
      ⟨fun hok => ⟨hok, fun _ hs => nomatch h.symm.trans hs⟩, And.left⟩
    | some s₁ =>
      have := Throughout.decidable ok s₁ as
      decidable_of_iff (ok s a ∧ Throughout next ok s₁ as)
        ⟨fun hok => ⟨hok.1, fun _ hs => Option.some.inj (h.symm.trans hs) ▸ hok.2⟩,
          fun hok => ⟨hok.1, hok.2 s₁ h⟩⟩

variable {next}

theorem run_append (as bs s) :
    run next s (as ++ bs) = (run next s as).bind fun s' => run next s' bs := by
  induction as generalizing s with
  | nil => rfl
  | cons a as ih =>
    simp only [cons_append, run]
    split
    · rfl
    · exact ih _

theorem run_last {as a s s'} (h : run next s (as ++ [a]) = some s') :
    ∃ s₁, run next s as = some s₁ ∧ next s₁ a = some s' := by
  rw [run_append] at h
  obtain ⟨s₁, hbefore, hlast⟩ := bind_eq_some_iff.mp h
  refine ⟨s₁, hbefore, ?_⟩
  simp only [run] at hlast
  split at hlast
  · cases hlast
  rename_i s₂ hstep
  rw [hstep, ← hlast]

theorem throughout_last {ok as a s} (h : Throughout next ok s (as ++ [a])) :
    Throughout next ok s as ∧ ∀ s₁, run next s as = some s₁ → ok s₁ a := by
  induction as generalizing s with
  | nil => exact ⟨trivial, fun s₁ hs₁ => some.inj hs₁ ▸ h.1⟩
  | cons b as ih =>
    refine ⟨⟨h.1, fun s' hs' => (ih (h.2 s' hs')).1⟩, fun s₁ hs₁ => ?_⟩
    unfold run at hs₁
    split at hs₁
    · cases hs₁
    rename_i s' hs'
    exact (ih (h.2 s' hs')).2 s₁ hs₁

/-- **What every step preserves holds in every state reached.** -/
theorem run_invariant {ok : S → A → Prop} {Inv : S → Prop}
    (hstep : ∀ s a s', ok s a → Inv s → next s a = some s' → Inv s') :
    ∀ (as : List A) (s s' : S), Throughout next ok s as → Inv s → run next s as = some s' → Inv s'
  | [], s, s', _, hi, h => by cases h; exact hi
  | a :: as, s, s', hok, hi, h => by
    unfold run at h
    split at h
    · cases h
    rename_i s₁ h₁
    exact run_invariant hstep as s₁ s' (hok.2 s₁ h₁) (hstep s a s₁ hok.1 hi h₁) h

theorem throughout_of_forall {ok : A → Prop} (as s) (h : ∀ a ∈ as, ok a) :
    Throughout next (fun _ a => ok a) s as := by
  induction as generalizing s with
  | nil => trivial
  | cons a as ih => exact ⟨h a (mem_cons_self ..), fun s' _ => ih s' (forall_mem_cons.mp h).2⟩

theorem throughout_and {ok ok' as s} (h : Throughout next ok s as) (h' : Throughout next ok' s as) :
    Throughout next (fun s a => ok s a ∧ ok' s a) s as := by
  induction as generalizing s with
  | nil => trivial
  | cons a as ih => exact ⟨⟨h.1, h'.1⟩, fun s' hs' => ih (h.2 s' hs') (h'.2 s' hs')⟩

theorem throughout_true (as s) : Throughout next (fun _ _ => True) s as := by
  induction as generalizing s with
  | nil => trivial
  | cons a as ih => exact ⟨trivial, fun s' _ => ih s'⟩

end Possible

end Shoes.Lib.Machine
