import Mathlib.Data.List.Basic

/-! # First match by least order

A rule list is searched from the front and the first rule that accepts decides. An index meets the
rules in another order, so it numbers them and keeps the one with the least number. `IsLeast` is what
it holds at every moment; `IsLeast.eq_find`: in the end this is the first rule that accepts. -/
namespace Shoes.Lib.FirstMatch
open List

variable {ρ γ β : Type}

/-- Take the candidate if nothing is held or its order is smaller than that of what is held. -/
def offer (best : Option (Nat × β)) (c : Nat × β) : Option (Nat × β) :=
  match best with
  | none => some c
  | some b => if c.1 < b.1 then some c else some b

/-- A candidate of least order, or nothing if there is no candidate. -/
def IsLeast (P : Nat × β → Prop) : Option (Nat × β) → Prop
  | none => ∀ c, ¬P c
  | some b => P b ∧ ∀ c, P c → b.1 ≤ c.1

theorem isLeast_none {P : Nat × β → Prop} (h : ∀ c, ¬P c) : IsLeast P none := h

theorem IsLeast.congr {P Q : Nat × β → Prop} {best : Option (Nat × β)} (h : IsLeast P best)
    (hpq : ∀ c, Q c ↔ P c) : IsLeast Q best := by
  have hQ : Q = P := funext fun c => propext (hpq c)
  rw [hQ]
  exact h

theorem IsLeast.offer {P best} (h : IsLeast P best)
    (c : Nat × β) : IsLeast (fun x => P x ∨ x = c) (offer best c) := by
  rcases best with _ | b
  · refine ⟨.inr rfl, ?_⟩
    rintro x (hx | rfl)
    · exact absurd hx (h x)
    · exact Nat.le_refl _
  obtain ⟨hb, hmin⟩ := h
  simp only [FirstMatch.offer]
  split
  · rename_i hlt
    refine ⟨.inr rfl, ?_⟩
    rintro x (hx | rfl)
    · exact Nat.le_trans (Nat.le_of_lt hlt) (hmin x hx)
    · exact Nat.le_refl _
  rename_i hle
  refine ⟨.inl hb, ?_⟩
  rintro x (hx | rfl)
  · exact hmin x hx
  · exact Nat.le_of_not_lt hle

/-- Take what another search found, on the same terms. -/
def offerFound (best found : Option (Nat × β)) : Option (Nat × β) :=
  match found with
  | none => best
  | some c => offer best c

theorem IsLeast.offerFound {P Q : Nat × β → Prop} {best found : Option (Nat × β)}
    (h : IsLeast P best) (hf : IsLeast Q found) :
    IsLeast (fun x => P x ∨ Q x) (FirstMatch.offerFound best found) := by
  rcases found with _ | c
  · exact h.congr fun x => or_iff_left (hf x)
  have hoffer := h.offer c
  rw [FirstMatch.offerFound]
  rcases hb : FirstMatch.offer best c with _ | b
  · rw [hb] at hoffer
    exact absurd (.inr rfl) (hoffer c)
  rw [hb] at hoffer
  obtain ⟨hmem, hmin⟩ := hoffer
  constructor
  · rcases hmem with hP | rfl
    · exact .inl hP
    · exact .inr hf.1
  rintro x (hx | hx)
  · exact hmin x (.inl hx)
  · exact Nat.le_trans (hmin c (.inr rfl)) (hf.2 x hx)

/-- The loop over entries of which some are hits. -/
def offerHits (hit : γ → Bool) (cand : γ → Nat × β) (best : Option (Nat × β)) (es : List γ) :
    Option (Nat × β) :=
  es.foldl (fun best e => if hit e then offer best (cand e) else best) best

theorem offerHits_append (hit : γ → Bool) (cand : γ → Nat × β) (best : Option (Nat × β))
    (es es' : List γ) :
    offerHits hit cand best (es ++ es') = offerHits hit cand (offerHits hit cand best es) es' :=
  foldl_append

theorem IsLeast.offerHits {P best} (h : IsLeast P best) (hit : γ → Bool) (cand : γ → Nat × β)
    (es : List γ) : IsLeast (fun x => P x ∨ ∃ e ∈ es, hit e = true ∧ x = cand e)
      (offerHits hit cand best es) := by
  induction es generalizing P best with
  | nil => exact h.congr fun c => by simp
  | cons e es ih =>
    rcases he : hit e with _ | _
    · simp only [FirstMatch.offerHits, foldl_cons, he]
      exact (ih h).congr fun c => by simp [he]
    simp only [FirstMatch.offerHits, foldl_cons, he, if_true]
    exact (ih (h.offer (cand e))).congr fun c => by simp [he, or_assoc]

/-- The loop over entries in ascending order, left as soon as no later entry can be better. -/
def offerUntil (hit : γ → Bool) (cand : γ → Nat × β) : Option (Nat × β) → List γ → Option (Nat × β)
  | best, [] => best
  | best, e :: es =>
    if best.any fun b => decide (b.1 ≤ (cand e).1) then best
    else offerUntil hit cand (if hit e then offer best (cand e) else best) es

theorem IsLeast.offerUntil {P best} (h : IsLeast P best) (hit : γ → Bool) (cand : γ → Nat × β) {es}
    (hs : es.Pairwise fun e e' => (cand e).1 ≤ (cand e').1) :
    IsLeast (fun x => P x ∨ ∃ e ∈ es, hit e = true ∧ x = cand e)
      (offerUntil hit cand best es) := by
  induction es generalizing P best with
  | nil => exact h.congr fun c => by simp
  | cons e es ih =>
    obtain ⟨hfirst, hrest⟩ := pairwise_cons.mp hs
    simp only [FirstMatch.offerUntil]
    split
    · -- what is held is no worse than this entry, so no worse than all that follow
      rename_i hstop
      match best, h, hstop with
      | some b, h, hstop =>
      have hle : b.1 ≤ (cand e).1 := of_decide_eq_true hstop
      refine ⟨.inl h.1, ?_⟩
      rintro c (hc | ⟨e', he', -, rfl⟩)
      · exact h.2 c hc
      rcases mem_cons.mp he' with rfl | he'
      · exact hle
      · exact Nat.le_trans hle (hfirst e' he')
    cases he : hit e with
    | false => exact (ih h hrest).congr fun c => by simp [he]
    | true => exact (ih (h.offer (cand e)) hrest).congr fun c => by simp [he, or_assoc]

/-- **The least order is the first match.** When the candidates are the rules that accept,
each under its position, what is held in the end is what the front-to-back search finds. -/
theorem IsLeast.eq_find {P} {best : Option (Nat × β)} (h : IsLeast P best) {rules : List ρ}
    {accepts out} (hP : ∀ c, P c ↔ ∃ r, rules[c.1]? = some r ∧ accepts r = true ∧ out r = c.2) :
    best.map Prod.snd = (rules.find? accepts).map out := by
  rcases best with _ | b
  · have hno : rules.find? accepts = none := by
      rw [List.find?_eq_none]
      intro r hr hacc
      obtain ⟨i, hi⟩ := mem_iff_getElem?.mp hr
      exact h (i, out r) ((hP _).mpr ⟨r, hi, hacc, rfl⟩)
    rw [hno]
    rfl
  obtain ⟨hb, hmin⟩ := h
  obtain ⟨r, hi, hacc, hout⟩ := (hP b).mp hb
  obtain ⟨hlt, hr⟩ := List.getElem?_eq_some_iff.mp hi
  have hfind : rules.find? accepts = some r := by
    rw [List.find?_eq_some_iff_getElem]
    refine ⟨hacc, b.1, hlt, hr, ?_⟩
    intro j hj
    have hjl : j < rules.length := Nat.lt_trans hj hlt
    rcases hjacc : accepts rules[j] with _ | _
    · rfl
    have hle : b.1 ≤ j := hmin (j, out rules[j])
      ((hP _).mpr ⟨rules[j], List.getElem?_eq_getElem hjl, hjacc, rfl⟩)
    exact absurd hle (Nat.not_le.mpr hj)
  rw [hfind]
  simp [hout]

/-! ## Two tests on one list -/

/-- The front-to-back search. -/
def firstMatch (accepts : ρ → Bool) (out : ρ → β) (rules : List ρ) : Option β :=
  (rules.find? accepts).map out

@[simp] theorem firstMatch_nil (accepts : ρ → Bool) (out : ρ → β) :
    firstMatch accepts out [] = none := rfl

theorem firstMatch_cons (accepts : ρ → Bool) (out : ρ → β) (r : ρ) (rules : List ρ) :
    firstMatch accepts out (r :: rules)
      = if accepts r then some (out r) else firstMatch accepts out rules := by
  cases h : accepts r <;> simp [firstMatch, h]

/-- The rule that decides. Where only one of two tests accepts the first rule that either
accepts, the other has to find the same result further down. -/
def Agree (p q : ρ → Bool) (out : ρ → β) : List ρ → Prop
  | [] => True
  | r :: rules =>
    match p r, q r with
    | true, true => True
    | true, false => firstMatch q out rules = some (out r)
    | false, true => firstMatch p out rules = some (out r)
    | false, false => Agree p q out rules

theorem firstMatch_eq_iff (p q : ρ → Bool) (out : ρ → β) (rules : List ρ) :
    firstMatch p out rules = firstMatch q out rules ↔ Agree p q out rules := by
  induction rules with
  | nil => simp [Agree]
  | cons r rules ih =>
    rw [firstMatch_cons, firstMatch_cons, Agree]
    cases p r <;> cases q r <;> simp [ih, eq_comm]

instance (p q : ρ → Bool) (out : ρ → β) [DecidableEq β] (rules : List ρ) :
    Decidable (Agree p q out rules) :=
  decidable_of_iff _ (firstMatch_eq_iff p q out rules)

end Shoes.Lib.FirstMatch
