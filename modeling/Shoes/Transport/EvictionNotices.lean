import Shoes.Transport.BudgetBooks
import Shoes.Lib.ReusedNames

/-! # Notices of evictions

A session hears of the eviction of a stream through a queue of notices. A notice has the id of the
stream; by the time it is heard, the session may have another stream under that id. -/
namespace Shoes.Transport.EvictionNotices
open Lib.ReusedNames ReceiveBudget BudgetBooks List Bool

/-- Where the notices of a session come from: its budget, and the name that stands in the notice of
a stream. -/
structure Source (ι : Type) where
  tree : Tree
  session : Nat
  name : Nat → Option ι

section
variable {ι : Type} (src : Source ι)

def notices (l : Levels) : List (Nat × Scope) :=
  l.notices.filter fun n => src.tree.parent n.1 == some src.session

/-- The streams whose notice has not been heard. -/
def pending (l : Levels) (heard : Nat) : List Nat := ((notices src l).drop heard).map Prod.fst

/-- A stream that can be evicted, or has been and the session has not heard of it. -/
def Due (l : Levels) (opened : List Nat) (heard b : Nat) : Prop :=
  b ∈ opened ∧ ((l.isEvicted b = false ∧ l.dropped b = false) ∨ b ∈ pending src l heard)

/-- Nobody that was opened under the name is due any more. -/
def settled [DecidableEq ι] (l : Levels) (opened : List Nat) (heard : Nat) (x : ι) : Bool :=
  opened.all fun c => src.name c != some x ||
    ((l.isEvicted c || l.dropped c) && !(pending src l heard).contains c)

/-- What a step can do to the budgets: some go, and of the session's own streams only those are
evicted that were there. -/
structure Fades (opened : List Nat) (l l' : Levels) : Prop where
  live : ∀ b, l'.isEvicted b = false → l'.dropped b = false →
    l.isEvicted b = false ∧ l.dropped b = false
  told : ∃ new, l'.notices = l.notices ++ new ∧ ∀ n ∈ new,
    src.tree.parent n.1 = some src.session →
      n.1 ∈ opened ∧ l.isEvicted n.1 = false ∧ l.dropped n.1 = false

/-- **Every notice that was heard has ended its own stream.** `terminated` has the stream of each
notice that ended one, with the stream that was ended. -/
structure Addresses (l : Levels) (table : ι → Option Nat) (opened : List Nat) (heard : Nat)
    (terminated : List (Nat × Nat)) : Prop where
  addressed : Addressed src.name table (Due src l opened heard)
  noticed : ∀ n ∈ notices src l, n.1 ∈ opened
  own : ∀ t ∈ terminated, t.1 = t.2

end

section
variable {ι : Type} {src : Source ι} {l l' : Levels} {table table' : ι → Option Nat}
  {opened : List Nat} {heard : Nat} {terminated : List (Nat × Nat)} {b : Nat}

theorem Fades.trans (h : Fades src opened l l') (h' : Fades src opened l' l'') :
    Fades src opened l l'' := by
  obtain ⟨new, hnew, hold⟩ := h.told
  obtain ⟨new', hnew', hold'⟩ := h'.told
  refine ⟨fun b hlive hkept => ?_, new ++ new', ?_, fun n hn hparent => ?_⟩
  · obtain ⟨hlive', hkept'⟩ := h'.live b hlive hkept
    exact h.live b hlive' hkept'
  · rw [hnew', hnew, append_assoc]
  rcases mem_append.mp hn with hn | hn
  · exact hold n hn hparent
  obtain ⟨hmem, hlive, hkept⟩ := hold' n hn hparent
  exact ⟨hmem, h.live _ hlive hkept⟩

theorem fades_of_quiet (h : Quiet l l') : Fades src opened l l' where
  live := fun b hlive hkept => by
    rw [h.evicted] at hlive
    rw [h.dropped] at hkept
    exact ⟨hlive, hkept⟩
  told := ⟨[], by rw [h.notices, append_nil], nofun⟩

theorem fades_of_dropBudget (T l i) : Fades src opened l (dropBudget T l i) where
  live := fun b hlive hkept => by
    refine ⟨hlive, ?_⟩
    by_cases hb : b = i
    · subst hb
      unfold dropBudget at hkept
      simp at hkept
    rw [dropBudget_dropped l hb] at hkept
    exact hkept
  told := ⟨[], (append_nil _).symm, nofun⟩

theorem fades_of_evict (h : Sound src.tree l permits) (hT : src.tree.Layout)
    (hstream : src.tree.isStream b = true) (hkept : l.dropped b = false)
    (hown : src.tree.parent b = some src.session → b ∈ opened) (scope) :
    Fades src opened l (evict src.tree l b scope) := by
  by_cases hlive : l.isEvicted b = true
  · rw [evict, if_pos hlive]
    exact fades_of_quiet (.refl l)
  rw [not_eq_true] at hlive
  rw [h.evict_eq hT hstream hlive scope]
  refine ⟨fun c hc hkeptc => ?_, [(b, scope)], rfl, fun n hn hparent => ?_⟩
  · rw [(h.evicted_spec hT hlive scope c).1, or_eq_false_iff] at hc
    exact ⟨hc.2, hkeptc⟩
  rw [mem_singleton.mp hn] at hparent ⊢
  exact ⟨hown hparent, hlive, hkept⟩

/-- Permits of streams of the session are of streams that were opened. -/
def Opened (src : Source ι) (opened : List Nat) (permits : List Permit) : Prop :=
  ∀ p ∈ permits, src.tree.parent p.budget = some src.session → p.budget ∈ opened

section
variable {permits : List Permit} {i length : Nat}

theorem fades_of_evictStalled (h : Sound src.tree l permits) (hT : src.tree.Layout)
    (hpermits : Opened src opened permits) (hstream : src.tree.isStream i = true)
    (hkept : l.dropped i = false) (hown : src.tree.parent i = some src.session → i ∈ opened)
    (blocked scope) : Fades src opened l (evictStalled src.tree l i blocked scope length).2 := by
  rw [evictStalled_eq]
  rcases h.pick_holds i blocked length with hpick | ⟨p, hp, hbudget⟩
  · rw [hpick]
    exact fades_of_evict h hT hstream hkept hown scope
  rw [← hbudget]
  exact fades_of_evict h hT (h.charged p hp).2.1
    (h.attached p hp p.budget (src.tree.mem_chain_self _)).1 (hpermits p hp) scope

theorem fades_of_trackLoop (hT : src.tree.Layout) (hpermits : Opened src opened permits)
    (hstream : src.tree.isStream i = true)
    (hown : src.tree.parent i = some src.session → i ∈ opened) :
    ∀ (fuel : Nat) (l : Levels) (r : Except Scope Permit × Levels), Sound src.tree l permits →
      l.dropped i = false → trackLoop src.tree i length fuel l = some r →
      Fades src opened l r.2 ∧ r.2.dropped = l.dropped
  | 0, _, _, _, _, h => by cases h
  | fuel + 1, l, r, hsound, hkept, h => by
    rw [trackLoop] at h
    rcases tryCharge_spec hT.fits hsound.isPacked i length with ⟨hok, htakes⟩ | ⟨b, -, hblocked⟩
    · rw [hok] at h
      cases h
      exact ⟨fades_of_quiet (charged_quiet hT htakes), rfl⟩
    rw [hblocked] at h
    dsimp only at h
    rw [hblocked] at h
    dsimp only at h
    have hfades :=
      @fades_of_evictStalled _ src l opened permits i length hsound hT hpermits hstream
      hkept hown b (scopeOf src.tree i b)
    have hstalled := (@Sound.evictStalled _ _ _ hsound hT i b length hstream
      (scopeOf src.tree i b)).1
    have hdropped := (@evictStalled_registry src.tree l i b length (scopeOf src.tree i b)).1
    revert h hfades hstalled hdropped
    generalize evictStalled src.tree l i b (scopeOf src.tree i b) length = result
    intro h hfades hstalled hdropped
    obtain ⟨own, l'⟩ := result
    cases own with
    | true =>
      cases h
      exact ⟨hfades, hdropped⟩
    | false =>
      have hkept' : l'.dropped i = false := (congrFun hdropped i).trans hkept
      obtain ⟨hfades', hdropped'⟩ :=
        fades_of_trackLoop hT hpermits hstream hown fuel l' r hstalled hkept' h
      exact ⟨hfades.trans hfades', hdropped'.trans hdropped⟩

theorem fades_of_track (h : Sound src.tree l permits) (hT : src.tree.Layout)
    (hpermits : Opened src opened permits) (hstream : src.tree.isStream i = true)
    (hi : i < src.tree.size) (hkept : l.dropped i = false)
    (hown : src.tree.parent i = some src.session → i ∈ opened) {fuel r}
    (hr : track src.tree fuel l i length = some r) :
    Fades src opened l r.2 ∧ r.2.dropped = l.dropped := by
  obtain ⟨hsound, hsame, -⟩ := h.ensureRegistered hi hkept
  have hkept' : (ensureRegistered src.tree l i).dropped i = false := by
    rw [hsame.dropped]
    exact hkept
  obtain ⟨hfades, hdropped⟩ := fades_of_trackLoop hT hpermits hstream hown fuel _ r hsound hkept' hr
  exact ⟨(fades_of_quiet hsame.quiet).trans hfades, hdropped.trans hsame.dropped⟩

end

section
variable (h : Fades src opened l l')
include h

theorem Fades.pending (hb : b ∈ pending src l' heard) :
    b ∈ EvictionNotices.pending src l heard ∨ (l.isEvicted b = false ∧ l.dropped b = false) := by
  obtain ⟨new, hnew, hold⟩ := h.told
  unfold EvictionNotices.pending notices at hb
  rw [hnew, filter_append, drop_append, map_append] at hb
  rcases mem_append.mp hb with hb | hb
  · exact .inl hb
  obtain ⟨n, hn, rfl⟩ := mem_map.mp hb
  obtain ⟨hmem, hparent⟩ := mem_filter.mp (mem_of_mem_drop hn)
  exact .inr (hold n hmem (by simpa using hparent)).2

/-- **Who is due after a step was due before it.** -/
theorem Fades.due (hdue : Due src l' opened heard b) :
    Due src l opened heard b := by
  obtain ⟨hmem, hdue⟩ := hdue
  rcases hdue with ⟨hlive, hkept⟩ | hpending
  · exact ⟨hmem, .inl (h.live b hlive hkept)⟩
  · exact ⟨hmem, (h.pending hpending).symm⟩

theorem Fades.noticed (hnoticed : ∀ n ∈ notices src l, n.1 ∈ opened) :
    ∀ n ∈ notices src l', n.1 ∈ opened := by
  obtain ⟨new, hnew, hold⟩ := h.told
  intro n hn
  unfold notices at hn hnoticed
  rw [hnew, filter_append] at hn
  rcases mem_append.mp hn with hn | hn
  · exact hnoticed n hn
  obtain ⟨hmem, hparent⟩ := mem_filter.mp hn
  exact (hold n hmem (by simpa using hparent)).1

end

theorem Addresses.fade (h : Addresses src l table opened heard terminated)
    (hfades : Fades src opened l l') (htable : ∀ x c, table' x = some c → table x = some c) :
    Addresses src l' table' opened heard terminated :=
  ⟨h.addressed.mono htable fun _ hb => hfades.due hb, hfades.noticed h.noticed, h.own⟩

theorem free_of_settled [DecidableEq ι] (h : settled src l opened heard x = true) (c)
    (hc : Due src l opened heard c) : src.name c ≠ some x := by
  intro hcx
  obtain ⟨hmem, hdue⟩ := hc
  have hall := all_eq_true.mp h c hmem
  simp only [hcx, bne_self_eq_false, Bool.false_or, Bool.and_eq_true, Bool.or_eq_true,
    Bool.not_eq_true', contains_eq_mem, decide_eq_false_iff_not] at hall
  rcases hdue with ⟨hlive, hkept⟩ | hpending
  · rw [hlive, hkept] at hall
    rcases hall.1 with hfalse | hfalse <;> cases hfalse
  · exact hall.2 hpending

theorem due_cons (hdue : Due src l (b :: opened) heard c) : Due src l opened heard c ∨ c = b := by
  rcases mem_cons.mp hdue.1 with hc | hc
  · exact .inr hc
  · exact .inl ⟨hc, hdue.2⟩

section
variable (h : Addresses src l table opened heard terminated)
include h

theorem Addresses.open
    (hname : src.name b = some x) (hx : table x = none) :
    Addresses src l table (b :: opened) heard terminated := by
  refine ⟨fun c y d hc hy hd => ?_, fun n hn => mem_cons_of_mem _ (h.noticed n hn), h.own⟩
  rcases due_cons hc with hc | hc
  · exact h.addressed c y d hc hy hd
  subst hc
  cases hname.symm.trans hy
  cases hx.symm.trans hd

theorem Addresses.enter [DecidableEq ι]
    (hname : src.name b = some x) (hsettled : settled src l opened heard x = true)
    (hx : table' x = some b) (htable : ∀ y c, y ≠ x → table' y = some c → table y = some c) :
    Addresses src l table' (b :: opened) heard terminated :=
  ⟨h.addressed.enter hname (free_of_settled hsettled) hx htable fun _ hc => due_cons hc,
    fun n hn => mem_cons_of_mem _ (h.noticed n hn), h.own⟩

end

/-- What a notice that is heard ends. -/
def ends (table : ι → Option Nat) (c : Nat) (x : ι) (terminated : List (Nat × Nat)) :
    List (Nat × Nat) :=
  match table x with
  | none => terminated
  | some d => (c, d) :: terminated

theorem Addresses.hear (h : Addresses src l table opened heard terminated)
    (hc : (notices src l)[heard]? = some (c, scope)) (hx : src.name c = some x)
    (htable : ∀ y d, table' y = some d → table y = some d) :
    Addresses src l table' opened (heard + 1) (ends table c x terminated) := by
  have hpending : pending src l heard = c :: pending src l (heard + 1) := by
    unfold pending
    obtain ⟨hlt, heq⟩ := List.getElem?_eq_some_iff.mp hc
    rw [drop_eq_getElem_cons hlt, heq]
    rfl
  refine ⟨h.addressed.mono htable fun d hd => ⟨hd.1, hd.2.imp_right fun hd => ?_⟩, h.noticed,
    fun t ht => ?_⟩
  · rw [hpending]
    exact mem_cons_of_mem _ hd
  unfold ends at ht
  split at ht
  · exact h.own t ht
  rename_i d hd
  rcases mem_cons.mp ht with rfl | ht
  · have hdue : Due src l opened heard c :=
      ⟨h.noticed _ (mem_of_getElem? hc), .inr (by rw [hpending]; exact mem_cons_self ..)⟩
    exact (h.addressed c x d hdue hx hd).symm
  · exact h.own t ht

theorem Addresses.new (src : Source ι) : Addresses src .new (fun _ => none) [] 0 [] where
  addressed := fun b x c hb => by cases hb.1
  noticed := nofun
  own := nofun

end

end Shoes.Transport.EvictionNotices
