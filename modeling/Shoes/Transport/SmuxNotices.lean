import Shoes.Transport.SmuxBooks
import Shoes.Transport.EvictionNotices

/-! # Notices of evictions in a smux session

A step of the session takes streams out of its table, or opens one, or hears a notice. -/
namespace Shoes.Transport.SmuxNotices
open Lib.Io Lib.Assoc EvictionNotices Option
open ReceiveBudget SmuxReceive
open BudgetBooks hiding State
open SmuxBooks

/-- The stream that the table has under an id. -/
def table (s : SmuxReceive.State) (x : UInt32) : Option Nat :=
  (s.streams.get x).map StreamState.budget

/-- What every step but the opening of a stream and a notice leaves: no stream is opened, and
streams are only removed from the table. -/
structure Frame (s s' : SmuxReceive.State) : Prop where
  opened : s'.opened = s.opened
  heard : s'.heard = s.heard
  terminated : s'.terminated = s.terminated
  members : ∀ x c, table s' x = some c → table s x = some c

section
variable {cfg : Setup} {s s' : State} {a : SmuxReceive.Action} {b : Nat}

theorem Frame.refl (s) : Frame s s := ⟨rfl, rfl, rfl, fun _ _ h => h⟩

theorem Frame.trans (h : Frame s s') (h' : Frame s' s'') : Frame s s'' :=
  ⟨h'.opened.trans h.opened, h'.heard.trans h.heard, h'.terminated.trans h.terminated,
    fun x c hc => h.members x c (h'.members x c hc)⟩

theorem Frame.of_streams (hstreams : s'.streams = s.streams) (hopened : s'.opened = s.opened)
    (hheard : s'.heard = s.heard) (hterminated : s'.terminated = s.terminated) : Frame s s' :=
  ⟨hopened, hheard, hterminated, fun x c hc => by rw [table, hstreams] at hc; exact hc⟩

theorem table_remove (h : ((s.streams.remove x).get y).map StreamState.budget = some c) :
    table s y = some c := by
  rw [Map.get_remove] at h
  split at h
  · cases h
  · exact h

theorem evictStream_frame (s x cause) : Frame s (s.evictStream cfg x cause) := by
  unfold State.evictStream
  split
  · exact .refl s
  · exact ⟨rfl, rfl, rfl, fun y c hc => table_remove hc⟩

theorem fin_frame (s x) : Frame s (s.fin x) := by
  unfold State.fin
  split
  · exact .refl s
  · exact ⟨rfl, rfl, rfl, fun y c hc => table_remove hc⟩

theorem psh_frame (s x payload) : Frame s (s.psh x payload) := by
  unfold State.psh
  split
  · exact .refl s
  · exact .of_streams rfl rfl rfl rfl

theorem endSession_frame (s e) : Frame s (s.endSession e) := by
  obtain ⟨_, hs⟩ := endSession_eq s e
  rw [hs]
  exact ⟨rfl, rfl, rfl, nofun⟩

theorem closeInbound_frame (s x) : Frame s (s.closeInbound x) := by
  unfold State.closeInbound
  split
  · exact .refl s
  rename_i e he
  refine ⟨rfl, rfl, rfl, fun y c hc => ?_⟩
  rw [table, Map.get_insert] at hc
  split at hc
  next hyx =>
    rw [table, hyx, he]
    exact hc
  · exact hc

theorem lookup_frame {e? : Option StreamState} (h : s.lookup x = (e?, s')) : Frame s s' := by
  unfold State.lookup at h
  split at h
  · cases h
    exact .refl s
  split at h
  · cases h
    exact .refl s
  split at h <;> cases h
  · exact .refl s
  exact closeInbound_frame s x

theorem deliver_frame (s x payload) : Frame s (s.deliver cfg x payload) := by
  unfold State.deliver
  split
  next s₁ hlookup => exact (lookup_frame hlookup).trans (.of_streams rfl rfl rfl rfl)
  rename_i e s₁ hlookup
  refine (lookup_frame hlookup).trans ?_
  split
  · exact .of_streams rfl rfl rfl rfl
  · split <;> exact .of_streams rfl rfl rfl rfl

theorem deliverAgain_frame (s x b payload blocked scope) : Frame s
    (s.deliverAgain cfg x b payload blocked scope) := by
  unfold State.deliverAgain
  iterate 2
    split
    · exact .of_streams rfl rfl rfl rfl
  · split <;> exact .of_streams rfl rfl rfl rfl

theorem reserve_frame (s x room) : Frame s (s.reserve cfg x room) := by
  unfold State.reserve
  split
  next s₁ hlookup => exact (lookup_frame hlookup).trans (.of_streams rfl rfl rfl rfl)
  rename_i e s₁ hlookup
  refine (lookup_frame hlookup).trans ?_
  split <;> exact .of_streams rfl rfl rfl rfl

theorem onGrace_frame (h : onGrace cfg s = some s') : Frame s s' := by
  unfold onGrace at h
  split at h <;> cases h
  · exact .of_streams rfl rfl rfl rfl
  · exact (evictStream_frame s _ _).trans (.of_streams rfl rfl rfl rfl)

theorem onWake_frame (h : onWake cfg s = some s') : Frame s s' := by
  unfold onWake at h
  split at h
  · cases h
    exact .of_streams rfl rfl rfl rfl
  · split at h <;> cases h
    exact (closeInbound_frame s _).trans (.of_streams rfl rfl rfl rfl)
  · cases h

theorem onDeliver_frame (h : onDeliver cfg s = some s') : Frame s s' := by
  unfold onDeliver at h
  split at h <;> cases h
  · exact deliver_frame ..
  · exact deliverAgain_frame ..

theorem onReserve_frame (h : onReserve cfg s room = some s') : Frame s s' := by
  unfold onReserve at h
  split at h
  · cases h
    exact reserve_frame ..
  · split at h <;> cases h
    exact .of_streams rfl rfl rfl rfl
  · cases h

theorem pollData_frame (h : pollData cfg s b count = some s') : Frame s s' := by
  unfold pollData at h
  split at h <;> cases h
  exact .of_streams rfl rfl rfl rfl

theorem onElsewhere_frame {a} (h : onElsewhere cfg s a = some s') : Frame s s' := by
  unfold onElsewhere at h
  split at h
  · obtain ⟨_, -, rfl⟩ := map_eq_some_iff.mp h
    exact .of_streams rfl rfl rfl rfl
  · cases h

/-- The steps in which the table gets a stream, or loses one to a notice. -/
def Action.isFramed : SmuxReceive.Action → Bool
  | .syn _ _ => false
  | .notice => false
  | _ => true

theorem next_frame (ha : Action.isFramed a = true) (h : next cfg s a = some s') : Frame s s' := by
  cases a with
  | syn | notice => cases ha
  | psh x payload =>
    obtain ⟨-, ⟨⟩⟩ := ite_none_right_eq_some.mp h
    exact psh_frame s x payload
  | fin x =>
    obtain ⟨-, ⟨⟩⟩ := ite_none_right_eq_some.mp h
    exact fin_frame s x
  | endSession e =>
    obtain ⟨-, ⟨⟩⟩ := ite_none_right_eq_some.mp h
    exact endSession_frame s e
  | deliver => exact onDeliver_frame h
  | reserve => exact onReserve_frame h
  | wake => exact onWake_frame h
  | grace => exact onGrace_frame h
  | read =>
    obtain ⟨-, h⟩ := ite_none_right_eq_some.mp h
    exact pollData_frame h
  | look | lookTerminal | closed | dropReader | dropBudget =>
    obtain ⟨-, ⟨⟩⟩ := ite_none_right_eq_some.mp h
    exact .of_streams rfl rfl rfl rfl
  | elsewhere => exact onElsewhere_frame h

/-! ## What a step does to the budgets -/

def source (cfg : Setup) : Source UInt32 := ⟨cfg.tree, cfg.session, cfg.tree.eviction⟩

theorem fades_of_touches (h : Touches cfg s a s') (hb : Books cfg s) (hT : cfg.tree.Layout) :
    Fades (source cfg) s.opened s.levels s'.levels := by
  cases h with
  | calm hcalm => exact fades_of_quiet hcalm.quiet
  | evicts v scope picked victim levels =>
    rw [levels]
    exact @fades_of_evict _ (source cfg) _ _ _ _ hb.sound hT victim.stream victim.kept victim.own
      scope
  | drops c levels =>
    rw [levels]
    exact fades_of_dropBudget cfg.tree s.levels c

/-! ## Opening and hearing -/

theorem syn_cases (s x b) : Frame s (s.syn cfg x b) ∨
      ((s.syn cfg x b).opened = b :: s.opened ∧ (s.syn cfg x b).heard = s.heard ∧
        (s.syn cfg x b).terminated = s.terminated ∧ table (s.syn cfg x b) x = some b ∧
        ∀ y c, y ≠ x → table (s.syn cfg x b) y = some c → table s y = some c) := by
  have hretain (y : UInt32) (c : Nat)
      (hc : ((s.streams.retain fun _ e => e.inbound && (s.reader e.budget).opened).get y).map
        StreamState.budget = some c) : table s y = some c := by
    rw [Map.get_retain] at hc
    obtain ⟨e, he, rfl⟩ := map_eq_some_iff.mp hc
    rw [table, (filter_eq_some_iff.mp he).1]
    rfl
  unfold State.syn
  dsimp only
  have hframe : Frame s { s with
      streams := s.streams.retain fun _ e => e.inbound && (s.reader e.budget).opened } :=
    ⟨rfl, rfl, rfl, hretain⟩
  iterate 2
    split
    · exact .inl (hframe.trans (endSession_frame _ _))
  refine .inr ⟨rfl, rfl, rfl, ?_, fun y c hy hc => hretain y c ?_⟩
  · show ((Map.insert _ x ⟨b, true⟩).get x).map StreamState.budget = some b
    rw [Map.get_insert_self]
    rfl
  have hc : ((Map.insert _ x ⟨b, true⟩).get y).map StreamState.budget = some c := hc
  rw [Map.get_insert_ne _ hy] at hc
  exact hc

theorem hear_cases (h : s.hear cfg = some s') :
    ∃ c scope x, (notices (source cfg) s.levels)[s.heard]? = some (c, scope) ∧
      cfg.tree.eviction c = some x ∧ s'.heard = s.heard + 1 ∧ s'.opened = s.opened ∧
      s'.levels = s.levels ∧ (∀ y d, table s' y = some d → table s y = some d) ∧
      s'.terminated = ends (table s) c x s.terminated := by
  have hsame := (hear_same h).1
  unfold State.hear at h
  split at h
  · cases h
  rename_i c scope hc
  split at h <;> cases h
  rename_i x hx
  have hframe (t : List (Nat × Nat)) := @evictStream_frame cfg
    { s with heard := s.heard + 1, terminated := t } x (.bytes scope)
  refine ⟨c, scope, x, hc, hx, (hframe _).heard, (hframe _).opened, hsame.levels,
    (hframe _).members, ?_⟩
  clear hsame
  unfold ends table
  cases he : s.streams.get x with
  | none | some => exact (hframe _).terminated

theorem syn_levels (s : State) (x b) : (s.syn cfg x b).levels = s.levels := by
  unfold State.syn
  dsimp only
  iterate 2
    split
    · exact (endSession_same _ _).levels
  · rfl

/-- What is said of a state here. -/
def Notified (cfg : Setup) (s : SmuxReceive.State) : Prop :=
  Addresses (source cfg) s.levels (table s) s.opened s.heard s.terminated

/-- Nobody that had the id of a stream that is opened is due any more. -/
def reopens (cfg : Setup) (s : SmuxReceive.State) : SmuxReceive.Action → Bool
  | .syn x _ => settled (source cfg) s.levels s.opened s.heard x
  | _ => true

section
variable (h : Notified cfg s)
include h

theorem Notified.frame (hframe : Frame s s')
    (hfades : Fades (source cfg) s.opened s.levels s'.levels) : Notified cfg s' := by
  unfold Notified
  rw [hframe.opened, hframe.heard, hframe.terminated]
  exact Addresses.fade h hfades hframe.members

theorem Notified.syn (hfresh : fresh cfg s x b = true)
    (hfades : Fades (source cfg) s.opened s.levels (s.syn cfg x b).levels)
    (hsettled : reopens cfg s (.syn x b) = true) (hlevels : (s.syn cfg x b).levels = s.levels) :
    Notified cfg (s.syn cfg x b) := by
  rcases @syn_cases cfg s x b with hframe | ⟨hopened, hheard, hterminated, hx, htable⟩
  · exact h.frame hframe hfades
  have hname : cfg.tree.eviction b = some x := by
    unfold fresh at hfresh
    simp only [Bool.and_eq_true, beq_iff_eq] at hfresh
    exact hfresh.1.1.2
  unfold Notified
  rw [hopened, hheard, hterminated, hlevels]
  exact Addresses.enter h hname hsettled hx htable

theorem Notified.hear (hhear : s.hear cfg = some s') : Notified cfg s' := by
  obtain ⟨c, _, x, hc, hx, hheard, hopened, hlevels, htable, hterminated⟩ := hear_cases hhear
  unfold Notified
  rw [hheard, hopened, hlevels, hterminated]
  exact Addresses.hear h hc hx htable

theorem Notified.next (hb : Books cfg s) (hT : cfg.tree.Layout)
    (hsettled : reopens cfg s a = true) (hnext : next cfg s a = some s') : Notified cfg s' := by
  have hfades := fades_of_touches (hb.next hT hnext).2 hb hT
  by_cases hframed : Action.isFramed a = true
  · exact h.frame (next_frame hframed hnext) hfades
  cases a with
  | syn x b =>
    obtain ⟨⟨-, hfresh⟩, ⟨⟩⟩ := ite_none_right_eq_some.mp hnext
    exact h.syn hfresh hfades hsettled (syn_levels s x b)
  | notice =>
    have hnext : onNotice cfg s = some s' := hnext
    unfold onNotice at hnext
    split at hnext
    · exact h.hear hnext
    iterate 2
      · obtain ⟨s₁, hs₁, rfl⟩ := map_eq_some_iff.mp hnext
        have h₁ : Notified cfg s₁ := h.hear hs₁
        exact h₁
    · cases hnext
  | _ => exact absurd rfl hframed

end

theorem Notified.new (cfg) : Notified cfg .new := Addresses.new (source cfg)

end

end Shoes.Transport.SmuxNotices
