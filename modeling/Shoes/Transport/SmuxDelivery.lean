import Shoes.Transport.SmuxBooks

/-! # What the readers of a smux session get

For a stream that was neither evicted nor reset, what was sent is what its reader has got, what is
queued for it and what the session is trying to queue, in this order. -/
namespace Shoes.Transport.SmuxDelivery
open Lib.Io Lib.Assoc List Function Lib.Machine Bool
open ReceiveBudget SmuxReceive
open BudgetBooks hiding State
open SmuxBooks

/-- The stream that the table has under an id. -/
def nameOf (m : Map UInt32 StreamState) (x : UInt32) : Option Nat :=
  (m.get x).map StreamState.budget

/-- The reader was told of a failure, or will be. -/
def Failed (r : Reader) : Prop := ∃ e, r.terminal = some (.failed e)

/-- A stream that was neither evicted nor reset. -/
def Healthy (l : Levels) (reader : Nat → Reader) (b : Nat) : Prop :=
  l.isEvicted b = false ∧ ¬Failed (reader b)

/-- What is held for a stream. -/
def bytesOf (data : List Data) (b : Nat) : List UInt8 :=
  (data.filter fun d => d.permit.budget == b).flatMap Data.bytes

def inflight (m : Map UInt32 StreamState) : Phase → Nat → List UInt8
  | .delivering x payload, b => if nameOf m x = some b then payload else []
  | .refused _ c payload _ _, b => if c = b then payload else []
  | .parked _ c payload _ _, b => if c = b then payload else []
  | _, _ => []

/-- The table and the readers. A reader that was not told of an end has its stream in the table. -/
structure Tabled (m : Map UInt32 StreamState) (reader : Nat → Reader) : Prop where
  listed : ∀ b, (reader b).opened = true → (reader b).terminal = none →
    ∃ x, m.get x = some ⟨b, true⟩
  untold : ∀ x e, m.get x = some e → (reader e.budget).terminal = none
  injective : ∀ x y e e', m.get x = some e → m.get y = some e' → e.budget = e'.budget → x = y
  closed : ∀ x e, m.get x = some e → e.inbound = false → (reader e.budget).opened = false

/-- Where a payload that is charged is, and for whom one is being charged. -/
structure Staged (m : Map UInt32 StreamState) (reader : Nat → Reader) (phase : Phase)
    (data : List Data) : Prop where
  queued : (∀ d ∈ data, d.queued = true) ∨ ∃ qs d x, data = qs ++ [d] ∧
    (∀ d' ∈ qs, d'.queued = true) ∧ d.queued = false ∧ (phase = .charged x ∨ phase = .full x) ∧
    (nameOf m x = some d.permit.budget ∨ Failed (reader d.permit.budget))
  refused : ∀ x b payload blocked scope,
    phase = .refused x b payload blocked scope ∨ phase = .parked x b payload blocked scope →
      nameOf m x = some b

/-- **Nothing is lost, twice there or out of order.** -/
structure Flows (l : Levels) (m : Map UInt32 StreamState) (reader : Nat → Reader) (phase : Phase)
    (data : List Data) (sent : Nat → List UInt8) : Prop where
  whole : ∀ b, Healthy l reader b → (reader b).opened = true →
    sent b = (reader b).delivered ++ bytesOf data b ++ inflight m phase b
  part : ∀ b, Healthy l reader b → (reader b).delivered <+: sent b

/-- Who has seen the end has read all. -/
structure Ends (l : Levels) (reader : Nat → Reader) (data : List Data) (sent : Nat → List UInt8) :
    Prop where
  looked : ∀ b, (reader b).looked = true → (reader b).terminal = some .finished →
    hasQueued data b = false
  result : ∀ b, (reader b).result = some (.ok ()) → (reader b).terminal = some .finished ∧
    (reader b).readFinished = true ∧ (Healthy l reader b → (reader b).delivered = sent b)

structure Delivers (s : SmuxReceive.State) : Prop where
  tabled : Tabled s.streams s.reader
  staged : Staged s.streams s.reader s.phase s.data
  flows : Flows s.levels s.streams s.reader s.phase s.data s.sent
  ends : Ends s.levels s.reader s.data s.sent
  unsent : ∀ b, b ∉ s.opened → s.sent b = []

/-! ## Data -/

section
variable {data : List Data} {b : Nat}

theorem bytesOf_append (ds ds' b) : bytesOf (ds ++ ds') b = bytesOf ds b ++ bytesOf ds' b := by
  unfold bytesOf
  rw [filter_append, flatMap_append]

theorem bytesOf_cons_self {d} (h : d.permit.budget = b) (ds) :
    bytesOf (d :: ds) b = d.bytes ++ bytesOf ds b := by
  unfold bytesOf
  rw [filter_cons_of_pos (by simpa using h), flatMap_cons]

theorem bytesOf_cons_ne {d} (h : d.permit.budget ≠ b) (ds) :
    bytesOf (d :: ds) b = bytesOf ds b := by
  unfold bytesOf
  rw [filter_cons_of_neg (by simpa using h)]

theorem bytesOf_eq_nil (h : ∀ d ∈ data, d.permit.budget ≠ b) : bytesOf data b = [] := by
  unfold bytesOf
  rw [filter_eq_nil_iff.mpr fun d hd => by simpa using h d hd]
  rfl

theorem bytesOf_filter {p} (h : ∀ d ∈ data, d.permit.budget = b → p d = true) :
    bytesOf (data.filter p) b = bytesOf data b := by
  unfold bytesOf
  rw [filter_filter]
  congr 1
  refine filter_congr fun d hd => ?_
  by_cases hb : d.permit.budget = b
  · simp [hb, h d hd hb]
  · simp [hb]

theorem bytesOf_queue (data b) :
    bytesOf (data.map fun d => { d with queued := true }) b = bytesOf data b := by
  unfold bytesOf
  induction data with
  | nil => rfl
  | cons d ds ih =>
    rw [map_cons, filter_cons, filter_cons]
    split
    · rw [flatMap_cons, flatMap_cons, ih]
    · exact ih

theorem hasQueued_filter (h : hasQueued data b = false) : hasQueued (data.filter q) b = false :=
  any_eq_false.mpr fun d hd => any_eq_false.mp h d (mem_of_mem_filter hd)

theorem hasQueued_eq_false (h : hasQueued data b = false) :
    ∀ d ∈ data, d.queued = true → d.permit.budget ≠ b := by
  intro d hd hqueued heq
  have hnone := any_eq_false.mp h d hd
  simp [hqueued, heq] at hnone

end

/-! ## Readers -/

variable {x : UInt32} {e : StreamState}

section
variable {m m' : Map UInt32 StreamState} {reader reader' : Nat → Reader} {b : Nat}

/-- No reader hears of its end, and none comes back. -/
structure Follows (reader reader' : Nat → Reader) : Prop where
  opened : ∀ b, (reader' b).opened = true → (reader b).opened = true
  terminal : ∀ b, (reader' b).terminal = (reader b).terminal

theorem follows_update {r} (hopened : r.opened = true → (reader b).opened = true)
    (hterminal : r.terminal = (reader b).terminal) : Follows reader (update reader b r) := by
  refine ⟨fun c hc => ?_, fun c => ?_⟩
  · by_cases hcb : c = b
    · subst hcb
      rw [update_self] at hc
      exact hopened hc
    · rw [update_of_ne hcb] at hc
      exact hc
  by_cases hcb : c = b
  · subst hcb
    rw [update_self]
    exact hterminal
  · rw [update_of_ne hcb]

theorem Follows.failed (h : Follows reader reader') (b) :
    Failed (reader' b) ↔ Failed (reader b) := by
  unfold Failed
  rw [h.terminal]

theorem Tabled.follow (h : Tabled m reader) (hf : Follows reader reader') : Tabled m reader' where
  listed := fun b hopened hterminal =>
    h.listed b (hf.opened b hopened) ((hf.terminal b).symm.trans hterminal)
  untold := fun x e he => (hf.terminal _).trans (h.untold x e he)
  injective := h.injective
  closed := fun x e he hinbound => by
    have hgone := h.closed x e he hinbound
    rw [← not_eq_true] at hgone ⊢
    exact fun hopened => hgone (hf.opened _ hopened)

theorem Staged.follow {phase data} (h : Staged m reader phase data)
    (hf : Follows reader reader') : Staged m reader' phase data := by
  refine ⟨?_, h.refused⟩
  rcases h.queued with hall | ⟨qs, d, x, hdata, hqs, hd, hphase, hname⟩
  · exact .inl hall
  · exact .inr ⟨qs, d, x, hdata, hqs, hd, hphase, hname.imp_right (hf.failed _).mpr⟩

/-- One reader is told its end. -/
def told (reader : Nat → Reader) (b : Nat) (t : InboundTerminal) : Nat → Reader :=
  update reader b { reader b with terminal := some t }

theorem told_self (reader b t) :
    told reader b t b = { reader b with terminal := some t } := update_self ..

theorem told_ne (reader) {b c} (h : c ≠ b) (t) : told reader b t c = reader c := update_of_ne h ..

/-- Readers that had not heard of their end may have now. -/
structure Tells (reader reader' : Nat → Reader) : Prop where
  opened : ∀ b, (reader' b).opened = (reader b).opened
  delivered : ∀ b, (reader' b).delivered = (reader b).delivered
  looked : ∀ b, (reader' b).looked = (reader b).looked
  readFinished : ∀ b, (reader' b).readFinished = (reader b).readFinished
  result : ∀ b, (reader' b).result = (reader b).result
  terminal : ∀ b, (reader' b).terminal = (reader b).terminal ∨ (reader b).terminal = none

theorem Tells.refl (reader) : Tells reader reader :=
  ⟨fun _ => rfl, fun _ => rfl, fun _ => rfl, fun _ => rfl, fun _ => rfl, fun _ => .inl rfl⟩

theorem tells_told (h : (reader b).terminal = none) (t) : Tells reader (told reader b t) := by
  have hself := told_self reader b t
  refine ⟨fun c => ?_, fun c => ?_, fun c => ?_, fun c => ?_, fun c => ?_, fun c => ?_⟩ <;>
    by_cases hc : c = b
  all_goals first
    | (subst hc; rw [hself])
    | rw [told_ne reader hc]
  · exact .inr h
  · exact .inl rfl

theorem Tells.failed (h : Tells reader reader') (hb : Failed (reader b)) : Failed (reader' b) := by
  obtain ⟨e, he⟩ := hb
  rcases h.terminal b with hsame | hnone
  · exact ⟨e, hsame.trans he⟩
  · cases hnone.symm.trans he

/-! ## The table -/

theorem nameOf_some (h : m.get x = some e) : nameOf m x = some e.budget := by
  rw [nameOf, h]
  rfl

theorem get_of_nameOf (h : nameOf m x = some b) :
    ∃ e, m.get x = some e ∧ e.budget = b := Option.map_eq_some_iff.mp h

section
variable (h : Tabled m reader)
include h

theorem Tabled.name_untold (hx : nameOf m x = some b) :
    (reader b).terminal = none := by
  obtain ⟨e, he, rfl⟩ := get_of_nameOf hx
  exact h.untold x e he

theorem Tabled.tell (he : m.get x = some e)
    (t) : Tabled (m.remove x) (told reader e.budget t) := by
  have hother (y : UInt32) (e' : StreamState) (hy : (m.remove x).get y = some e') :
      m.get y = some e' ∧ e'.budget ≠ e.budget := by
    rw [Map.get_remove] at hy
    split at hy
    · cases hy
    next hne => exact ⟨hy, fun heq => hne (h.injective y x e' e hy he heq)⟩
  refine ⟨fun b hopened hterminal => ?_, fun y e' hy => ?_, fun y z e' e'' hy hz => ?_,
    fun y e' hy hinbound => ?_⟩
  · have hb : b ≠ e.budget := by
      intro heq
      rw [heq, told_self] at hterminal
      cases hterminal
    rw [told_ne reader hb] at hopened hterminal
    obtain ⟨y, hy⟩ := h.listed b hopened hterminal
    refine ⟨y, ?_⟩
    rw [Map.get_remove_ne _ fun hyx => ?_]
    · exact hy
    rw [hyx, he] at hy
    cases hy
    exact hb rfl
  · obtain ⟨hy, hne⟩ := hother y e' hy
    rw [told_ne reader hne]
    exact h.untold y e' hy
  · exact h.injective y z e' e'' (hother y e' hy).1 (hother z e'' hz).1
  obtain ⟨hy, hne⟩ := hother y e' hy
  rw [told_ne reader hne]
  exact h.closed y e' hy hinbound

theorem Tabled.close (he : m.get x = some e)
    (hgone : (reader e.budget).opened = false) :
    Tabled (m.insert x { e with inbound := false }) reader := by
  have hold (y : UInt32) (e' : StreamState)
      (hy : (m.insert x { e with inbound := false }).get y = some e') :
      ∃ e₀, m.get y = some e₀ ∧ e₀.budget = e'.budget ∧
        (e'.inbound = false → e₀.inbound = false ∨ (reader e'.budget).opened = false) := by
    rw [Map.get_insert] at hy
    split at hy
    next hyx =>
      cases hy
      exact ⟨e, by rw [hyx]; exact he, rfl, fun _ => .inr hgone⟩
    · exact ⟨e', hy, rfl, .inl⟩
  refine ⟨fun b hopened hterminal => ?_, fun y e' hy => ?_, fun y z e' e'' hy hz heq => ?_,
    fun y e' hy hinbound => ?_⟩
  · obtain ⟨y, hy⟩ := h.listed b hopened hterminal
    refine ⟨y, ?_⟩
    rw [Map.get_insert_ne _ fun hyx => ?_]
    · exact hy
    rw [hyx, he] at hy
    cases hy
    cases hopened.symm.trans hgone
  · obtain ⟨e₀, he₀, hbudget, -⟩ := hold y e' hy
    rw [← hbudget]
    exact h.untold y e₀ he₀
  · obtain ⟨e₀, he₀, hbudget, -⟩ := hold y e' hy
    obtain ⟨e₁, he₁, hbudget', -⟩ := hold z e'' hz
    exact h.injective y z e₀ e₁ he₀ he₁ (by rw [hbudget, hbudget', heq])
  obtain ⟨e₀, he₀, hbudget, hinbound'⟩ := hold y e' hy
  rcases hinbound' hinbound with hinbound' | hgone'
  · rw [← hbudget]
    exact h.closed y e₀ he₀ hinbound'
  · exact hgone'

end

theorem nameOf_close (he : m.get x = some e) :
    nameOf (m.insert x { e with inbound := false }) = nameOf m := by
  funext y
  unfold nameOf
  rw [Map.get_insert]
  split
  next hyx =>
    rw [hyx, he]
    rfl
  · rfl

end

/-! ## What every step has to show -/

section
variable {l l' : Levels} {m m' : Map UInt32 StreamState} {reader reader' : Nat → Reader}
  {phase phase' : Phase} {data data' : List Data} {sent : Nat → List UInt8} {b : Nat}

/-- An evicted stream stays evicted. -/
def Lasting (l l' : Levels) : Prop := ∀ b, l'.isEvicted b = false → l.isEvicted b = false

/-- Streams that leave the table are told of a failure. -/
structure Expels (m : Map UInt32 StreamState) (reader : Nat → Reader)
    (m' : Map UInt32 StreamState) (reader' : Nat → Reader) : Prop where
  tabled : Tabled m' reader'
  tells : Tells reader reader'
  names : ∀ x c, nameOf m' x = some c → nameOf m x = some c
  gone : ∀ x c, nameOf m x = some c → nameOf m' x = some c ∨ Failed (reader' c)
  finished : ∀ b, (reader' b).terminal = some .finished → (reader b).terminal = some .finished

theorem Expels.refl (h : Tabled m reader) : Expels m reader m reader :=
  ⟨h, .refl _, fun _ _ hx => hx, fun _ _ hx => .inl hx, fun _ hb => hb⟩

/-- The session has charged a payload that is not queued yet. -/
def isCharging : Phase → Bool
  | .charged _ => true
  | .full _ => true
  | _ => false

/-- The session holds a payload that was refused. -/
def isRefused : Phase → Bool
  | .refused _ _ _ _ _ => true
  | .parked _ _ _ _ _ => true
  | _ => false

theorem Staged.all_queued (h : Staged m reader phase data) (hphase : isCharging phase = false) :
    ∀ d ∈ data, d.queued = true := by
  rcases h.queued with hall | ⟨_, d, x, -, -, -, rfl | rfl, -⟩
  · exact hall
  · cases hphase
  · cases hphase

theorem staged_of_queued (hall : ∀ d ∈ data, d.queued = true) (hphase : isRefused phase = false) :
    Staged m reader phase data := by
  refine ⟨.inl hall, ?_⟩
  rintro x b _ _ _ (rfl | rfl)
  · cases hphase
  · cases hphase

theorem Staged.charging (h : Staged m reader phase data)
    (hphase : phase = .charged x ∨ phase = .full x)
    (hphase' : phase' = .charged x ∨ phase' = .full x)
    (hnames : ∀ c, nameOf m x = some c ∨ Failed (reader c) →
      nameOf m' x = some c ∨ Failed (reader' c)) : Staged m' reader' phase' data := by
  refine ⟨?_, fun _ _ _ _ _ hp => ?_⟩
  · rcases h.queued with hall | ⟨qs, d, y, hdata, hqs, hd, hy, hname⟩
    · exact .inl hall
    · have hyx : y = x := by
        rcases hphase with rfl | rfl <;> rcases hy with hy | hy <;> cases hy <;> rfl
      exact .inr ⟨qs, d, x, hdata, hqs, hd, hphase', hnames _ (hyx ▸ hname)⟩
  · rcases hphase' with rfl | rfl <;> rcases hp with hp | hp <;> cases hp

/-- **A stream that has ended and has nothing queued has nothing at all.** -/
theorem drained (ht : Tabled m reader) (hs : Staged m reader phase data)
    (hterminal : (reader b).terminal = some .finished) (hqueued : hasQueued data b = false) :
    (∀ d ∈ data, d.permit.budget ≠ b) ∧ inflight m phase b = [] := by
  have hunnamed : ∀ x, nameOf m x ≠ some b := by
    intro x hx
    rw [ht.name_untold hx] at hterminal
    cases hterminal
  constructor
  · intro d hd heq
    rcases hs.queued with hall | ⟨_, _, x, hdata, hqs, -, -, hname⟩
    · exact hasQueued_eq_false hqueued d hd (hall d hd) heq
    rw [hdata] at hd
    rcases mem_append.mp hd with hd' | hd'
    · exact hasQueued_eq_false hqueued d (hdata ▸ hd) (hqs d hd') heq
    rw [mem_singleton.mp hd'] at heq
    rcases hname with hname | ⟨e, he⟩
    · exact hunnamed x (heq ▸ hname)
    rw [heq, hterminal] at he
    cases he
  cases phase with
  | delivering x => exact if_neg (hunnamed x)
  | refused x c payload blocked scope =>
    refine if_neg fun hc => hunnamed x ?_
    rw [hs.refused x c payload blocked scope (.inl rfl), hc]
  | parked x c payload blocked scope =>
    refine if_neg fun hc => hunnamed x ?_
    rw [hs.refused x c payload blocked scope (.inr rfl), hc]
  | _ => rfl

end

/-! ## One stream -/

/-- What `Flows` and `Ends` say of one stream. -/
structure At (l : Levels) (m : Map UInt32 StreamState) (phase : Phase) (data : List Data) (b : Nat)
    (r : Reader) (sent : List UInt8) : Prop where
  whole : l.isEvicted b = false → ¬Failed r → r.opened = true →
    sent = r.delivered ++ bytesOf data b ++ inflight m phase b
  part : l.isEvicted b = false → ¬Failed r → r.delivered <+: sent
  looked : r.looked = true → r.terminal = some .finished → hasQueued data b = false
  result : r.result = some (.ok ()) → r.terminal = some .finished ∧ r.readFinished = true ∧
    (l.isEvicted b = false → ¬Failed r → r.delivered = sent)

section
variable {l l' : Levels} {m m' : Map UInt32 StreamState} {reader : Nat → Reader} {r : Reader}
  {phase phase' : Phase} {data data' : List Data} {sent : Nat → List UInt8} {b : Nat}

theorem at_of_flows (hf : Flows l m reader phase data sent) (he : Ends l reader data sent)
    (b) : At l m phase data b (reader b) (sent b) where
  whole hl hr := hf.whole b ⟨hl, hr⟩
  part hl hr := hf.part b ⟨hl, hr⟩
  looked := he.looked b
  result hr := by
    obtain ⟨hterminal, hfinished, hall⟩ := he.result b hr
    exact ⟨hterminal, hfinished, fun hl hr => hall ⟨hl, hr⟩⟩

section
variable (h : ∀ b, At l m phase data b (reader b) (sent b))
include h

theorem flows_of_at : Flows l m reader phase data sent :=
  ⟨fun b hb => (h b).whole hb.1 hb.2, fun b hb => (h b).part hb.1 hb.2⟩

theorem ends_of_at : Ends l reader data sent := by
  refine ⟨fun b => (h b).looked, fun b hr => ?_⟩
  obtain ⟨hterminal, hfinished, hall⟩ := (h b).result hr
  exact ⟨hterminal, hfinished, fun hb => hall hb.1 hb.2⟩

end

theorem At.mono {reader' sent} (h : At l m phase data b (reader b) sent) (ht : Tells reader reader')
    (hl : l'.isEvicted b = false → l.isEvicted b = false)
    (hheld : Healthy l' reader' b → (reader b).opened = true →
      bytesOf data' b ++ inflight m' phase' b = bytesOf data b ++ inflight m phase b)
    (hlooked : (reader b).looked = true → (reader' b).terminal = some .finished →
      hasQueued data' b = false) : At l' m' phase' data' b (reader' b) sent where
  whole hb hr ho := by
    rw [ht.opened] at ho
    rw [append_assoc, hheld ⟨hb, hr⟩ ho, ht.delivered, ← append_assoc]
    exact h.whole (hl hb) (mt ht.failed hr) ho
  part hb hr := by
    rw [ht.delivered]
    exact h.part (hl hb) (mt ht.failed hr)
  looked hr := hlooked ((ht.looked b).symm.trans hr)
  result hr := by
    obtain ⟨hterminal, hfinished, hall⟩ := h.result ((ht.result b).symm.trans hr)
    refine ⟨(ht.terminal b).elim (·.trans hterminal) fun hnone => ?_,
      (ht.readFinished b).trans hfinished, fun hb hr => ?_⟩
    · cases hnone.symm.trans hterminal
    rw [ht.delivered]
    exact hall (hl hb) (mt ht.failed hr)

end

/-! ## Streams that are given up -/

section
variable {cfg : Setup} {s s' : State} {b : Nat}

variable {m : Map UInt32 StreamState}

variable {reader : Nat → Reader}

theorem Tabled.expel (h : Tabled m reader) (he : m.get x = some e) (failure) :
    Expels m reader (m.remove x) (told reader e.budget (.failed failure)) := by
  refine ⟨h.tell he _, tells_told (h.untold x e he) _, fun y c hy => ?_, fun y c hy => ?_,
    fun c hc => ?_⟩
  · obtain ⟨_, he', rfl⟩ := get_of_nameOf hy
    rw [Map.get_remove] at he'
    split at he'
    · cases he'
    · exact nameOf_some he'
  · by_cases hyx : y = x
    · subst hyx
      rw [nameOf_some he] at hy
      cases hy
      exact .inr ⟨failure, by rw [told_self]⟩
    · refine .inl ?_
      unfold nameOf
      rw [Map.get_remove_ne _ hyx]
      exact hy
  by_cases hce : c = e.budget
  · rw [hce, told_self] at hc
    cases hc
  rw [told_ne _ hce] at hc
  exact hc

theorem evictStream_expels (h : Tabled s.streams s.reader) (x cause) :
    Expels s.streams s.reader (s.evictStream cfg x cause).streams
      (s.evictStream cfg x cause).reader := by
  unfold State.evictStream
  split
  · exact .refl h
  next e he => exact h.expel he (stalledError cfg cause)

theorem evictStream_sent (s : State) (x cause) : (s.evictStream cfg x cause).sent = s.sent := by
  unfold State.evictStream
  split <;> rfl

theorem evictStream_name (s : State) (x cause) :
    nameOf (s.evictStream cfg x cause).streams x = none := by
  unfold State.evictStream
  split
  next hnone =>
    rw [nameOf, hnone]
    rfl
  show ((s.streams.remove x).get x).map _ = none
  rw [Map.get_remove_self]
  rfl

theorem hear_expels (h : Tabled s.streams s.reader) (hhear : s.hear cfg = some s') :
    Expels s.streams s.reader s'.streams s'.reader := by
  unfold State.hear at hhear
  split at hhear
  · cases hhear
  split at hhear <;> cases hhear
  rename_i b scope _ _ x _
  have hexpels (t : List (Nat × Nat)) := @evictStream_expels cfg
    { s with heard := s.heard + 1, terminated := t } h x (.bytes scope)
  exact hexpels _

theorem endSession_reader (entries : List (UInt32 × StreamState)) (failure) (s : State) (b) :
    (entries.foldl (fun s entry => s.sendTerminal entry.2.budget (.failed failure)) s).reader b =
      if ∃ entry ∈ entries, entry.2.budget = b then
        { s.reader b with terminal := some (.failed failure) }
      else s.reader b := by
  induction entries generalizing s with
  | nil => simp
  | cons entry entries ih =>
    rw [foldl_cons, ih]
    have hreader : (s.sendTerminal entry.2.budget (.failed failure)).reader b =
        told s.reader entry.2.budget (.failed failure) b := rfl
    by_cases hb : entry.2.budget = b
    · rw [hreader, ← hb, told_self]
      simp
    rw [hreader, told_ne _ (Ne.symm hb)]
    refine if_congr ?_ rfl rfl
    rw [exists_mem_cons_iff]
    exact ⟨.inr, fun hor => hor.resolve_left hb⟩

theorem endSession_expels (h : Tabled s.streams s.reader) (failure) :
    Expels s.streams s.reader (s.endSession failure).streams (s.endSession failure).reader := by
  have hreader (b : Nat) : (s.endSession failure).reader b =
      if ∃ entry ∈ s.streams.entries, entry.2.budget = b then
        { s.reader b with terminal := some (.failed failure) }
      else s.reader b := endSession_reader s.streams.entries failure s b
  have hlisted (x : UInt32) (e : StreamState) (he : s.streams.get x = some e) :
      ∃ entry ∈ s.streams.entries, entry.2.budget = e.budget :=
    ⟨(x, e), s.streams.mem_of_get he, rfl⟩
  have huntold (b : Nat) (hb : ∃ entry ∈ s.streams.entries, entry.2.budget = b) :
      (s.reader b).terminal = none := by
    obtain ⟨⟨x, e⟩, he, rfl⟩ := hb
    exact h.untold x e (lookup_of_mem s.streams.nodup he)
  refine ⟨⟨fun b hopened hterminal => ?_, nofun, nofun, nofun⟩,
    ⟨fun b => ?_, fun b => ?_, fun b => ?_, fun b => ?_, fun b => ?_, fun b => ?_⟩,
    nofun, fun x c hx => ?_, fun b hb => ?_⟩
  · rw [hreader] at hopened hterminal
    split at hterminal
    · cases hterminal
    rename_i hnone
    rw [if_neg hnone] at hopened
    obtain ⟨x, hx⟩ := h.listed b hopened hterminal
    exact absurd (hlisted x _ hx) hnone
  all_goals try rw [hreader]; split <;> rfl
  · rw [hreader]
    split
    next hb => exact .inr (huntold b hb)
    · exact .inl rfl
  · obtain ⟨e, he, rfl⟩ := get_of_nameOf hx
    refine .inr ⟨failure, ?_⟩
    rw [hreader, if_pos (hlisted x e he)]
  rw [hreader] at hb
  split at hb
  · cases hb
  · exact hb

/-! ## Steps of the session -/

theorem Delivers.at (h : Delivers s) (b) :
    At s.levels s.streams s.phase s.data b (s.reader b) (s.sent b) := at_of_flows h.flows h.ends b

/-- What a step has to show that sends nothing and lets nobody read. -/
theorem Delivers.mono (h : Delivers s) (htells : Tells s.reader s'.reader)
    (hl : Lasting s.levels s'.levels) (hsent : s'.sent = s.sent) (hopened : s'.opened = s.opened)
    (htabled : Tabled s'.streams s'.reader) (hstaged : Staged s'.streams s'.reader s'.phase s'.data)
    (hheld : ∀ b, Healthy s'.levels s'.reader b → (s.reader b).opened = true →
      bytesOf s'.data b ++ inflight s'.streams s'.phase b =
        bytesOf s.data b ++ inflight s.streams s.phase b)
    (hlooked : ∀ b, (s.reader b).looked = true → (s'.reader b).terminal = some .finished →
      hasQueued s'.data b = false) : Delivers s' := by
  have hat (b : Nat) : At s'.levels s'.streams s'.phase s'.data b (s'.reader b) (s'.sent b) := by
    rw [hsent]
    exact (h.at b).mono htells (hl b) (hheld b) (hlooked b)
  refine ⟨htabled, hstaged, flows_of_at hat, ends_of_at hat, ?_⟩
  rw [hopened, hsent]
  exact h.unsent

theorem Delivers.levels (h : Delivers s) {l others} (hl : Lasting s.levels l) :
    Delivers { s with levels := l, others := others } :=
  h.mono (.refl _) hl rfl rfl h.tabled h.staged (fun _ _ _ => rfl) h.ends.looked

variable {phase : Phase}

section
variable (h : Delivers s)
include h

theorem Delivers.expelled (hx : Expels s.streams s.reader s'.streams s'.reader)
    (hsame : SameData s s') (hsent : s'.sent = s.sent)
    (hstaged : Staged s'.streams s'.reader phase s.data) (hinflight : ∀ b, ¬Failed (s'.reader b) →
      inflight s'.streams phase b = inflight s.streams s.phase b) :
    Delivers { s' with phase := phase } := by
  refine h.mono hx.tells ?_ hsent hsame.opened hx.tabled ?_ (fun b hb _ => ?_) fun b hb hfin => ?_
  · rw [hsame.levels]
    exact fun _ hb => hb
  · rw [hsame.data]
    exact hstaged
  · rw [hsame.data, hinflight b hb.2]
  rw [hsame.data]
  exact h.ends.looked b hb (hx.finished b hfin)

section
variable (hphase : s.phase = .idle)
include hphase

theorem Delivers.expel (hx : Expels s.streams s.reader s'.streams s'.reader)
    (hsame : SameData s s') (hsent : s'.sent = s.sent)
    (hphase' : s'.phase = .idle ∨ s'.phase = .ended) : Delivers s' := by
  have hall := h.staged.all_queued (by rw [hphase]; rfl)
  have hrefused : isRefused s'.phase = false := by
    rcases hphase' with hphase' | hphase' <;> rw [hphase'] <;> rfl
  refine h.expelled hx hsame hsent (staged_of_queued hall hrefused) fun b _ => ?_
  rw [hphase]
  rcases hphase' with hphase' | hphase' <;> rw [hphase'] <;> rfl

theorem Delivers.idle_queued : ∀ d ∈ s.data, d.queued = true :=
  h.staged.all_queued (by rw [hphase]; rfl)

theorem Delivers.retain : Delivers { s with
      streams := s.streams.retain fun _ e => e.inbound && (s.reader e.budget).opened } := by
  have hold (y : UInt32) (e : StreamState)
      (hy : (s.streams.retain fun _ e => e.inbound && (s.reader e.budget).opened).get y = some e) :
      s.streams.get y = some e := by
    rw [Map.get_retain] at hy
    exact (Option.filter_eq_some_iff.mp hy).1
  refine h.mono (.refl _) (fun _ hb => hb) rfl rfl ⟨fun b hopened hterminal => ?_,
    fun y e hy => h.tabled.untold y e (hold y e hy),
    fun y z e e' hy hz => h.tabled.injective y z e e' (hold y e hy) (hold z e' hz),
    fun y e hy => h.tabled.closed y e (hold y e hy)⟩ ?_ (fun b _ _ => ?_) h.ends.looked
  · obtain ⟨x, hx⟩ := h.tabled.listed b hopened hterminal
    refine ⟨x, ?_⟩
    have hopened : (s.reader b).opened = true := hopened
    rw [Map.get_retain, hx]
    simp [hopened]
  · have hphase' : ({ s with streams := s.streams.retain fun _ e =>
      e.inbound && (s.reader e.budget).opened } : State).phase = .idle := hphase
    rw [hphase']
    exact staged_of_queued (h.idle_queued hphase) rfl
  rw [hphase]
  rfl

theorem Delivers.endSession (failure) : Delivers (s.endSession failure) := by
  refine h.expel hphase (endSession_expels h.tabled failure) (endSession_same s failure) ?_
    (.inr rfl)
  obtain ⟨_, hs⟩ := endSession_eq s failure
  rw [hs]

end

theorem Delivers.open (hb : Books cfg s) (hphase : s.phase = .idle) (hx : s.streams.get x = none)
    (hnew : b ∉ s.opened) : Delivers (({ s with
      streams := s.streams.insert x ⟨b, true⟩
      opened := b :: s.opened } : State).setReader b
        fun _ => ⟨true, false, false, none, [], none⟩) := by
  have hother (y : UInt32) (e : StreamState) (he : s.streams.get y = some e) : e.budget ≠ b := by
    intro heq
    exact hnew (heq ▸ (hb.own (y, e) (s.streams.mem_of_get he)).opened)
  have hget (y : UInt32) (e : StreamState) (hy : (s.streams.insert x ⟨b, true⟩).get y = some e) :
      (y = x ∧ e = ⟨b, true⟩) ∨ (s.streams.get y = some e ∧ e.budget ≠ b) := by
    rw [Map.get_insert] at hy
    split at hy
    next hyx =>
      cases hy
      exact .inl ⟨hyx, rfl⟩
    · exact .inr ⟨hy, hother y e hy⟩
  have hat (c : Nat) : At s.levels (s.streams.insert x ⟨b, true⟩) s.phase s.data c
      (update s.reader b ⟨true, false, false, none, [], none⟩ c) (s.sent c) := by
    by_cases hcb : c = b
    · subst hcb
      have hnone : bytesOf s.data c = [] :=
        bytesOf_eq_nil fun d hd heq => hnew (heq ▸ (hb.data d hd).opened)
      rw [update_self, h.unsent c hnew]
      refine ⟨fun _ _ _ => ?_, fun _ _ => nil_prefix, by simp, by simp⟩
      rw [hnone, hphase]
      rfl
    rw [update_of_ne hcb]
    exact (h.at c).mono (.refl _) (fun hl => hl) (fun _ _ => by rw [hphase]; rfl) (h.at c).looked
  refine ⟨⟨fun c hopened hterminal => ?_, fun y e hy => ?_, fun y z e e' hy hz heq => ?_,
    fun y e hy hinbound => ?_⟩, ?_, flows_of_at hat, ends_of_at hat, fun c hc => ?_⟩
  · by_cases hcb : c = b
    · exact ⟨x, by rw [hcb]; exact Map.get_insert_self ..⟩
    · have hopened : (update s.reader b _ c).opened = true := hopened
      have hterminal : (update s.reader b _ c).terminal = none := hterminal
      rw [update_of_ne hcb] at hopened hterminal
      obtain ⟨y, hy⟩ := h.tabled.listed c hopened hterminal
      refine ⟨y, ?_⟩
      show (s.streams.insert x ⟨b, true⟩).get y = _
      rw [Map.get_insert_ne _ fun hyx => ?_]
      · exact hy
      rw [hyx, hx] at hy
      cases hy
  · show (update s.reader b _ e.budget).terminal = none
    rcases hget y e hy with ⟨-, rfl⟩ | ⟨hy, hbudget⟩
    · rw [update_self]
    rw [update_of_ne hbudget]
    exact h.tabled.untold y e hy
  · rcases hget y e hy with ⟨rfl, rfl⟩ | ⟨hy, hbudget⟩
    · rcases hget z e' hz with ⟨rfl, -⟩ | ⟨-, hbudget'⟩
      · rfl
      · exact absurd heq.symm hbudget'
    · rcases hget z e' hz with ⟨-, rfl⟩ | ⟨hz, -⟩
      · exact absurd heq hbudget
      · exact h.tabled.injective y z e e' hy hz heq
  · show (update s.reader b _ e.budget).opened = false
    rcases hget y e hy with ⟨-, rfl⟩ | ⟨hy, hbudget⟩
    · cases hinbound
    rw [update_of_ne hbudget]
    exact h.tabled.closed y e hy hinbound
  · rw [hphase]
    exact staged_of_queued (h.idle_queued hphase) rfl
  · exact h.unsent c fun hmem => hc (mem_cons_of_mem _ hmem)

theorem Delivers.syn (hb : Books cfg s) (hphase : s.phase = .idle)
    (hfresh : fresh cfg s x b = true) : Delivers (s.syn cfg x b) := by
  have hretain := h.retain hphase
  have hnew : b ∉ s.opened := by
    unfold fresh at hfresh
    simp only [and_eq_true, not_eq_true', contains_eq_mem, decide_eq_false_iff_not] at hfresh
    exact hfresh.1.2
  have hbooks : Books cfg { s with
      streams := s.streams.retain fun _ e => e.inbound && (s.reader e.budget).opened } := by
    refine Goes.books (s := s) ?_
    exact hb.same ⟨rfl, rfl, rfl, rfl⟩ (fun e he => hb.own e (s.streams.mem_of_retain he)) hb.charges
  unfold State.syn
  dsimp only
  split
  · exact hretain.endSession hphase _
  rename_i hcontains
  split
  · exact hretain.endSession hphase _
  refine hretain.open hbooks hphase ?_ hnew
  simpa [Map.contains] using hcontains

theorem Delivers.psh (hb : Books cfg s) (hphase : s.phase = .idle) (x payload) : Delivers
    (s.psh x payload) := by
  unfold State.psh
  split
  · exact h
  have hstaged (reader : Nat → Reader) : Staged s.streams reader (.delivering x payload) s.data :=
    staged_of_queued (h.idle_queued hphase) rfl
  have hidle (c : Nat) : inflight s.streams s.phase c = [] := by rw [hphase]; rfl
  rcases he : s.streams.get x with _ | e
  · refine h.mono (.refl _) (fun _ hc => hc) rfl rfl h.tabled (hstaged _) (fun c _ _ => ?_)
      h.ends.looked
    have hnone : nameOf s.streams x ≠ some c := by
      rw [nameOf, he]
      simp
    rw [hidle, inflight, if_neg hnone]
  have hname := nameOf_some he
  have hat (c : Nat) : At s.levels s.streams (.delivering x payload) s.data c (s.reader c)
      (update s.sent e.budget (s.sent e.budget ++ payload) c) := by
    have hold := h.at c
    by_cases hce : c = e.budget
    · subst hce
      rw [update_self]
      refine ⟨fun hl hr ho => ?_, fun hl hr => (hold.part hl hr).trans (prefix_append ..),
        hold.looked, fun hr => ?_⟩
      · rw [hold.whole hl hr ho, hidle, append_nil, inflight, if_pos hname]
      have hterminal := (hold.result hr).1
      rw [h.tabled.untold x e he] at hterminal
      cases hterminal
    rw [update_of_ne hce]
    refine hold.mono (.refl _) (fun hl => hl) (fun _ _ => ?_) hold.looked
    rw [hidle, inflight, if_neg fun heq => hce ?_]
    rw [hname] at heq
    exact (Option.some.inj heq).symm
  refine ⟨h.tabled, hstaged _, flows_of_at hat, ends_of_at hat, fun c hc => ?_⟩
  dsimp only
  rw [update_of_ne fun heq => ?_]
  · exact h.unsent c hc
  · exact hc (heq ▸ (hb.own (x, e) (s.streams.mem_of_get he)).opened)

end

/-- The reader of a stream that ends is not between its two looks with something queued. -/
def looksTwice (s : SmuxReceive.State) : SmuxReceive.Action → Bool
  | .fin x =>
    (s.streams.get x).all fun e => !(s.reader e.budget).looked || !hasQueued s.data e.budget
  | _ => true

theorem Delivers.fin (h : Delivers s) (hphase : s.phase = .idle)
    (hlooks : looksTwice s (.fin x) = true) : Delivers (s.fin x) := by
  unfold State.fin
  rcases he : s.streams.get x with _ | e
  · exact h
  have huntold := h.tabled.untold x e he
  have htells := tells_told huntold .finished
  refine h.mono htells (fun _ hb => hb) rfl rfl (h.tabled.tell he .finished) ?_
    (fun b _ _ => by rw [hphase]; rfl) fun b hb hfin => ?_
  · rw [hphase]
    exact staged_of_queued (h.idle_queued hphase) rfl
  by_cases hbe : b = e.budget
  · subst hbe
    rw [looksTwice, he] at hlooks
    show hasQueued s.data e.budget = false
    simpa [hb] using hlooks
  have hfin : (told s.reader e.budget .finished b).terminal = _ := hfin
  rw [told_ne _ hbe] at hfin
  exact h.ends.looked b hb hfin

/-! ## Notices -/

variable {payload : List UInt8}

theorem Delivers.expel_parked (h : Delivers s) {c blocked scope}
    (hphase : s.phase = .parked x c payload blocked scope)
    (hx : Expels s.streams s.reader s'.streams s'.reader) (hsame : SameData s s')
    (hsent : s'.sent = s.sent) : Delivers { s' with phase := .delivering x payload } := by
  have hname := h.staged.refused x c payload blocked scope (.inr hphase)
  refine h.expelled hx hsame hsent
    (staged_of_queued (h.staged.all_queued (by rw [hphase]; rfl)) rfl) fun b hb => ?_
  rw [hphase, inflight, inflight]
  by_cases hcb : c = b
  · subst hcb
    rw [if_pos rfl, if_pos ((hx.gone x c hname).resolve_right hb)]
  rw [if_neg hcb, if_neg fun hb' => hcb ?_]
  have hboth := (hx.names x b hb').symm.trans hname
  exact (Option.some.inj hboth).symm

theorem Delivers.expel_full (h : Delivers s) (hphase : s.phase = .full x)
    (hx : Expels s.streams s.reader s'.streams s'.reader) (hsame : SameData s s')
    (hsent : s'.sent = s.sent) (hphase' : phase = .charged x ∨ phase = .full x) :
    Delivers { s' with phase := phase } := by
  refine h.expelled hx hsame hsent (h.staged.charging (.inr hphase) hphase' fun c hc =>
    hc.elim (hx.gone x c) fun hfailed => .inr (hx.tells.failed hfailed)) fun b _ => ?_
  rw [hphase]
  rcases hphase' with rfl | rfl <;> rfl

theorem hear_sent (h : s.hear cfg = some s') : s'.sent = s.sent := by
  unfold State.hear at h
  split at h
  · cases h
  split at h <;> cases h
  exact evictStream_sent ..

theorem Delivers.onNotice (h : Delivers s) (hn : onNotice cfg s = some s') : Delivers s' := by
  unfold SmuxReceive.onNotice at hn
  split at hn
  next hphase =>
    obtain ⟨hsame, hphase', -⟩ := hear_same hn
    exact h.expel hphase (hear_expels h.tabled hn) hsame (hear_sent hn)
      (.inl (hphase'.trans hphase))
  next hphase =>
    obtain ⟨s₁, hs₁, rfl⟩ := Option.map_eq_some_iff.mp hn
    obtain ⟨hsame, -, -⟩ := hear_same hs₁
    exact h.expel_parked hphase (hear_expels h.tabled hs₁) hsame (hear_sent hs₁)
  next hphase =>
    obtain ⟨_, hs₁, rfl⟩ := Option.map_eq_some_iff.mp hn
    obtain ⟨hsame, -, -⟩ := hear_same hs₁
    exact h.expel_full hphase (hear_expels h.tabled hs₁) hsame (hear_sent hs₁) (.inl rfl)
  · cases hn

/-! ## Payloads -/

theorem Delivers.rephase (h : Delivers s) {l} (hl : Lasting s.levels l)
    (hstaged : Staged s.streams s.reader phase s.data)
    (hinflight : ∀ b, Healthy l s.reader b → (s.reader b).opened = true →
      inflight s.streams phase b = inflight s.streams s.phase b) :
    Delivers { s with levels := l, phase := phase } :=
  h.mono (.refl _) hl rfl rfl h.tabled hstaged
    (fun b hb hopened => by rw [hinflight b hb hopened]) h.ends.looked

theorem Delivers.restream (h : Delivers s) (hnames : nameOf m = nameOf s.streams)
    (hm : Tabled m s.reader) : Delivers { s with streams := m } := by
  refine h.mono (.refl _) (fun _ hb => hb) rfl rfl hm ⟨?_, ?_⟩
    (fun b _ _ => by simp only [inflight, hnames]) h.ends.looked
  · rw [hnames]
    exact h.staged.queued
  rw [hnames]
  exact h.staged.refused

theorem closeInbound_eq (s : State) (x) :
    s.closeInbound x = { s with streams := (s.closeInbound x).streams } := by
  unfold State.closeInbound
  split <;> rfl

theorem Delivers.closeInbound (h : Delivers s)
    (hgone : ∀ c, nameOf s.streams x = some c → (s.reader c).opened = false) :
    Delivers (s.closeInbound x) ∧ nameOf (s.closeInbound x).streams = nameOf s.streams := by
  unfold State.closeInbound
  split
  · exact ⟨h, rfl⟩
  rename_i e he
  have hnames := nameOf_close he
  exact ⟨h.restream hnames (h.tabled.close he (hgone _ (nameOf_some he))), hnames⟩

theorem Delivers.lookup (h : Delivers s) {e? : Option StreamState} {s₁} (hx : s.lookup x = (e?, s₁))
    : (e? = none ∧ Delivers s₁ ∧ s₁ = { s with streams := s₁.streams } ∧
      nameOf s₁.streams = nameOf s.streams ∧
      ∀ c, nameOf s.streams x = some c → (s.reader c).opened = false) ∨
    ∃ e, e? = some e ∧ s₁ = s ∧ s.streams.get x = some e ∧ (s.reader e.budget).opened = true := by
  unfold State.lookup at hx
  split at hx
  next hnone =>
    cases hx
    refine .inl ⟨rfl, h, rfl, rfl, fun c hc => ?_⟩
    rw [nameOf, hnone] at hc
    cases hc
  rename_i e he
  have hname (hgone : (s.reader e.budget).opened = false) (c : Nat)
      (hc : nameOf s.streams x = some c) : (s.reader c).opened = false := by
    rw [nameOf_some he] at hc
    cases hc
    exact hgone
  split at hx
  next hinbound =>
    cases hx
    exact .inl ⟨rfl, h, rfl, rfl, hname (h.tabled.closed x e he (by simpa using hinbound))⟩
  split_ifs at hx with hopened
  · cases hx
    exact .inr ⟨e, rfl, rfl, he, hopened⟩
  cases hx
  have hgone := hname (by simpa using hopened)
  obtain ⟨hclosed, hnames⟩ := h.closeInbound hgone
  exact .inl ⟨rfl, hclosed, closeInbound_eq s x, hnames, hgone⟩

theorem inflight_delivering {c} (h : nameOf m x = some c) (payload b) :
    inflight m (.delivering x payload) b = if c = b then payload else [] := by
  rw [inflight, h]
  exact if_congr (by rw [Option.some_inj]) rfl rfl

theorem Delivers.keepCharged (h : Delivers s) {c l permit} (hl : Lasting s.levels l)
    (hname : nameOf s.streams x = some c) (hpermit : permit.budget = c)
    (hall : ∀ d ∈ s.data, d.queued = true)
    (hinflight : ∀ b, inflight s.streams s.phase b = if c = b then payload else []) :
    Delivers (s.keepCharged l permit x payload) := by
  refine h.mono (.refl _) hl rfl rfl h.tabled
    ⟨.inr ⟨s.data, ⟨permit, payload, false⟩, x, rfl, hall, rfl, .inl rfl, .inl ?_⟩,
      fun _ _ _ _ _ hp => by rcases hp with hp | hp <;> cases hp⟩ (fun b _ _ => ?_)
    fun b hb hfin => ?_
  · rw [hpermit]
    exact hname
  · show bytesOf (s.data ++ [⟨permit, payload, false⟩]) b ++ [] = _
    rw [hinflight, bytesOf_append, append_nil]
    congr 1
    by_cases hcb : c = b
    · rw [if_pos hcb, bytesOf_cons_self (hpermit.trans hcb)]
      exact append_nil _
    rw [if_neg hcb, bytesOf_cons_ne (fun heq => hcb (hpermit.symm.trans heq))]
    rfl
  have hnone := h.ends.looked b hb hfin
  show (s.data ++ [(⟨permit, payload, false⟩ : Data)]).any _ = false
  unfold hasQueued at hnone
  rw [any_append, hnone]
  rfl

theorem tryTrack_cases (T l i length) :
    (∃ permit l', tryTrack T l i length = (.ok permit, l') ∧ permit.budget = i) ∨
      ∃ refused l', tryTrack T l i length = (.error refused, l') ∧
        refused.streamEvicted = l'.isEvicted i := by
  unfold tryTrack
  split
  · exact .inl ⟨_, _, rfl, rfl⟩
  · exact .inr ⟨_, _, rfl, rfl⟩

theorem Delivers.giveUp (h : Delivers s) {c l} (hl : Lasting s.levels l)
    (hall : ∀ d ∈ s.data, d.queued = true)
    (hinflight : ∀ b, inflight s.streams s.phase b = if c = b then payload else [])
    (hevicted : l.isEvicted c = true) : Delivers { s with levels := l, phase := .idle } := by
  refine h.rephase hl (staged_of_queued hall rfl) fun b hb _ => ?_
  rw [hinflight, if_neg fun heq => ?_]
  · rfl
  rw [← heq, Healthy, hevicted] at hb
  cases hb.1

theorem Delivers.deliver (h : Delivers s) (hphase : s.phase = .delivering x payload)
    (hl : Lasting s.levels (s.deliver cfg x payload).levels) :
    Delivers (s.deliver cfg x payload) := by
  have hall := h.staged.all_queued (by rw [hphase]; rfl)
  unfold State.deliver at hl ⊢
  split
  next s₁ hlookup =>
    rcases h.lookup hlookup with ⟨-, h₁, hs₁, hnames, hgone⟩ | ⟨e, he, -⟩
    swap
    · cases he
    rw [hs₁] at h₁ ⊢
    refine h₁.rephase (fun _ hb => hb)
      (staged_of_queued hall rfl)
      fun b _ hopened => ?_
    show [] = inflight s₁.streams s.phase b
    rw [hphase, inflight, if_neg fun hb => ?_]
    rw [hnames] at hb
    rw [hgone b hb] at hopened
    cases hopened
  rename_i e s₁ hlookup
  rcases h.lookup hlookup with ⟨he, -⟩ | ⟨_, he', hs₁, hget, _⟩
  · cases he
  cases he'
  subst hs₁
  have hname := nameOf_some hget
  have hinflight (b : Nat) : inflight s₁.streams s₁.phase b =
      if e.budget = b then payload else [] := by
    rw [hphase, inflight_delivering hname]
  rw [hlookup] at hl
  dsimp only at hl
  rcases tryTrack_cases cfg.tree s₁.levels e.budget payload.length with
    ⟨permit, l, hok, hpermit⟩ | ⟨refused, l, hrefused, hevicted⟩
  · rw [hok] at hl ⊢
    exact h.keepCharged hl hname hpermit hall hinflight
  rw [hrefused] at hl ⊢
  dsimp only at hl ⊢
  split_ifs at hl ⊢ with hstream
  · exact h.giveUp hl hall hinflight (hevicted.symm.trans hstream)
  refine h.rephase hl ⟨.inl hall, fun y c p blocked scope hp => ?_⟩ fun b _ _ => ?_
  · rcases hp with hp | hp
    · cases hp
      exact hname
    · cases hp
  rw [hinflight]
  rfl

theorem Delivers.deliverAgain (h : Delivers s) {c blocked scope}
    (hphase : s.phase = .refused x c payload blocked scope)
    (hl : Lasting s.levels (s.deliverAgain cfg x c payload blocked scope).levels) :
    Delivers (s.deliverAgain cfg x c payload blocked scope) := by
  have hall := h.staged.all_queued (by rw [hphase]; rfl)
  have hname := h.staged.refused x c payload blocked scope (.inl hphase)
  have hinflight (b : Nat) : inflight s.streams s.phase b = if c = b then payload else [] := by
    rw [hphase, inflight]
  unfold State.deliverAgain at hl ⊢
  rcases tryTrack_cases cfg.tree s.levels c payload.length with
    ⟨permit, l, hok, hpermit⟩ | ⟨again, l, hrefused, hevicted⟩
  · rw [hok] at hl ⊢
    exact h.keepCharged hl hname hpermit hall hinflight
  rw [hrefused] at hl ⊢
  dsimp only at hl ⊢
  split
  next hstream =>
    rw [if_pos hstream] at hl
    exact h.giveUp hl hall hinflight (hevicted.symm.trans hstream)
  rename_i hstream
  split_ifs at hl ⊢ with hother
  · refine h.rephase hl (staged_of_queued hall rfl) fun b _ _ => ?_
    rw [hinflight, inflight_delivering hname]
  refine h.rephase hl ⟨.inl hall, fun y d p blocked scope hp => ?_⟩ fun b _ _ => ?_
  · rcases hp with hp | hp
    · cases hp
    · cases hp
      exact hname
  rw [hinflight]
  rfl

/-! ## Payloads that are charged -/

theorem Delivers.queueCharged (h : Delivers s)
    (hphase : ∃ x, s.phase = .charged x ∨ s.phase = .full x) : Delivers s.queueCharged := by
  have hinflight (b : Nat) : inflight s.streams s.phase b = [] := by
    obtain ⟨x, hx | hx⟩ := hphase <;> rw [hx] <;> rfl
  refine h.mono (.refl _) (fun _ hb => hb) rfl rfl h.tabled (staged_of_queued (fun d hd => ?_) rfl)
    (fun b _ _ => ?_) fun b hb hfin => ?_
  · obtain ⟨d₀, -, rfl⟩ := mem_map.mp hd
    rfl
  · rw [hinflight]
    exact congrArg (· ++ []) (bytesOf_queue s.data b)
  obtain ⟨hnone, -⟩ := drained h.tabled h.staged hfin (h.ends.looked b hb hfin)
  refine any_eq_false.mpr fun d hd => ?_
  obtain ⟨d₀, hd₀, rfl⟩ := mem_map.mp hd
  simpa using hnone d₀ hd₀

variable {data : List Data}

theorem Delivers.dropCharged (h : Delivers s)
    (hphase : ∃ x, s.phase = .charged x ∨ s.phase = .full x) {l} (hl : Lasting s.levels l)
    (hdata : data = s.data.filter fun d => d.queued)
    (hgone : ∀ d ∈ s.data, d.queued = false → Healthy s.levels s.reader d.permit.budget →
      (s.reader d.permit.budget).opened = false) :
    Delivers { s with levels := l, data := data, phase := .idle } := by
  have hinflight (b : Nat) : inflight s.streams s.phase b = [] := by
    obtain ⟨x, hx | hx⟩ := hphase <;> rw [hx] <;> rfl
  subst hdata
  refine h.mono (.refl _) hl rfl rfl h.tabled
    (staged_of_queued (fun d hd => (mem_filter.mp hd).2) rfl) (fun b hb hopened => ?_)
    fun b hb hfin => hasQueued_filter (h.ends.looked b hb hfin)
  rw [hinflight]
  refine congrArg (· ++ []) (bytesOf_filter fun d hd heq => ?_)
  rw [← not_eq_false]
  intro hqueued
  have hclosed := hgone d hd hqueued (heq ▸ ⟨hl b hb.1, hb.2⟩)
  rw [heq, hopened] at hclosed
  cases hclosed

theorem dropCharged_data (s : State) :
    (s.dropCharged cfg).data = s.data.filter fun d => d.queued := by
  show (dropData cfg.tree (fun d => !d.queued) s.levels s.data).2 = _
  rw [dropData_data]
  exact filter_congr fun d _ => not_not _

theorem Staged.unread (h : Staged m reader phase data)
    (hphase : phase = .charged x ∨ phase = .full x)
    (hgone : ∀ c, nameOf m x = some c → (reader c).opened = false ∨ Failed (reader c)) :
    ∀ d ∈ data, d.queued = false → ∀ l, Healthy l reader d.permit.budget →
      (reader d.permit.budget).opened = false := by
  intro d hd hqueued l hhealthy
  rcases h.queued with hall | ⟨_, u, y, hdata, hqs, _, hy, hname⟩
  · rw [hall d hd] at hqueued
    cases hqueued
  have hdu : d = u := by
    rw [hdata] at hd
    rcases mem_append.mp hd with hd | hd
    · rw [hqs d hd] at hqueued
      cases hqueued
    · exact mem_singleton.mp hd
  have hyx : y = x := by
    rcases hphase with rfl | rfl <;> rcases hy with hy | hy <;> cases hy <;> rfl
  subst hdu hyx
  rcases hname with hname | hfailed
  · exact (hgone _ hname).resolve_right hhealthy.2
  · exact absurd hfailed hhealthy.2

theorem Delivers.dropUnread {s₁} (h : Delivers s₁)
    (hs₁ : s₁ = { s with streams := s₁.streams }) (hnames : nameOf s₁.streams = nameOf s.streams)
    (hphase : s.phase = .charged x ∨ s.phase = .full x)
    (hl : Lasting s.levels (s₁.dropCharged cfg).levels)
    (hgone : ∀ c, nameOf s.streams x = some c → (s.reader c).opened = false) :
    Delivers (s₁.dropCharged cfg) := by
  have hphase₁ : s₁.phase = s.phase := by rw [hs₁]
  have hreader : s₁.reader = s.reader := by rw [hs₁]
  have hlevels : s₁.levels = s.levels := by rw [hs₁]
  rw [← hphase₁] at hphase
  rw [← hlevels] at hl
  refine h.dropCharged ⟨x, hphase⟩ hl (dropCharged_data s₁) fun d hd hqueued hb => ?_
  refine h.staged.unread hphase (fun c hc => .inl ?_) d hd hqueued _ hb
  rw [hnames] at hc
  rw [hreader]
  exact hgone c hc

section
variable (h : Delivers s)
include h

theorem Delivers.reserve {room} (hphase : s.phase = .charged x)
    (hl : Lasting s.levels (s.reserve cfg x room).levels) : Delivers (s.reserve cfg x room) := by
  unfold State.reserve at hl ⊢
  split
  next s₁ hlookup =>
    rcases h.lookup hlookup with ⟨-, h₁, hs₁, hnames, hgone⟩ | ⟨e, he, -⟩
    · rw [hlookup] at hl
      exact h₁.dropUnread hs₁ hnames (.inl hphase) hl hgone
    · cases he
  rename_i e s₁ hlookup
  rcases h.lookup hlookup with ⟨he, -⟩ | ⟨_, _, hs₁, _, _⟩
  · cases he
  subst hs₁
  split
  · exact h.queueCharged ⟨x, .inl hphase⟩
  refine h.rephase (fun _ hb => hb)
    (h.staged.charging (.inl hphase) (.inr rfl) fun _ hc => hc) fun b _ _ => ?_
  rw [hphase]
  rfl

theorem Delivers.tryAgain {c blocked scope l} (hphase : s.phase = .parked x c payload blocked scope)
    (hl : Lasting s.levels l) : Delivers { s with levels := l, phase := .delivering x payload } := by
  refine h.rephase hl (staged_of_queued (h.staged.all_queued (by rw [hphase]; rfl)) rfl)
    fun b _ _ => ?_
  rw [inflight_delivering (h.staged.refused x c payload blocked scope (.inr hphase)), hphase,
    inflight]

theorem Delivers.onWake (hw : onWake cfg s = some s')
    (hl : Lasting s.levels s'.levels) : Delivers s' := by
  unfold SmuxReceive.onWake at hw
  split at hw
  next x c payload blocked scope hphase =>
    cases hw
    exact h.tryAgain hphase hl
  next x hphase =>
    obtain ⟨htakes, ⟨⟩⟩ := Option.ite_none_left_eq_some.mp hw
    have hgone (c : Nat) (hc : nameOf s.streams x = some c) : (s.reader c).opened = false := by
      obtain ⟨e, he, rfl⟩ := get_of_nameOf hc
      simpa [takes, he] using htakes
    obtain ⟨h₁, hnames⟩ := h.closeInbound hgone
    exact h₁.dropUnread (closeInbound_eq s x) hnames (.inr hphase) hl hgone
  · cases hw

theorem Delivers.onGrace (hg : onGrace cfg s = some s')
    (hl : Lasting s.levels s'.levels) : Delivers s' := by
  unfold SmuxReceive.onGrace at hg
  split at hg <;> cases hg
  next x c payload blocked scope hphase =>
    exact h.tryAgain hphase hl
  rename_i x hphase
  have hsame := @evictStream_same cfg s x .frameQueue
  have hx := @evictStream_expels cfg s h.tabled x .frameQueue
  have hphase₁ : (s.evictStream cfg x .frameQueue).phase = .full x := by
    rw [evictStream_phase]
    exact hphase
  have h₁ : Delivers (s.evictStream cfg x .frameQueue) := by
    have h₁ := h.expel_full hphase hx hsame (evictStream_sent s x .frameQueue) (.inr rfl)
    rw [← hphase₁] at h₁
    exact h₁
  refine h₁.dropCharged ⟨x, .inr hphase₁⟩ (fun b hb => by rw [hsame.levels]; exact hl b hb)
    (dropCharged_data _) fun d hd hqueued hb => ?_
  refine h₁.staged.unread (.inr hphase₁) (fun c hc => ?_) d hd hqueued _ hb
  rw [evictStream_name] at hc
  cases hc

end

/-! ## Steps of the readers -/

section
variable {T : Tree} {count : Nat} {l l' : Levels} {ds ds' pre post : List Data}
  {got : List UInt8} {d : Data}

theorem queued_before {qs u} (hds : pre ++ d :: post = qs ++ [u])
    (hqs : ∀ d' ∈ qs, d'.queued = true) : ∀ d' ∈ pre, d'.queued = true := by
  intro d' hd'
  have hlast : pre ++ (d :: post).dropLast = qs := by
    rw [← dropLast_append_of_ne_nil (cons_ne_nil _ _), hds, dropLast_concat]
  exact hqs d' (hlast ▸ mem_append_left _ hd')

variable {m : Map UInt32 StreamState}

variable {reader : Nat → Reader}

section
variable (h : Read T b count l ds got l' ds' pre d post)
include h

theorem read_before {phase}
    (hs : Staged m reader phase ds) : ∀ d' ∈ pre, d'.permit.budget ≠ b := by
  intro d' hd' heq
  have hqueued : d'.queued = true := by
    rcases hs.queued with hall | ⟨_, u, x, hdata, hqs, -⟩
    · exact hall d' (h.split ▸ mem_append_left _ hd')
    · exact queued_before (h.split.symm.trans hdata) hqs d' hd'
  have hfirst := h.first d' hd'
  simp [Data.isQueuedFor, hqueued, heq] at hfirst

/-- **A read takes the first bytes that are held for the stream.** -/
theorem read_bytes {phase}
    (hs : Staged m reader phase ds) : bytesOf ds b = got ++ bytesOf ds' b := by
  have hpre : bytesOf pre b = [] := bytesOf_eq_nil (read_before h hs)
  have hbudget := h.budget
  rw [h.split, bytesOf_append, hpre, nil_append, bytesOf_cons_self hbudget, h.bytes]
  rcases h.rest with ⟨hnil, rfl, -⟩ | ⟨-, rfl, -⟩
  · have hdrop : d.bytes.drop (min count d.bytes.length) = [] := hnil
    rw [bytesOf_append, hpre, nil_append]
    congr 1
    conv_lhs => rw [← take_append_drop (min count d.bytes.length) d.bytes, hdrop]
    exact append_nil _
  rw [bytesOf_append, hpre, nil_append, bytesOf_cons_self (by exact hbudget), ← append_assoc]
  congr 1
  exact (take_append_drop _ _).symm

theorem read_bytes_ne {c} (hc : c ≠ b) :
    bytesOf ds' c = bytesOf ds c := by
  have hbudget : d.permit.budget ≠ c := fun heq => hc (heq.symm.trans h.budget)
  rw [h.split, bytesOf_append, bytesOf_cons_ne hbudget]
  rcases h.rest with ⟨-, rfl, -⟩ | ⟨-, rfl, -⟩
  · rw [bytesOf_append]
  · rw [bytesOf_append, bytesOf_cons_ne (by exact hbudget)]

end

theorem Staged.read {phase} (hs : Staged m reader phase ds)
    (h : Read T b count l ds got l' ds' pre d post) : Staged m reader phase ds' := by
  refine ⟨?_, hs.refused⟩
  have hqueued := h.isQueued
  have hds := h.split
  rcases hs.queued with hall | ⟨qs, u, x, hdata, hqs, hu, hphase, hname⟩
  · subst hds
    simp only [forall_mem_append, forall_mem_cons] at hall
    obtain ⟨hpre, -, hpost⟩ := hall
    refine .inl ?_
    rcases h.rest with ⟨-, rfl, -⟩ | ⟨-, rfl, -⟩
    · exact forall_mem_append.mpr ⟨hpre, hpost⟩
    · exact forall_mem_append.mpr ⟨hpre, forall_mem_cons.mpr ⟨hqueued, hpost⟩⟩
  -- What is not queued is the last, and so it is in `post`.
  have hsplit := hds.symm.trans hdata
  rcases eq_nil_or_concat post with rfl | ⟨post', u', rfl⟩
  · have hdu : d = u := by
      have hlast := congrArg List.getLast? hsplit
      simpa using hlast
    rw [hdu, hu] at hqueued
    cases hqueued
  have hboth : pre ++ d :: post' = qs ∧ u' = u := by
    rw [concat_eq_append, ← cons_append, ← append_assoc] at hsplit
    obtain ⟨hqs', hu'⟩ := append_inj' hsplit rfl
    exact ⟨hqs', singleton_inj.mp hu'⟩
  obtain ⟨rfl, rfl⟩ := hboth
  simp only [forall_mem_append, forall_mem_cons] at hqs
  obtain ⟨hpre, -, hpost⟩ := hqs
  rcases h.rest with ⟨-, rfl, -⟩ | ⟨-, rfl, -⟩
  · exact .inr ⟨pre ++ post', u', x, by simp, forall_mem_append.mpr ⟨hpre, hpost⟩, hu, hphase, hname⟩
  exact .inr ⟨pre ++ d.release (min count d.bytes.length) :: post', u', x, by simp,
    forall_mem_append.mpr ⟨hpre, forall_mem_cons.mpr ⟨hqueued, hpost⟩⟩, hu, hphase, hname⟩

end

theorem Delivers.updateReader (h : Delivers s) {l r} (hl : Lasting s.levels l)
    (hopened : r.opened = true → (s.reader b).opened = true)
    (hterminal : r.terminal = (s.reader b).terminal)
    (hstaged : Staged s.streams s.reader s.phase data)
    (hbytes : ∀ c ≠ b, bytesOf data c = bytesOf s.data c)
    (hqueued : ∀ c ≠ b, hasQueued s.data c = false → hasQueued data c = false)
    (hown : At l s.streams s.phase data b r (s.sent b)) :
    Delivers { s with levels := l, data := data, reader := update s.reader b r } := by
  have hf : Follows s.reader (update s.reader b r) := follows_update hopened hterminal
  have hat (c : Nat) :
      At l s.streams s.phase data c (update s.reader b r c) (s.sent c) := by
    by_cases hcb : c = b
    · subst hcb
      rw [update_self]
      exact hown
    rw [update_of_ne hcb]
    exact (h.at c).mono (.refl _) (hl c) (fun _ _ => by rw [hbytes c hcb])
      fun hr he => hqueued c hcb ((h.at c).looked hr he)
  exact ⟨h.tabled.follow hf, hstaged.follow hf, flows_of_at hat, ends_of_at hat, h.unsent⟩

theorem isReading_iff {r} : isReading r = true ↔ r.opened = true ∧ r.readFinished = false := by
  simp [isReading]

theorem Delivers.pollData (h : Delivers s) {count} (hreading : isReading (s.reader b) = true)
    (hp : pollData cfg s b count = some s') (hl : Lasting s.levels s'.levels) : Delivers s' := by
  unfold SmuxReceive.pollData at hp
  split at hp <;> cases hp
  rename_i read l ds hread
  obtain ⟨_, d, _, hread⟩ := readData_read hread
  obtain ⟨hopened, hunfinished⟩ := isReading_iff.mp hreading
  have hold := h.at b
  refine h.updateReader hl (fun ho => ho) rfl (h.staged.read hread)
    (fun c hc => read_bytes_ne hread hc) (fun c hc hnone => ?_)
    ⟨fun hb hr ho => ?_, fun hb hr => ?_, nofun, fun hr => ?_⟩
  · refine any_eq_false.mpr fun d' hd' => ?_
    rcases hread.mem.2 d' hd' with hd' | ⟨rfl, -⟩
    · exact any_eq_false.mp hnone d' hd'
    have hbudget : (d.release (min count d.bytes.length)).permit.budget = b :=
      hread.budget
    simp [hbudget, Ne.symm hc]
  · rw [hold.whole (hl b hb) hr ho, read_bytes hread h.staged]
    simp only [append_assoc]
  · rw [hold.whole (hl b hb) hr hopened, read_bytes hread h.staged]
    refine ⟨bytesOf ds b ++ inflight s.streams s.phase b, ?_⟩
    simp only [append_assoc]
  rw [(hold.result hr).2.1] at hunfinished
  cases hunfinished

theorem Delivers.setReader (h : Delivers s) {f}
    (hopened : (f (s.reader b)).opened = (s.reader b).opened)
    (hterminal : (f (s.reader b)).terminal = (s.reader b).terminal)
    (hdelivered : (f (s.reader b)).delivered = (s.reader b).delivered)
    (hlooked : (f (s.reader b)).looked = true → (s.reader b).terminal = some .finished →
      hasQueued s.data b = false)
    (hresult : (f (s.reader b)).result = some (.ok ()) → (s.reader b).terminal = some .finished ∧
      (f (s.reader b)).readFinished = true ∧
      (Healthy s.levels s.reader b → (s.reader b).delivered = s.sent b)) :
    Delivers (s.setReader b f) := by
  have hold := h.at b
  have hfailed : Failed (f (s.reader b)) ↔ Failed (s.reader b) := by
    unfold Failed
    rw [hterminal]
  refine h.updateReader (fun _ hc => hc) (fun ho => hopened ▸ ho) hterminal h.staged
    (fun _ _ => rfl) (fun _ _ hq => hq) ⟨fun hl hr ho => ?_, fun hl hr => ?_, fun hlook he => ?_,
      fun hr => ?_⟩
  · rw [hdelivered]
    exact hold.whole hl (fun hx => hr (hfailed.mpr hx)) (hopened ▸ ho)
  · rw [hdelivered]
    exact hold.part hl fun hx => hr (hfailed.mpr hx)
  · exact hlooked hlook (hterminal ▸ he)
  obtain ⟨hterm, hfin, hall⟩ := hresult hr
  refine ⟨hterminal.trans hterm, hfin, fun hl hr => ?_⟩
  rw [hdelivered]
  exact hall ⟨hl, fun hx => hr (hfailed.mpr hx)⟩

/-- **A reader that finds the end of a stream with nothing queued has read all of it.** -/
theorem Delivers.read_all (h : Delivers s) (hopened : (s.reader b).opened = true)
    (hterminal : (s.reader b).terminal = some .finished) (hqueued : hasQueued s.data b = false)
    (hb : Healthy s.levels s.reader b) : (s.reader b).delivered = s.sent b := by
  obtain ⟨hnone, hinflight⟩ := drained h.tabled h.staged hterminal hqueued
  rw [h.flows.whole b hb hopened, bytesOf_eq_nil hnone, hinflight, append_nil, append_nil]

theorem finishRead_result {r t} (h : (finishRead r t).result = some (.ok ())) : t = .finished := by
  cases t with
  | finished => rfl
  | failed => cases h

section
variable (h : Delivers s)
include h

theorem Delivers.finishRead (hopened : (s.reader b).opened = true) {t}
    (ht : (s.reader b).terminal = some t) (hqueued : t = .finished → hasQueued s.data b = false) {f}
    (hf : f (s.reader b) = finishRead (s.reader b) t) : Delivers (s.setReader b f) := by
  refine h.setReader ?_ ?_ ?_ (fun hl => ?_) fun hr => ?_
  · rw [hf]
    rfl
  · rw [hf]
    rfl
  · rw [hf]
    rfl
  · rw [hf] at hl
    cases hl
  rw [hf] at hr ⊢
  have hfinished := finishRead_result hr
  have hterminal : (s.reader b).terminal = some .finished := by rw [ht, hfinished]
  exact ⟨hterminal, rfl, fun hb => h.read_all hopened hterminal (hqueued hfinished) hb⟩

theorem Delivers.look (hqueued : hasQueued s.data b = false) :
    Delivers (s.setReader b fun r => { r with looked := true }) :=
  h.setReader rfl rfl rfl (fun _ _ => hqueued) fun hr => h.ends.result b hr

theorem Delivers.pollTerminal (hreading : isReading (s.reader b) = true)
    (hlooked : (s.reader b).looked = true) : Delivers (pollTerminal s b) := by
  have hopened := (isReading_iff.mp hreading).1
  rcases ht : (s.reader b).terminal with _ | _
  · refine h.setReader ?_ ?_ ?_ (fun hl => ?_) fun hr => ?_
    · rw [ht]
    · rw [ht]
    · rw [ht]
    · rw [ht] at hl
      cases hl
    rw [ht] at hr
    have hterminal := (h.ends.result b hr).1
    cases ht.symm.trans hterminal
  refine h.finishRead hopened ht (fun hfin => ?_) (by rw [ht])
  exact h.ends.looked b hlooked (by rw [ht, hfin])

theorem Delivers.pollClosed (hreading : isReading (s.reader b) = true)
    (hqueued : hasQueued s.data b = false) (hsender : hasSender s b = false) :
    Delivers (pollClosed s b) := by
  have hopened := (isReading_iff.mp hreading).1
  rcases ht : (s.reader b).terminal with _ | _
  · -- A stream that has not ended is in the table, and can still be sent something.
    obtain ⟨x, hx⟩ := h.tabled.listed b hopened ht
    have hnone := any_eq_false.mp (or_eq_false_iff.mp hsender).1 _
      (s.streams.mem_of_get hx)
    simp at hnone
  refine h.finishRead hopened ht (fun _ => hqueued) ?_
  rw [ht, Option.getD_some]

end

theorem Staged.filter (h : Staged m reader phase data) {p}
    (hp : ∀ d, d.queued = false → p d = true) : Staged m reader phase (data.filter p) := by
  refine ⟨?_, h.refused⟩
  rcases h.queued with hall | ⟨qs, d, x, rfl, hqs, hd, hphase, hname⟩
  · exact .inl fun d hd => hall d (mem_of_mem_filter hd)
  refine .inr ⟨qs.filter p, d, x, ?_, fun d' hd' => hqs d' (mem_of_mem_filter hd'), hd,
    hphase, hname⟩
  rw [filter_append, filter_cons_of_pos (hp d hd)]
  rfl

theorem Delivers.leave (h : Delivers s) {l r} (hl : Lasting s.levels l)
    (hdata : data = s.data.filter fun d => !(d.queued && d.permit.budget == b))
    (hr : r = { s.reader b with opened := false, looked := false }) :
    Delivers { s with levels := l, data := data, reader := update s.reader b r } := by
  have hold := h.at b
  subst hdata hr
  exact h.updateReader hl nofun rfl
    (h.staged.filter fun d hd => by simp [hd])
    (fun c hc => bytesOf_filter fun d _ heq => by simp [heq, hc])
    (fun c _ hnone => hasQueued_filter hnone)
    ⟨nofun, (fun hb => hold.part (hl b hb)), nofun,
      fun hr => by
        obtain ⟨hterm, hfin, hall⟩ := hold.result hr
        exact ⟨hterm, hfin, fun hb => hall (hl b hb)⟩⟩

theorem Delivers.dropReader (h : Delivers s) (hl : Lasting s.levels (dropReader cfg s b).levels) :
    Delivers (dropReader cfg s b) :=
  h.leave hl (dropData_data (fun d => d.queued && d.permit.budget == b) s.data s.levels) rfl

/-! ## Runs -/

theorem lasting_of_touches {a} (h : Touches cfg s a s') (hb : Books cfg s)
    (hT : cfg.tree.Layout) : Lasting s.levels s'.levels := by
  intro c hc
  cases h with
  | calm hcalm => exact (hcalm.quiet.evicted c).symm.trans hc
  | evicts v scope picked victim levels =>
    rw [levels, evict_isEvicted hb hT victim, or_eq_false_iff] at hc
    exact hc.2
  | drops d levels =>
    rw [levels] at hc
    exact hc

theorem Delivers.next {a} (h : Delivers s) (hb : Books cfg s) (hT : cfg.tree.Layout)
    (hlooks : looksTwice s a = true) (hnext : next cfg s a = some s') : Delivers s' := by
  have hl := lasting_of_touches (hb.next hT hnext).2 hb hT
  cases a with
  | syn =>
    obtain ⟨⟨hphase, hfresh⟩, ⟨⟩⟩ := Option.ite_none_right_eq_some.mp hnext
    exact h.syn hb hphase hfresh
  | psh x payload =>
    obtain ⟨hphase, ⟨⟩⟩ := Option.ite_none_right_eq_some.mp hnext
    exact h.psh hb hphase x payload
  | fin =>
    obtain ⟨hphase, ⟨⟩⟩ := Option.ite_none_right_eq_some.mp hnext
    exact h.fin hphase hlooks
  | endSession e =>
    obtain ⟨hphase, ⟨⟩⟩ := Option.ite_none_right_eq_some.mp hnext
    exact h.endSession hphase e
  | notice => exact h.onNotice hnext
  | deliver =>
    have hnext : onDeliver cfg s = some s' := hnext
    unfold onDeliver at hnext
    split at hnext <;> cases hnext
    next hphase =>
      exact h.deliver hphase hl
    next hphase =>
      exact h.deliverAgain hphase hl
  | reserve room =>
    have hnext : onReserve cfg s room = some s' := hnext
    unfold onReserve at hnext
    split at hnext
    next hphase =>
      cases hnext
      exact h.reserve hphase hl
    next x hphase =>
      split at hnext <;> cases hnext
      exact h.queueCharged ⟨x, .inr hphase⟩
    · cases hnext
  | wake => exact h.onWake hnext hl
  | grace => exact h.onGrace hnext hl
  | read =>
    obtain ⟨⟨hreading, -⟩, hpoll⟩ := Option.ite_none_right_eq_some.mp hnext
    exact h.pollData hreading hpoll hl
  | look =>
    obtain ⟨⟨-, hqueued⟩, ⟨⟩⟩ := Option.ite_none_right_eq_some.mp hnext
    exact h.look hqueued
  | lookTerminal =>
    obtain ⟨⟨hreading, hlooked⟩, ⟨⟩⟩ := Option.ite_none_right_eq_some.mp hnext
    exact h.pollTerminal hreading hlooked
  | closed =>
    obtain ⟨⟨hreading, hqueued, hsender⟩, ⟨⟩⟩ := Option.ite_none_right_eq_some.mp hnext
    exact h.pollClosed hreading hqueued hsender
  | dropReader =>
    obtain ⟨-, ⟨⟩⟩ := Option.ite_none_right_eq_some.mp hnext
    exact h.dropReader hl
  | elsewhere =>
    obtain ⟨-, hnext⟩ := Option.ite_none_right_eq_some.mp hnext
    obtain ⟨_, -, rfl⟩ := Option.map_eq_some_iff.mp hnext
    exact h.levels hl
  | dropBudget =>
    obtain ⟨-, ⟨⟩⟩ := Option.ite_none_right_eq_some.mp hnext
    exact @Delivers.levels s h _ s.others hl

theorem Delivers.new : Delivers .new where
  tabled := ⟨nofun, nofun, nofun, nofun⟩
  staged := staged_of_queued nofun rfl
  flows := ⟨nofun, fun _ _ => nil_prefix⟩
  ends := ⟨nofun, nofun⟩
  unsent := fun _ _ => rfl

end

/-- **Per-stream delivery.** In every run in which no FIN is taken for a stream whose reader is
between its look at the queue and its look at the end while something is queued for it, each stream
that was neither evicted nor reset has delivered a prefix of what was sent to it, and all of it once
its reader has seen the end. -/
theorem streams_delivered (cfg : Setup) (hT : cfg.tree.Layout) (actions : List SmuxReceive.Action)
    (s : SmuxReceive.State)
    (hlooks : Lib.Machine.Throughout (next cfg) (fun s a => looksTwice s a = true) .new actions)
    (hrun : run (next cfg) .new actions = some s) (b : Nat) (hb : Healthy s.levels s.reader b) :
    (s.reader b).delivered <+: s.sent b ∧
      ((s.reader b).result = some (.ok ()) → (s.reader b).delivered = s.sent b) := by
  obtain ⟨-, hdelivers⟩ := @run_invariant _ _ _ _ (fun s => Books cfg s ∧ Delivers s)
    (fun s a s' ha hi hnext => ⟨(hi.1.next hT hnext).1, hi.2.next hi.1 hT ha hnext⟩)
    actions _ s hlooks ⟨Books.new cfg, Delivers.new⟩ hrun
  exact ⟨hdelivers.flows.part b hb, fun hr => (hdelivers.ends.result b hr).2.2 hb⟩

theorem streams_delivered_fin : ∃ s, run (next twoStreams) .new
        [.syn 7 2, .look 2, .psh 7 [1, 2, 3], .deliver, .reserve true, .lookTerminal 2, .fin 7,
          .read 2 2, .read 2 2, .look 2, .lookTerminal 2] = some s ∧
      (s.reader 2).result = some (.ok ()) ∧ s.sent 2 = [1, 2, 3] ∧
      (s.reader 2).delivered = s.sent 2 := by
  refine ⟨_, rfl, rfl, rfl, ?_⟩
  refine (streams_delivered twoStreams smallTree_layout [.syn 7 2, .look 2, .psh 7 [1, 2, 3],
    .deliver, .reserve true, .lookTerminal 2, .fin 7, .read 2 2, .read 2 2, .look 2,
    .lookTerminal 2] _ (by decide) rfl 2 ⟨rfl, fun hfailed => ?_⟩).2 rfl
  obtain ⟨e, he⟩ := hfailed
  cases he

/-- **The end comes before the data.** A reader finds its queue empty; then data is queued and the
stream ends, and the reader finds that. It reports the end of the stream and never looks at the
queue again. -/
theorem end_before_data : ∃ s, run (next twoStreams) .new
        [.syn 7 2, .look 2, .psh 7 [1, 2, 3], .deliver, .reserve true, .fin 7,
          .lookTerminal 2] = some s ∧
      s.levels.isEvicted 2 = false ∧ (s.reader 2).terminal = some .finished ∧
      (s.reader 2).result = some (.ok ()) ∧ (s.reader 2).delivered = [] ∧ s.sent 2 = [1, 2, 3] ∧
      (∀ count, (next twoStreams s (.read 2 count)).isNone = true) :=
  ⟨_, rfl, rfl, rfl, rfl, rfl, rfl, fun _ => rfl⟩

end Shoes.Transport.SmuxDelivery
