import Shoes.Transport.SmuxReceive

/-! # What a smux session holds, and what it has charged

Every step of the session, of its readers and of the other sessions of the listener keeps the books:
what was queued for a stream has a permit for as many bytes as have not been read. -/
namespace Shoes.Transport.SmuxBooks
open Lib.Io Lib.Assoc Lib.Tally List Lib.Machine Bool
open ReceiveBudget SmuxReceive
open BudgetBooks hiding State

/-- A stream of the session that can be charged. -/
structure Own (cfg : Setup) (s : SmuxReceive.State) (b : Nat) : Prop where
  size : b < cfg.tree.size
  parent : cfg.tree.parent b = some cfg.session
  stream : cfg.tree.isStream b = true
  kept : s.levels.dropped b = false
  opened : b ∈ s.opened

/-- What is held for a stream of the session. -/
structure Kept (cfg : Setup) (s : SmuxReceive.State) (d : Data) : Prop where
  remaining : d.permit.remaining = d.bytes.length
  parent : cfg.tree.parent d.permit.budget = some cfg.session
  opened : d.permit.budget ∈ s.opened

structure Books (cfg : Setup) (s : SmuxReceive.State) : Prop where
  sound : Sound cfg.tree s.levels s.permits
  data : ∀ d ∈ s.data, Kept cfg s d
  others : ∀ p ∈ s.others, cfg.tree.parent p.budget ≠ some cfg.session
  own : ∀ e ∈ s.streams.entries, Own cfg s e.2.budget
  charges : ∀ b, s.phase.charges b = true → Own cfg s b

/-- The budget that a step evicts, if it does. -/
def evicts (cfg : Setup) (s : SmuxReceive.State) : SmuxReceive.Action → Option Nat
  | .grace =>
    match s.phase with
    | .parked _ b payload blocked _ => some (pick cfg.tree s.levels b blocked payload.length)
    | _ => none
  | .elsewhere (.evictStalled i blocked _ length) => some (pick cfg.tree s.levels i blocked length)
  | _ => none

/-- What is left of the data of evicted streams after a step was there before. -/
def KeepsData (s s' : SmuxReceive.State) : Prop :=
  ∀ d ∈ s'.data, d.bytes ≠ [] → s.levels.isEvicted d.permit.budget = true →
    ∃ d₀ ∈ s.data, d₀.permit.budget = d.permit.budget ∧ d₀.bytes ≠ []

/-- A step that evicts and drops no budget. -/
structure Calm (s s' : SmuxReceive.State) : Prop where
  quiet : Quiet s.levels s'.levels
  opened : ∀ b ∈ s.opened, b ∈ s'.opened
  data : KeepsData s s'

/-- A calm step that keeps the books. -/
structure Goes (cfg : Setup) (s s' : SmuxReceive.State) : Prop where
  books : Books cfg s'
  calm : Calm s s'

/-- A stream that can be made to give way. -/
structure Victim (cfg : Setup) (s : SmuxReceive.State) (v : Nat) : Prop where
  stream : cfg.tree.isStream v = true
  kept : s.levels.dropped v = false
  own : cfg.tree.parent v = some cfg.session → v ∈ s.opened

/-- What a step can do to the budgets. -/
inductive Touches (cfg : Setup) (s : SmuxReceive.State) (a : SmuxReceive.Action)
    (s' : SmuxReceive.State) : Prop
  | calm (h : Calm s s')
  | evicts (v : Nat) (scope : Scope) (picked : evicts cfg s a = some v) (victim : Victim cfg s v)
      (levels : s'.levels = evict cfg.tree s.levels v scope) (data : s'.data = s.data)
  | drops (b : Nat) (levels : s'.levels = dropBudget cfg.tree s.levels b) (data : s'.data = s.data)

section
variable {cfg : Setup} {s s' : State} {a : SmuxReceive.Action} {b : Nat}

theorem KeepsData.of_mem (h : ∀ d ∈ s'.data, d ∈ s.data) : KeepsData s s' := by
  intro d hd hne _
  exact ⟨d, h d hd, rfl, hne⟩

theorem Calm.trans (h : Calm s s') (h' : Calm s' s'') : Calm s s'' := by
  refine ⟨h.quiet.trans h'.quiet, fun b hb => h'.opened b (h.opened b hb), ?_⟩
  intro d hd hne hev
  obtain ⟨d₁, hd₁, hbudget₁, hne₁⟩ := h'.data d hd hne ((h.quiet.evicted _).trans hev)
  rw [← hbudget₁] at hev ⊢
  exact h.data d₁ hd₁ hne₁ hev

theorem Own.mono (h : Own cfg s b) (hdropped : s'.levels.dropped = s.levels.dropped)
    (hopened : ∀ c ∈ s.opened, c ∈ s'.opened) : Own cfg s' b :=
  ⟨h.size, h.parent, h.stream, by rw [hdropped]; exact h.kept, hopened b h.opened⟩

theorem Own.victim (h : Own cfg s b) : Victim cfg s b := ⟨h.stream, h.kept, fun _ => h.opened⟩

theorem Kept.mono (h : Kept cfg s d) (hopened : ∀ c ∈ s.opened, c ∈ s'.opened) :
    Kept cfg s' d := ⟨h.remaining, h.parent, hopened _ h.opened⟩

theorem Goes.after (h : Goes cfg s' s'') (hcalm : Calm s s') : Goes cfg s s'' :=
  ⟨h.books, hcalm.trans h.calm⟩

theorem Books.calm (hb : Books cfg s) (h : Calm s s')
    (hsound : Sound cfg.tree s'.levels s'.permits) (hdata : ∀ d ∈ s'.data, Kept cfg s d)
    (hothers : s'.others = s.others) (hown : ∀ e ∈ s'.streams.entries, Own cfg s e.2.budget)
    (hcharges : ∀ b, s'.phase.charges b = true → Own cfg s b) : Goes cfg s s' where
  books := ⟨hsound, fun d hd => (hdata d hd).mono h.opened, by rw [hothers]; exact hb.others,
    fun e he => (hown e he).mono h.quiet.dropped h.opened,
    fun b hc => (hcharges b hc).mono h.quiet.dropped h.opened⟩
  calm := h

/-! ## Steps that only change the table and the readers -/

structure SameData (s s' : SmuxReceive.State) : Prop where
  levels : s'.levels = s.levels
  data : s'.data = s.data
  others : s'.others = s.others
  opened : s'.opened = s.opened

theorem SameData.refl (s) : SameData s s := ⟨rfl, rfl, rfl, rfl⟩

theorem SameData.permits (h : SameData s s') : s'.permits = s.permits := by
  rw [SmuxReceive.State.permits, h.data, h.others]
  rfl

theorem SameData.calm (h : SameData s s') : Calm s s' := by
  refine ⟨?_, fun b hb => by rw [h.opened]; exact hb,
    .of_mem fun d hd => by rw [← h.data]; exact hd⟩
  rw [h.levels]
  exact .refl _

theorem Books.same (hb : Books cfg s) (h : SameData s s')
    (hown : ∀ e ∈ s'.streams.entries, Own cfg s e.2.budget)
    (hcharges : ∀ b, s'.phase.charges b = true → Own cfg s b) : Goes cfg s s' := by
  refine hb.calm h.calm ?_ ?_ h.others hown hcharges
  · rw [h.levels, h.permits]
    exact hb.sound
  rw [h.data]
  exact hb.data

theorem evictStream_same (s streamId cause) : SameData s (s.evictStream cfg streamId cause) := by
  unfold State.evictStream
  split <;> exact ⟨rfl, rfl, rfl, rfl⟩

theorem evictStream_streams (h : e ∈ (s.evictStream cfg streamId cause).streams.entries) :
    e ∈ s.streams.entries := by
  unfold State.evictStream at h
  split at h
  · exact h
  · exact s.streams.mem_of_remove h

theorem evictStream_phase (s : State) (streamId cause) :
    (s.evictStream cfg streamId cause).phase = s.phase := by
  unfold State.evictStream
  split <;> rfl

theorem Books.evictStream (hb : Books cfg s) (streamId cause) :
    Goes cfg s (s.evictStream cfg streamId cause) :=
  hb.same (evictStream_same s streamId cause) (fun e he => hb.own e (evictStream_streams he))
    (by rw [evictStream_phase]; exact hb.charges)

theorem hear_same (h : s.hear cfg = some s') :
    SameData s s' ∧ s'.phase = s.phase ∧ ∀ e ∈ s'.streams.entries, e ∈ s.streams.entries := by
  unfold State.hear at h
  split at h
  · cases h
  split at h <;> cases h
  rename_i scope _ _ streamId _
  have hsame (terminated : List (Nat × Nat)) :=
    @evictStream_same cfg { s with heard := s.heard + 1, terminated } streamId (.bytes scope)
  have hstreams (terminated : List (Nat × Nat)) := @evictStream_streams cfg
    { s with heard := s.heard + 1, terminated } streamId (.bytes scope)
  exact ⟨⟨(hsame _).levels, (hsame _).data, (hsame _).others, (hsame _).opened⟩,
    evictStream_phase .., fun _ he => hstreams _ he⟩

theorem Books.hear (hb : Books cfg s) (h : s.hear cfg = some s')
    (hcharges : ∀ b, phase.charges b = false) : Goes cfg s { s' with phase := phase } := by
  obtain ⟨hsame, -, hstreams⟩ := hear_same h
  refine hb.same { hsame with } (fun e he => hb.own e (hstreams e he)) fun b hc => ?_
  rw [hcharges b] at hc
  cases hc

theorem endSession_eq (s : State) (e) : ∃ reader, s.endSession e =
    { s with streams := .empty, reader := reader, phase := .ended } := by
  unfold State.endSession
  generalize s.streams.entries = entries
  induction entries generalizing s with
  | nil => exact ⟨_, rfl⟩
  | cons entry entries ih => exact ih (s.sendTerminal entry.2.budget (.failed e))

theorem endSession_same (s e) : SameData s (s.endSession e) := by
  obtain ⟨_, hs⟩ := endSession_eq s e
  rw [hs]
  exact ⟨rfl, rfl, rfl, rfl⟩

section
variable (hb : Books cfg s)
include hb

theorem Books.stays : Goes cfg s s := hb.same (.refl s) hb.own hb.charges

theorem Books.endSession (e) : Goes cfg s (s.endSession e) :=
  hb.same (endSession_same s e) nofun nofun

theorem Books.syn (hphase : s.phase = .idle) (hfresh : fresh cfg s streamId b = true) :
    Goes cfg s (s.syn cfg streamId b) := by
  unfold fresh at hfresh
  simp only [and_eq_true, beq_iff_eq, decide_eq_true_eq, not_eq_true'] at hfresh
  obtain ⟨⟨⟨⟨hsize, hparent⟩, heviction⟩, -⟩, hkept⟩ := hfresh
  have hstream : cfg.tree.isStream b = true := by
    rw [Tree.isStream, heviction]
    rfl
  have hretain : Goes cfg s { s with
      streams := s.streams.retain fun _ e => e.inbound && (s.reader e.budget).opened } :=
    hb.same ⟨rfl, rfl, rfl, rfl⟩ (fun e he => hb.own e (s.streams.mem_of_retain he)) hb.charges
  unfold State.syn
  dsimp only
  iterate 2
    split
    · exact (hretain.books.endSession _).after hretain.calm
  have hopened : ∀ c ∈ s.opened, c ∈ b :: s.opened := fun c hc => mem_cons_of_mem _ hc
  refine ⟨⟨hb.sound, fun d hd => (hb.data d hd).mono hopened, hb.others, fun e he => ?_,
    fun c hc => ?_⟩, ⟨.refl _, hopened, .of_mem fun d hd => hd⟩⟩
  · rcases Map.mem_of_insert _ he with rfl | he
    · exact ⟨hsize, hparent, hstream, hkept, mem_cons_self ..⟩
    · exact (hb.own e (s.streams.mem_of_retain he)).mono rfl hopened
  rw [hphase] at hc
  cases hc

theorem Books.psh (streamId payload) : Goes cfg s (s.psh streamId payload) := by
  unfold State.psh
  split
  · exact hb.stays
  · exact hb.same ⟨rfl, rfl, rfl, rfl⟩ hb.own (fun _ h => by cases h)

theorem Books.fin (streamId) : Goes cfg s (s.fin streamId) := by
  unfold State.fin
  split
  · exact hb.stays
  · exact hb.same ⟨rfl, rfl, rfl, rfl⟩ (fun e he => hb.own e (s.streams.mem_of_remove he)) hb.charges

theorem Books.closeInbound (streamId) : Goes cfg s (s.closeInbound streamId) := by
  unfold State.closeInbound
  split
  · exact hb.stays
  rename_i e he
  refine hb.same ⟨rfl, rfl, rfl, rfl⟩ (fun x hx => ?_) hb.charges
  rcases Map.mem_of_insert _ hx with rfl | hx
  · exact hb.own (streamId, e) (s.streams.mem_of_get he)
  · exact hb.own x hx

theorem Books.lookup {e? : Option StreamState} (h : s.lookup streamId = (e?, s')) :
    Goes cfg s s' ∧ ∀ e, e? = some e → Own cfg s' e.budget := by
  unfold State.lookup at h
  split at h
  · cases h
    exact ⟨hb.stays, nofun⟩
  rename_i e he
  split at h
  · cases h
    exact ⟨hb.stays, nofun⟩
  split at h <;> cases h
  · refine ⟨hb.stays, fun e' he' => ?_⟩
    cases he'
    exact hb.own (streamId, e) (s.streams.mem_of_get he)
  exact ⟨hb.closeInbound streamId, nofun⟩

theorem Books.setReader (f) : Goes cfg s (s.setReader b f) :=
  hb.same ⟨rfl, rfl, rfl, rfl⟩ hb.own hb.charges

end

/-! ## Steps that drop data -/

theorem dropData_sound (hT : cfg.tree.Layout) (gone others) :
    ∀ (ds : List Data) (l : Levels) (pre : List Permit),
      Sound cfg.tree l (pre ++ (ds.map Data.permit ++ others)) →
      Sound cfg.tree (dropData cfg.tree gone l ds).1
          (pre ++ ((dropData cfg.tree gone l ds).2.map Data.permit ++ others)) ∧
        Quiet l (dropData cfg.tree gone l ds).1
  | [], l, pre, h => ⟨h, .refl l⟩
  | d :: ds, l, pre, h => by
    rw [dropData]
    split
    · have hmem : d.permit ∈ pre ++ d.permit :: (ds.map Data.permit ++ others) :=
        mem_append_right _ (mem_cons_self ..)
      have hquiet := h.refundPermit_quiet hT hmem le_rfl
      obtain ⟨hrest, hquiet'⟩ := dropData_sound hT gone others ds _ pre (h.dropPermit hT)
      exact ⟨hrest, hquiet.trans hquiet'⟩
    have hmove : pre ++ ((d :: ds).map Data.permit ++ others) =
        (pre ++ [d.permit]) ++ (ds.map Data.permit ++ others) := by
      rw [append_assoc]
      rfl
    rw [hmove] at h
    obtain ⟨hrest, hquiet⟩ := dropData_sound hT gone others ds l _ h
    refine ⟨?_, hquiet⟩
    rw [append_assoc] at hrest
    exact hrest

section
variable (hb : Books cfg s) (hT : cfg.tree.Layout)
include hb hT

theorem Books.drop (gone)
    (hlevels : s'.levels = (dropData cfg.tree gone s.levels s.data).1)
    (hds : s'.data = (dropData cfg.tree gone s.levels s.data).2) (hothers : s'.others = s.others)
    (hopened : s'.opened = s.opened) (hown : ∀ e ∈ s'.streams.entries, Own cfg s e.2.budget)
    (hcharges : ∀ b, s'.phase.charges b = true → Own cfg s b) : Goes cfg s s' := by
  obtain ⟨hsound, hquiet⟩ := dropData_sound hT gone s.others s.data s.levels [] hb.sound
  have hmem : ∀ d ∈ s'.data, d ∈ s.data := by
    intro d hd
    rw [hds, dropData_data] at hd
    exact mem_of_mem_filter hd
  rw [← hlevels] at hquiet
  refine hb.calm ⟨hquiet, fun b hb => by rw [hopened]; exact hb, .of_mem hmem⟩ ?_
    (fun d hd => hb.data d (hmem d hd)) hothers hown hcharges
  rw [hlevels, SmuxReceive.State.permits, hds, hothers]
  exact hsound

theorem Books.dropCharged : Goes cfg s (s.dropCharged cfg) :=
  hb.drop hT (fun d => !d.queued) rfl rfl rfl rfl hb.own nofun

theorem Books.dropReader (b) : Goes cfg s (dropReader cfg s b) :=
  hb.drop hT (fun d => d.queued && d.permit.budget == b) rfl rfl rfl rfl hb.own hb.charges

/-! ## Steps that charge -/

theorem Books.charge (hown : Own cfg s b) (payload) :
    (∃ permit l, tryTrack cfg.tree s.levels b payload.length = (.ok permit, l) ∧
      ∀ streamId, Goes cfg s (s.keepCharged l permit streamId payload)) ∨
    ∃ refused l, tryTrack cfg.tree s.levels b payload.length = (.error refused, l) ∧
      ∀ phase : Phase, (∀ b, phase.charges b = true → Own cfg s b) →
        Goes cfg s { s with levels := l, phase := phase } := by
  have hquiet := hb.sound.tryTrack_quiet hT hown.size hown.kept payload.length
  rcases hb.sound.tryTrack hT hown.stream hown.size hown.kept with
    ⟨hok, hlive, hsound⟩ | ⟨refused, hrefused⟩
  · refine .inl ⟨_, _, hok, fun streamId => ?_⟩
    rw [hok] at hquiet
    refine hb.calm ⟨hquiet, fun b hb => hb, fun d hd hne hev => ?_⟩ ?_ ?_ rfl hb.own nofun
    · rcases mem_append.mp hd with hd | hd
      · exact ⟨d, hd, rfl, hne⟩
      · rw [mem_singleton.mp hd, hlive] at hev
        cases hev
    · refine hsound.perm ?_
      show (s.data.map Data.permit ++ s.others ++ [_]).Perm
        ((s.data ++ [_]).map Data.permit ++ s.others)
      rw [map_append, append_assoc, append_assoc]
      exact List.Perm.append_left _ perm_append_comm
    intro d hd
    rcases mem_append.mp hd with hd | hd
    · exact hb.data d hd
    rw [mem_singleton.mp hd]
    exact ⟨rfl, hown.parent, hown.opened⟩
  refine .inr ⟨_, _, hrefused, fun phase hcharges => ?_⟩
  rw [hrefused] at hquiet
  exact hb.calm ⟨hquiet, fun b hb => hb, .of_mem fun d hd => hd⟩
    (hb.sound.ensureRegistered hown.size hown.kept).1 hb.data rfl hb.own hcharges

theorem Books.deliver (streamId payload) :
    Goes cfg s (s.deliver cfg streamId payload) := by
  unfold State.deliver
  split
  next s₁ hlookup =>
    obtain ⟨⟨hb₁, hcalm⟩, -⟩ := hb.lookup hlookup
    refine .after ?_ hcalm
    exact hb₁.same ⟨rfl, rfl, rfl, rfl⟩ hb₁.own nofun
  rename_i e s₁ hlookup
  obtain ⟨⟨hb₁, hcalm⟩, hown⟩ := hb.lookup hlookup
  rcases hb₁.charge hT (hown e rfl) payload with
    ⟨permit, l, hok, hcharged⟩ | ⟨refused, l, hrefused, hcharged⟩
  · rw [hok]
    exact (hcharged streamId).after hcalm
  rw [hrefused]
  dsimp only
  split
  · exact (hcharged .idle nofun).after hcalm
  refine (hcharged _ fun b hc => ?_).after hcalm
  obtain rfl : e.budget = b := by simpa [Phase.charges] using hc
  exact hown e rfl

theorem Books.deliverAgain (hown : Own cfg s b)
    (streamId payload blocked scope) :
    Goes cfg s (s.deliverAgain cfg streamId b payload blocked scope) := by
  unfold State.deliverAgain
  rcases hb.charge hT hown payload with
    ⟨permit, l, hok, hcharged⟩ | ⟨refused, l, hrefused, hcharged⟩
  · rw [hok]
    exact hcharged streamId
  rw [hrefused]
  dsimp only
  split
  · exact hcharged .idle nofun
  split
  · exact hcharged (.delivering streamId payload) nofun
  refine hcharged (.parked streamId b payload blocked scope) fun c hc => ?_
  obtain rfl : b = c := by simpa [Phase.charges] using hc
  exact hown

omit hT in
theorem Books.queueCharged : Goes cfg s s.queueCharged := by
  have hpermits : s.queueCharged.permits = s.permits := by
    unfold State.queueCharged SmuxReceive.State.permits
    rw [map_map]
    rfl
  refine hb.calm ⟨.refl _, fun b hb => hb, fun d hd hne _ => ?_⟩ (hpermits ▸ hb.sound)
    (fun d hd => ?_) rfl hb.own nofun
  · obtain ⟨d₀, hd₀, rfl⟩ := mem_map.mp hd
    exact ⟨d₀, hd₀, rfl, hne⟩
  obtain ⟨d₀, hd₀, rfl⟩ := mem_map.mp hd
  exact { hb.data d₀ hd₀ with }

theorem Books.reserve (streamId room) :
    Goes cfg s (s.reserve cfg streamId room) := by
  unfold State.reserve
  split
  next s₁ hlookup =>
    obtain ⟨⟨hb₁, hcalm⟩, -⟩ := hb.lookup hlookup
    exact (hb₁.dropCharged hT).after hcalm
  rename_i e s₁ hlookup
  obtain ⟨⟨hb₁, hcalm⟩, -⟩ := hb.lookup hlookup
  split
  · exact hb₁.queueCharged.after hcalm
  refine .after ?_ hcalm
  exact hb₁.same ⟨rfl, rfl, rfl, rfl⟩ hb₁.own nofun

end

/-! ## Reading -/

section
variable {count : Nat} {l l' : Levels} {ds ds' pre post : List Data} {read : List UInt8} {d : Data}

theorem read_sound (h : Read cfg.tree b count l ds read l' ds' pre d post) (hT : cfg.tree.Layout)
    (hremaining : d.permit.remaining = d.bytes.length)
    (hsound : Sound cfg.tree l (ds.map Data.permit ++ others)) :
    Sound cfg.tree l' (ds'.map Data.permit ++ others) ∧ Quiet l l' := by
  have hbudget := h.budget
  have hcount : min count d.bytes.length ≤ d.permit.remaining := by
    rw [hremaining]
    exact min_le_right _ _
  rw [h.split, map_append, map_cons, append_assoc, cons_append] at hsound
  have hquiet := hsound.refundPermit_quiet hT
    (mem_append_right _ (mem_cons_self ..)) hcount
  have hrelease := hsound.release hT hcount
  rw [hbudget] at hquiet hrelease
  rcases h.rest with ⟨-, rfl, rfl⟩ | ⟨-, rfl, rfl⟩
  · have hquiet' := hrelease.refundPermit_quiet hT
      (mem_append_right _ (mem_cons_self ..)) le_rfl
    have hdrop := hrelease.dropPermit hT
    rw [← append_assoc, ← map_append] at hdrop
    exact ⟨hdrop, hquiet.trans hquiet'⟩
  rw [map_append, map_cons, append_assoc, cons_append]
  subst hbudget
  exact ⟨hrelease, hquiet⟩

end

theorem Books.pollData (hb : Books cfg s) (hT : cfg.tree.Layout) {count}
    (h : pollData cfg s b count = some s') : Goes cfg s s' := by
  unfold SmuxReceive.pollData at h
  split at h <;> cases h
  rename_i read l ds hread
  obtain ⟨_, d, _, hread⟩ := readData_read hread
  obtain ⟨hmem, hkeeps⟩ := hread.mem
  have hkept := hb.data d hmem
  obtain ⟨hsound, hquiet⟩ := read_sound hread hT hkept.remaining hb.sound
  refine hb.calm ⟨hquiet, fun b hb => hb, fun d' hd' hne _ => ?_⟩ hsound (fun d' hd' => ?_) rfl
    hb.own hb.charges
  · rcases hkeeps d' hd' with hd' | ⟨rfl, -⟩
    · exact ⟨d', hd', rfl, hne⟩
    · refine ⟨d, hmem, rfl, fun hnil => hne ?_⟩
      unfold Data.release
      rw [hnil, drop_nil]
  rcases hkeeps d' hd' with hd' | ⟨rfl, -⟩
  · exact hb.data d' hd'
  refine ⟨?_, hkept.parent, hkept.opened⟩
  unfold Data.release
  rw [length_drop, ← hkept.remaining]

/-! ## Evicting and dropping -/

section
variable (hb : Books cfg s)
include hb

theorem Books.victim_of_permit (hp : p ∈ s.permits) : Victim cfg s p.budget := by
  refine ⟨(hb.sound.charged p hp).2.1,
    (hb.sound.attached p hp p.budget (cfg.tree.mem_chain_self _)).1, fun hparent => ?_⟩
  rcases mem_append.mp hp with hp | hp
  · obtain ⟨d, hd, rfl⟩ := mem_map.mp hp
    exact (hb.data d hd).opened
  · exact absurd hparent (hb.others p hp)

theorem Books.pick_victim (hi : Victim cfg s i)
    (blocked length) : Victim cfg s (pick cfg.tree s.levels i blocked length) := by
  rcases hb.sound.pick_holds i blocked length with hpick | ⟨p, hp, hbudget⟩
  · rw [hpick]
    exact hi
  rw [← hbudget]
  exact hb.victim_of_permit hp

variable (hT : cfg.tree.Layout)
include hT

theorem Books.evict (hv : Victim cfg s v)
    (scope) (hcharges : ∀ b, phase.charges b = true → Own cfg s b) :
    Books cfg { s with levels := evict cfg.tree s.levels v scope, phase := phase } := by
  obtain ⟨hdropped, -⟩ := @evict_registry cfg.tree s.levels v scope
  exact ⟨hb.sound.evict hT hv.stream scope, fun d hd => (hb.data d hd).mono fun c hc => hc,
    hb.others, fun e he => (hb.own e he).mono hdropped fun c hc => hc,
    fun c hc => (hcharges c hc).mono hdropped fun c hc => hc⟩

theorem Books.onGrace (h : onGrace cfg s = some s') :
    Books cfg s' ∧ Touches cfg s .grace s' := by
  unfold SmuxReceive.onGrace at h
  split at h <;> cases h
  next streamId b payload blocked scope hphase =>
    have hown : Own cfg s b := hb.charges b (by rw [hphase]; simp [Phase.charges])
    have hvictim := hb.pick_victim hown.victim blocked payload.length
    have heq := @evictStalled_eq cfg.tree s.levels b blocked payload.length scope
    refine ⟨?_, .evicts _ scope ?_ hvictim heq rfl⟩
    · rw [heq]
      exact hb.evict hT hvictim scope nofun
    · rw [evicts, hphase]
  rename_i streamId hphase
  obtain ⟨hb₁, hcalm⟩ := hb.evictStream streamId .frameQueue
  obtain ⟨hb', hcalm'⟩ := hb₁.dropCharged hT
  exact ⟨hb', .calm (hcalm.trans hcalm')⟩

theorem Books.onWake (h : onWake cfg s = some s') : Goes cfg s s' := by
  unfold SmuxReceive.onWake at h
  split at h
  · cases h
    exact hb.same ⟨rfl, rfl, rfl, rfl⟩ hb.own nofun
  next streamId hphase =>
    split at h <;> cases h
    obtain ⟨hb₁, hcalm⟩ := hb.closeInbound streamId
    exact (hb₁.dropCharged hT).after hcalm
  · cases h

omit hT in
theorem Books.onNotice (h : onNotice cfg s = some s') : Goes cfg s s' := by
  unfold SmuxReceive.onNotice at h
  split at h
  next hphase =>
    have hphase' := (hear_same h).2.1
    rw [hphase] at hphase'
    have hs' : s' = { s' with phase := .idle } := by rw [← hphase']
    rw [hs']
    exact hb.hear h fun b => rfl
  · obtain ⟨s₁, hs₁, rfl⟩ := Option.map_eq_some_iff.mp h
    exact hb.hear hs₁ fun b => rfl
  · obtain ⟨_, hs₁, rfl⟩ := Option.map_eq_some_iff.mp h
    exact hb.hear hs₁ fun b => rfl
  · cases h

theorem Books.onDeliver (h : onDeliver cfg s = some s') : Goes cfg s s' := by
  unfold SmuxReceive.onDeliver at h
  split at h <;> cases h
  · exact hb.deliver hT _ _
  next streamId b payload blocked scope hphase =>
    exact hb.deliverAgain hT (hb.charges b (by rw [hphase]; simp [Phase.charges])) ..

theorem Books.onReserve (h : onReserve cfg s room = some s') :
    Goes cfg s s' := by
  unfold SmuxReceive.onReserve at h
  split at h
  · cases h
    exact hb.reserve hT ..
  · split at h <;> cases h
    exact hb.queueCharged
  · cases h

end

/-! ## Other sessions -/

theorem elsewhere_permits {a bk} (ha : isElsewhere cfg s a = true)
    (h : BudgetBooks.next cfg.tree ⟨s.levels, s.permits⟩ a = some bk) :
    ∃ others, bk.permits = s.data.map Data.permit ++ others ∧
      ∀ p ∈ others, (∃ p₀ ∈ s.others, p.budget = p₀.budget) ∨
        cfg.tree.parent p.budget ≠ some cfg.session := by
  have hsame : ∀ p ∈ s.others, (∃ p₀ ∈ s.others, p.budget = p₀.budget) ∨
      cfg.tree.parent p.budget ≠ some cfg.session := fun p hp => .inl ⟨p, hp, rfl⟩
  have hlength : (s.data.map Data.permit).length = s.data.length := length_map ..
  cases a with
  | tryTrack i =>
    obtain ⟨-, h⟩ := Option.ite_none_right_eq_some.mp h
    split at h <;> cases h
    swap
    · exact ⟨s.others, rfl, hsame⟩
    rename_i permit l hok
    refine ⟨s.others ++ [permit], append_assoc .., fun p hp => ?_⟩
    rcases mem_append.mp hp with hp | hp
    · exact hsame p hp
    rw [mem_singleton.mp hp]
    have hbudget : permit.budget = i := by
      unfold tryTrack at hok
      split at hok <;> cases hok
      rfl
    simp only [isElsewhere, isForeign, and_eq_true, bne_iff_ne] at ha
    rw [hbudget]
    exact .inr ha.1.2
  | track => cases ha
  | evictStalled | dropBudget =>
    obtain ⟨-, ⟨⟩⟩ := Option.ite_none_right_eq_some.mp h
    exact ⟨s.others, rfl, hsame⟩
  | release k =>
    rw [isElsewhere, decide_eq_true_eq] at ha
    rw [BudgetBooks.next] at h
    split at h
    · cases h
    rename_i p hp
    split at h <;> cases h
    unfold SmuxReceive.State.permits at hp ⊢
    rw [List.getElem?_append_right (by omega)] at hp
    refine ⟨_, set_append_right k _ (by omega), fun q hq => ?_⟩
    rcases mem_or_eq_of_mem_set hq with hq | rfl
    · exact hsame q hq
    · exact .inl ⟨p, mem_of_getElem? hp, rfl⟩
  | dropPermit =>
    rw [isElsewhere, decide_eq_true_eq] at ha
    rw [BudgetBooks.next] at h
    split at h <;> cases h
    refine ⟨_, eraseIdx_append_of_length_le (by omega) _, fun q hq => ?_⟩
    exact hsame q (mem_of_mem_eraseIdx hq)

theorem elsewhere_charges {a} (ha : isElsewhere cfg s a = true) :
    ChargesStream cfg.tree a = true := by
  cases a with
  | tryTrack | evictStalled => exact (and_eq_true_iff.mp ha).2
  | track => cases ha
  | release | dropPermit | dropBudget => rfl

theorem Books.onElsewhere (hb : Books cfg s) (hT : cfg.tree.Layout) {a}
    (h : onElsewhere cfg s a = some s') : Books cfg s' ∧ Touches cfg s (.elsewhere a) s' := by
  obtain ⟨ha, h⟩ := Option.ite_none_right_eq_some.mp h
  obtain ⟨bk, hbk, rfl⟩ := Option.map_eq_some_iff.mp h
  obtain ⟨others, hpermits, hforeign⟩ := elsewhere_permits ha hbk
  have hothers : bk.permits.drop s.data.length = others := by
    rw [hpermits, drop_append_of_le_length (by simp), drop_of_length_le (by simp)]
    rfl
  have hsound : Sound cfg.tree bk.levels (s.data.map Data.permit ++ others) := by
    rw [← hpermits]
    exact Sound.next hb.sound hT (elsewhere_charges ha) hbk
  have hothers' : ∀ p ∈ others, cfg.tree.parent p.budget ≠ some cfg.session := by
    intro p hp
    rcases hforeign p hp with ⟨p₀, hp₀, hbudget⟩ | hne
    · rw [hbudget]
      exact hb.others p₀ hp₀
    · exact hne
  rw [hothers]
  have hbooks (hdropped : ∀ c, Own cfg s c → bk.levels.dropped c = false) :
      Books cfg { s with levels := bk.levels, others := others } :=
    ⟨hsound, fun d hd => (hb.data d hd).mono fun c hc => hc, hothers', fun e he =>
        have hown := hb.own e he
        ⟨hown.size, hown.parent, hown.stream, hdropped _ hown, hown.opened⟩,
      fun c hc =>
        have hown := hb.charges c hc
        ⟨hown.size, hown.parent, hown.stream, hdropped _ hown, hown.opened⟩⟩
  have hquiet (hq : a.isQuiet = true) : Books cfg { s with levels := bk.levels, others := others } ∧
        Touches cfg s (.elsewhere a) { s with levels := bk.levels, others := others } := by
    have hquiet := Sound.next_quiet hb.sound hT hq hbk
    refine ⟨hbooks fun c hown => ?_, .calm ⟨hquiet, fun b hb => hb, .of_mem fun d hd => hd⟩⟩
    rw [hquiet.dropped]
    exact hown.kept
  cases a with
  | tryTrack | release | dropPermit => exact hquiet rfl
  | track => cases ha
  | evictStalled i blocked scope length =>
    obtain ⟨husable, hbk⟩ := Option.ite_none_right_eq_some.mp hbk
    obtain ⟨husable, -⟩ := and_eq_true_iff.mp husable
    obtain ⟨_, hkept⟩ := usable_iff.mp husable
    cases hbk
    simp only [isElsewhere, isForeign, and_eq_true, bne_iff_ne] at ha
    have hvictim := hb.pick_victim ⟨ha.2, hkept, fun hp => absurd hp ha.1.2⟩ blocked length
    have heq := @evictStalled_eq cfg.tree s.levels i blocked length scope
    refine ⟨hbooks fun c hown => ?_, .evicts _ scope rfl hvictim heq rfl⟩
    obtain ⟨hdropped, -⟩ := @evictStalled_registry cfg.tree s.levels i blocked length scope
    rw [hdropped]
    exact hown.kept
  | dropBudget i =>
    obtain ⟨-, ⟨⟩⟩ := Option.ite_none_right_eq_some.mp hbk
    simp only [isElsewhere, isForeign, and_eq_true, bne_iff_ne] at ha
    refine ⟨hbooks fun c hown => ?_, .drops i rfl rfl⟩
    have hne : c ≠ i := fun heq => ha.2 (heq ▸ hown.parent)
    exact (dropBudget_dropped s.levels hne).trans hown.kept

theorem Books.dropBudget (hb : Books cfg s)
    (hunowned : unowned cfg.tree ⟨s.levels, s.permits⟩ b = true) (hholds : holdsBudget s b = false)
    : Books cfg { s with levels := dropBudget cfg.tree s.levels b } := by
  obtain ⟨htable, hcharges⟩ := or_eq_false_iff.mp hholds
  have hown (c : Nat) (hc : Own cfg s c) (hne : c ≠ b) :
      Own cfg { s with levels := ReceiveBudget.dropBudget cfg.tree s.levels b } c :=
    ⟨hc.size, hc.parent, hc.stream, (dropBudget_dropped s.levels hne).trans hc.kept, hc.opened⟩
  refine ⟨hb.sound.dropBudget hunowned, fun d hd => (hb.data d hd).mono fun c hc => hc, hb.others,
    fun e he => ?_, fun c hc => ?_⟩
  · refine hown _ (hb.own e he) fun heq => ?_
    have hne := any_eq_false.mp htable e he
    exact hne (by simpa using heq)
  refine hown c (hb.charges c hc) fun heq => ?_
  rw [heq, hcharges] at hc
  cases hc

/-! ## Runs -/

theorem Books.next (hb : Books cfg s) (hT : cfg.tree.Layout) (h : next cfg s a = some s') :
    Books cfg s' ∧ Touches cfg s a s' := by
  have hcalm (h : Goes cfg s s') : Books cfg s' ∧ Touches cfg s a s' := ⟨h.books, .calm h.calm⟩
  cases a with
  | syn =>
    obtain ⟨⟨hphase, hfresh⟩, ⟨⟩⟩ := Option.ite_none_right_eq_some.mp h
    exact hcalm (hb.syn hphase hfresh)
  | psh streamId payload =>
    obtain ⟨-, ⟨⟩⟩ := Option.ite_none_right_eq_some.mp h
    exact hcalm (hb.psh streamId payload)
  | fin streamId =>
    obtain ⟨-, ⟨⟩⟩ := Option.ite_none_right_eq_some.mp h
    exact hcalm (hb.fin streamId)
  | endSession e =>
    obtain ⟨-, ⟨⟩⟩ := Option.ite_none_right_eq_some.mp h
    exact hcalm (hb.endSession e)
  | notice => exact hcalm (hb.onNotice h)
  | deliver => exact hcalm (hb.onDeliver hT h)
  | reserve => exact hcalm (hb.onReserve hT h)
  | wake => exact hcalm (hb.onWake hT h)
  | grace => exact hb.onGrace hT h
  | read =>
    obtain ⟨-, h⟩ := Option.ite_none_right_eq_some.mp h
    exact hcalm (hb.pollData hT h)
  | look | lookTerminal | closed =>
    obtain ⟨-, ⟨⟩⟩ := Option.ite_none_right_eq_some.mp h
    exact hcalm (hb.setReader _)
  | dropReader b =>
    obtain ⟨-, ⟨⟩⟩ := Option.ite_none_right_eq_some.mp h
    exact hcalm (hb.dropReader hT b)
  | elsewhere => exact hb.onElsewhere hT h
  | dropBudget b =>
    obtain ⟨⟨-, hunowned, hholds, -⟩, ⟨⟩⟩ := Option.ite_none_right_eq_some.mp h
    exact ⟨hb.dropBudget hunowned hholds, .drops b rfl rfl⟩

theorem Books.new (cfg) : Books cfg .new where
  sound := Sound.new cfg.tree
  data := nofun
  others := nofun
  own := nofun
  charges := nofun

/-! ## What is held is charged -/

/-- What has been received and not been read. -/
def held (s : SmuxReceive.State) : Nat := tally (fun d => d.bytes.length) s.data

def heldLive (s : SmuxReceive.State) : Nat :=
  tally (fun d => if s.levels.isEvicted d.permit.budget then 0 else d.bytes.length) s.data

/-- **What is held for streams that were not evicted is charged to the session.** -/
theorem Books.heldLive_le (hb : Books cfg s) : heldLive s ≤ s.levels.used cfg.session := by
  have hmap : tally (BudgetBooks.held cfg.tree s.levels cfg.session) (s.data.map Data.permit) =
      heldLive s := by
    unfold tally heldLive
    rw [map_map]
    refine tally_congr fun d hd => ?_
    have hkept := hb.data d hd
    have hchain : cfg.session ∈ cfg.tree.chain d.permit.budget := by
      rw [cfg.tree.chain_child hkept.parent]
      exact mem_append_left _ (cfg.tree.mem_chain_self _)
    show BudgetBooks.held cfg.tree s.levels cfg.session d.permit = _
    rw [BudgetBooks.held, if_pos hchain, hkept.remaining]
  rw [hb.sound.books cfg.session, outstanding, SmuxReceive.State.permits, tally_append, hmap]
  exact Nat.le_add_right _ _

/-- Whoever gives way in a step holds nothing. -/
def spares (cfg : Setup) (s : SmuxReceive.State) (a : SmuxReceive.Action) : Bool :=
  match evicts cfg s a with
  | none => true
  | some v => s.data.all fun d => d.permit.budget != v || d.bytes.isEmpty

/-- Nothing is held for a stream that was evicted. -/
def Unspent (s : SmuxReceive.State) : Prop :=
  ∀ d ∈ s.data, d.bytes ≠ [] → s.levels.isEvicted d.permit.budget = false

theorem Unspent.held_eq (h : Unspent s) : held s = heldLive s := by
  refine tally_congr fun d hd => ?_
  by_cases hnil : d.bytes = []
  · rw [hnil, length_nil, ite_self]
  · rw [h d hd hnil, if_neg (by decide)]

theorem evict_isEvicted (hb : Books cfg s) (hT : cfg.tree.Layout) (hv : Victim cfg s v) (scope b) :
    (evict cfg.tree s.levels v scope).isEvicted b = (decide (b = v) || s.levels.isEvicted b) := by
  by_cases hlive : s.levels.isEvicted v = true
  · rw [evict, if_pos hlive]
    by_cases hb : b = v
    · rw [hb, hlive, Bool.or_true]
    · rw [decide_eq_false hb, Bool.false_or]
  rw [Bool.not_eq_true] at hlive
  rw [hb.sound.evict_eq hT hv.stream hlive scope]
  exact (hb.sound.evicted_spec hT hlive scope b).1

theorem Unspent.next (hu : Unspent s) (hb : Books cfg s) (hT : cfg.tree.Layout)
    (hspares : spares cfg s a = true) (h : Touches cfg s a s') : Unspent s' := by
  intro d hd hne
  cases h with
  | calm hcalm =>
    rw [hcalm.quiet.evicted, ← Bool.not_eq_true]
    intro hev
    -- What an evicted stream still holds it held before, and then it was not evicted.
    obtain ⟨d₀, hd₀, hbudget, hne₀⟩ := hcalm.data d hd hne hev
    rw [← hbudget, hu d₀ hd₀ hne₀] at hev
    cases hev
  | evicts v scope picked victim levels data =>
    rw [data] at hd
    rw [levels, evict_isEvicted hb hT victim, hu d hd hne, Bool.or_false]
    refine decide_eq_false fun heq => ?_
    rw [spares, picked] at hspares
    have hd := all_eq_true.mp hspares d hd
    simp [heq, hne] at hd
  | drops b levels data =>
    rw [data] at hd
    rw [levels]
    exact hu d hd hne

end

/-- **Receive memory.** In every run in which no stream is evicted while anything is held for it,
what the session holds for all its streams, whether or not they have ended, is never more than what
is charged to its budget, and so never more than the maximum of that. -/
theorem receive_memory_bounded (cfg : Setup) (hT : cfg.tree.Layout)
    (actions : List SmuxReceive.Action) (s : SmuxReceive.State)
    (hspares : Lib.Machine.Throughout (next cfg) (fun s a => spares cfg s a = true) .new actions)
    (hrun : run (next cfg) .new actions = some s) :
    held s ≤ s.levels.used cfg.session ∧ s.levels.used cfg.session ≤ cfg.tree.max cfg.session := by
  obtain ⟨hb, hu⟩ := @run_invariant _ _ _ _ (fun s => Books cfg s ∧ Unspent s)
    (fun s a s' ha hi hnext =>
      have hstep := hi.1.next hT hnext
      ⟨hstep.1, hi.2.next hi.1 hT ha hstep.2⟩)
    actions _ s hspares ⟨Books.new cfg, nofun⟩ hrun
  rw [hu.held_eq]
  exact ⟨hb.heldLive_le, hb.sound.bounded cfg.session⟩

/-- One session with two streams. -/
def twoStreams : Setup := ⟨smallTree, 1, 1, 4, 30⟩

/-- A stream that has ended is read late: the next payload has to wait for it. -/
def lateReader : List SmuxReceive.Action :=
  [.syn 7 2, .psh 7 [1, 2, 3, 4, 5], .deliver, .reserve true, .fin 7,
    .syn 9 3, .psh 9 [6, 7, 8, 9], .deliver, .deliver]

theorem receive_memory_bounded_late : ∃ s, run (next twoStreams) .new
        (lateReader ++ [.read 2 3, .wake, .deliver, .reserve true]) = some s ∧
      held s = 6 ∧ held s ≤ s.levels.used 1 ∧ s.levels.used 1 ≤ 8 := by
  have hrun : ∃ s, run (next twoStreams) .new
      (lateReader ++ [.read 2 3, .wake, .deliver, .reserve true]) = some s := ⟨_, rfl⟩
  obtain ⟨s, hs⟩ := hrun
  have hbounded := receive_memory_bounded twoStreams smallTree_layout _ s (by decide) hs
  cases hs
  exact ⟨_, rfl, rfl, hbounded.1, hbounded.2⟩

/-- **An evicted stream that has ended keeps what it holds.** The session gives the room away, hears
of the eviction and finds no stream to end: it holds nine bytes where eight are allowed. -/
theorem ended_stream_evicted : ∃ s, run (next twoStreams) .new
        (lateReader ++ [.grace, .deliver, .reserve true, .notice]) = some s ∧
      s.heard = 1 ∧ (s.reader 2).opened = true ∧ held s = 9 ∧ s.levels.used twoStreams.session = 4 ∧
      twoStreams.tree.max twoStreams.session = 8 :=
  ⟨_, rfl, rfl, rfl, rfl, rfl, rfl⟩

end Shoes.Transport.SmuxBooks
