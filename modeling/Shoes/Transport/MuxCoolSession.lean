import Shoes.Transport.SmuxNotices

/-! # The receiving side of a Mux.Cool session

A Mux.Cool session does not wait for room: a payload that does not fit makes the stream that holds
most give way at once, which may be the stream it is for. -/
namespace Shoes.Transport.MuxCoolSession
open Lib.Io Lib.Assoc ReceiveBudget EvictionNotices List Option Lib.Machine Bool
open SmuxReceive (InboundTerminal StreamState BackpressureCause)

/-! ## State -/

structure Setup where
  tree : Tree
  session : Nat
  maxConcurrentStreams : Nat

/-- `permits` are those of all that was received and not dropped, and of the listener's other
sessions. `reading` says that the reader of a stream is there, `terminal` what came through its
terminal channel. `heard`, `opened` and `terminated` are as in a smux session. -/
structure State where
  levels : Levels
  permits : List Permit
  streams : Map UInt16 StreamState
  reading : Nat → Bool
  terminal : Nat → Option InboundTerminal
  running : Bool
  heard : Nat
  opened : List Nat
  terminated : List (Nat × Nat)

def State.new : State := ⟨.new, [], .empty, fun _ => false, fun _ => none, true, 0, [], []⟩

/-- `ReceiveBudgetExceeded`. -/
def exceeded (scope : Scope) : String := s!"smux {scope.display} receive buffer limit exceeded"

def source (cfg : Setup) : Source UInt16 where
  tree := cfg.tree
  session := cfg.session
  name := fun b => (cfg.tree.eviction b).map UInt32.toUInt16

namespace State

def sendTerminal (s : State) (b : Nat) (t : InboundTerminal) : State :=
  { s with terminal := Function.update s.terminal b (some t) }

/-- A stream that the session gives up. -/
def giveUp (s : State) (x : UInt16) (e : StreamState) (message : String) : State :=
  ({ s with streams := s.streams.remove x }).sendTerminal e.budget (.failed ⟨.outOfMemory, message⟩)

/-- A notice is taken from the queue. -/
def hear (cfg : Setup) (s : State) : Option State :=
  match (notices (source cfg) s.levels)[s.heard]? with
  | none => none
  | some (b, scope) =>
    match (source cfg).name b with
    | none => none
    | some x =>
      let s := { s with heard := s.heard + 1 }
      some (match s.streams.get x with
        | none => s
        | some e =>
          ({ s with terminated := (b, e.budget) :: s.terminated }).giveUp x e
            s!"Mux.Cool {(BackpressureCause.bytes scope).display}")

def endSession (s : State) (e : IoError) : State :=
  let s' := s.streams.entries.foldl (fun s entry => s.sendTerminal entry.2.budget (.failed e)) s
  { s' with streams := .empty, running := false }

/-! ## Frames -/

section
variable (cfg : Setup) (s : State)

/-- `track`, with the data in the hands of the session: it is in no queue yet. -/
def charge (b : Nat) (data : List UInt8) : Option (Except Scope Permit × State) :=
  (track cfg.tree (s.permits.length + 1) s.levels b data.length).map fun r =>
    (r.1, { s with levels := r.2 })

def keepPermit (s : State) (p : Permit) : State := { s with permits := s.permits ++ [p] }

def dropPermit (p : Permit) : State :=
  { s with levels := refundPermit cfg.tree s.levels p.budget p.remaining p.generation }

def insertStream (s : State) (x : UInt16) (b : Nat) : State :=
  { s with
    streams := s.streams.insert x ⟨b, true⟩
    reading := Function.update s.reading b true }

/-- The streams whose readers are there. -/
def reclaimed (s : State) : Map UInt16 StreamState :=
  s.streams.retain fun _ e => e.inbound && s.reading e.budget

/-- The stream, its id and its first data, for which there may be no room in the queue. -/
def statusNew (x : UInt16) (b : Nat) (data : List UInt8) (room : Bool) : Option State :=
  let s := { s with streams := s.reclaimed }
  if s.streams.contains x then
    some (s.endSession ⟨.invalidData, "Mux.Cool New reused an active stream ID"⟩)
  else if cfg.maxConcurrentStreams ≤ s.streams.size then
    some (s.endSession ⟨.invalidData, "Mux.Cool concurrent stream limit exceeded"⟩)
  else
    let s := { s with opened := b :: s.opened }
    if data.isEmpty then some (s.insertStream x b)
    else
      match s.charge cfg b data with
      | none => none
      | some (.error _, s) => some s
      | some (.ok p, s) =>
        if room then some ((s.keepPermit p).insertStream x b) else some (s.dropPermit cfg p)

def statusKeep (x : UInt16) (data : List UInt8) (room : Bool) : Option State :=
  match s.streams.get x with
  | none => some s
  | some e =>
    if data.isEmpty || !e.inbound then some s
    else
      match s.charge cfg e.budget data with
      | none => none
      | some (.error scope, s) => some (s.giveUp x e (exceeded scope))
      | some (.ok p, s) =>
        if !s.reading e.budget then
          some (({ s with streams := s.streams.insert x { e with inbound := false } }).dropPermit
            cfg p)
        else if room then some (s.keepPermit p)
        else some ((s.giveUp x e "Mux.Cool logical inbound frame queue is full").dropPermit cfg p)

/-- How a stream ends that its peer has closed. -/
def closedBy (hasError : Bool) : InboundTerminal :=
  if hasError then .failed ⟨.connectionReset, "Mux.Cool peer closed the logical stream"⟩
  else .finished

def statusEnd (x : UInt16) (data : List UInt8) (hasError room : Bool) : Option State :=
  match s.streams.get x with
  | none => some s
  | some e =>
    let s := { s with streams := s.streams.remove x }
    if data.isEmpty || !e.inbound then some (s.sendTerminal e.budget (closedBy hasError))
    else
      match s.charge cfg e.budget data with
      | none => none
      | some (.error scope, s) =>
        some (s.sendTerminal e.budget (.failed ⟨.outOfMemory, exceeded scope⟩))
      | some (.ok p, s) =>
        if !s.reading e.budget then
          some ((s.dropPermit cfg p).sendTerminal e.budget (closedBy hasError))
        else if room then some ((s.keepPermit p).sendTerminal e.budget (closedBy hasError))
        else
          some ((s.dropPermit cfg p).sendTerminal e.budget
            (.failed ⟨.outOfMemory, "Mux.Cool logical inbound frame queue is full"⟩))

end

end State

/-! ## Steps -/

/-- The session takes a frame or a notice, or ends; a reader goes. `books`: readers release and drop
permits, and so do the listener's other sessions, which also charge their own streams. A budget is
dropped that nothing holds. -/
inductive Action
  | statusNew (x : UInt16) (budget : Nat) (data : List UInt8) (room : Bool)
  | statusKeep (x : UInt16) (data : List UInt8) (room : Bool)
  | statusEnd (x : UInt16) (data : List UInt8) (hasError room : Bool)
  | endSession (e : IoError)
  | notice
  | dropReader (budget : Nat)
  | books (a : BudgetBooks.Action)
  | dropBudget (budget : Nat)

def fresh (cfg : Setup) (s : State) (x : UInt16) (b : Nat) : Bool :=
  decide (b < cfg.tree.size) && cfg.tree.parent b == some cfg.session &&
    cfg.tree.eviction b == some x.toUInt32 && !s.opened.contains b && !s.levels.dropped b

def isForeign (cfg : Setup) (b : Nat) : Bool :=
  b != cfg.session && cfg.tree.parent b != some cfg.session

def isAside (cfg : Setup) : BudgetBooks.Action → Bool
  | .tryTrack i _ => isForeign cfg i && cfg.tree.isStream i
  | .track i _ => isForeign cfg i && cfg.tree.isStream i
  | .evictStalled i _ _ _ => isForeign cfg i && cfg.tree.isStream i
  | .release _ _ => true
  | .dropPermit _ => true
  | .dropBudget i => isForeign cfg i

def holdsBudget (s : State) (b : Nat) : Bool := s.streams.entries.any fun e => e.2.budget == b

section
variable (cfg : Setup) (s : State)

def next : Action → Option State
  | .statusNew x b data room =>
    if s.running ∧ fresh cfg s x b then s.statusNew cfg x b data room else none
  | .statusKeep x data room => if s.running then s.statusKeep cfg x data room else none
  | .statusEnd x data hasError room =>
    if s.running then s.statusEnd cfg x data hasError room else none
  | .endSession e => if s.running then some (s.endSession e) else none
  | .notice => if s.running then s.hear cfg else none
  | .dropReader b => some { s with reading := Function.update s.reading b false }
  | .books a =>
    if isAside cfg a then
      (BudgetBooks.next cfg.tree ⟨s.levels, s.permits⟩ a).map fun bk =>
        { s with levels := bk.levels, permits := bk.permits }
    else none
  | .dropBudget b =>
    if BudgetBooks.usable cfg.tree ⟨s.levels, s.permits⟩ b ∧
        BudgetBooks.unowned cfg.tree ⟨s.levels, s.permits⟩ b ∧ holdsBudget s b = false ∧
        b ≠ cfg.session then
      some { s with levels := dropBudget cfg.tree s.levels b }
    else none

end

/-! ## The books of the session -/

def table (s : State) (x : UInt16) : Option Nat := (s.streams.get x).map StreamState.budget

/-- A stream of the session that can be charged. -/
structure Own (cfg : Setup) (s : State) (b : Nat) : Prop where
  size : b < cfg.tree.size
  parent : cfg.tree.parent b = some cfg.session
  stream : cfg.tree.isStream b = true
  kept : s.levels.dropped b = false
  opened : b ∈ s.opened

structure Books (cfg : Setup) (s : State) : Prop where
  sound : BudgetBooks.Sound cfg.tree s.levels s.permits
  permits : Opened (source cfg) s.opened s.permits
  own : ∀ e ∈ s.streams.entries, Own cfg s e.2.budget

/-- Streams only leave the table, or stop to take data. -/
structure Shrinks (m m' : Map UInt16 StreamState) : Prop where
  members : ∀ e' ∈ m'.entries, ∃ e ∈ m.entries, e'.2.budget = e.2.budget
  names : ∀ x c, (m'.get x).map StreamState.budget = some c →
    (m.get x).map StreamState.budget = some c

/-- What a step leaves that opens no stream and hears no notice. -/
structure Moves (cfg : Setup) (s s' : State) : Prop where
  sound : BudgetBooks.Sound cfg.tree s'.levels s'.permits
  permits : Opened (source cfg) s.opened s'.permits
  kept : ∀ b, Own cfg s b → holdsBudget s b = true → s'.levels.dropped b = false
  fades : Fades (source cfg) s.opened s.levels s'.levels
  streams : Shrinks s.streams s'.streams
  opened : s'.opened = s.opened
  heard : s'.heard = s.heard
  terminated : s'.terminated = s.terminated

/-- What a step leaves of the budgets that drops none. -/
structure Charged (cfg : Setup) (s : State) (l : Levels) (permits : List Permit) : Prop where
  sound : BudgetBooks.Sound cfg.tree l permits
  permits : Opened (source cfg) s.opened permits
  dropped : l.dropped = s.levels.dropped
  fades : Fades (source cfg) s.opened s.levels l

section
variable {cfg : Setup} {s s' : State} {a : Action} {b : Nat}

theorem Books.moves (hb : Books cfg s) (h : Moves cfg s s') : Books cfg s' := by
  refine ⟨h.sound, by rw [h.opened]; exact h.permits, fun e' he' => ?_⟩
  obtain ⟨e, he, hbudget⟩ := h.streams.members e' he'
  have hown := hb.own e he
  rw [hbudget]
  refine ⟨hown.size, hown.parent, hown.stream, h.kept _ hown ?_,
    by rw [h.opened]; exact hown.opened⟩
  exact any_eq_true.mpr ⟨e, he, by simp⟩

theorem Charged.moves (h : Charged cfg s s'.levels s'.permits)
    (hstreams : Shrinks s.streams s'.streams) (hopened : s'.opened = s.opened)
    (hheard : s'.heard = s.heard) (hterminated : s'.terminated = s.terminated) :
    Moves cfg s s' where
  sound := h.sound
  permits := h.permits
  kept := fun b hown _ => by
    rw [h.dropped]
    exact hown.kept
  fades := h.fades
  streams := hstreams
  opened := hopened
  heard := hheard
  terminated := hterminated

theorem Books.charged (hb : Books cfg s) : Charged cfg s s.levels s.permits :=
  ⟨hb.sound, hb.permits, rfl, fades_of_quiet (.refl _)⟩

/-! ## Tables -/

theorem Shrinks.refl (m) : Shrinks m m :=
  ⟨fun e he => ⟨e, he, rfl⟩, fun _ _ h => h⟩

theorem shrinks_remove (m x) : Shrinks m (m.remove x) := by
  refine ⟨fun e he => ⟨e, m.mem_of_remove he, rfl⟩, fun y c hc => ?_⟩
  rw [Map.get_remove] at hc
  split at hc
  · cases hc
  · exact hc

variable {x : UInt16}

theorem shrinks_close (h : m.get x = some e) : Shrinks m (m.insert x { e with inbound := false }) :=
    by
  refine ⟨fun e' he' => ?_, fun y c hc => ?_⟩
  · rcases Map.mem_of_insert _ he' with rfl | he'
    · exact ⟨(x, e), m.mem_of_get h, rfl⟩
    · exact ⟨e', he', rfl⟩
  rw [Map.get_insert] at hc
  split at hc
  next hyx =>
    rw [hyx, h]
    exact hc
  · exact hc

theorem shrinks_retain (m p) : Shrinks m (m.retain p) := by
  refine ⟨fun e he => ⟨e, m.mem_of_retain he, rfl⟩, fun y c hc => ?_⟩
  rw [Map.get_retain] at hc
  obtain ⟨e, he, rfl⟩ := map_eq_some_iff.mp hc
  rw [(filter_eq_some_iff.mp he).1]
  rfl

theorem shrinks_empty (m) : Shrinks m .empty :=
  ⟨nofun, nofun⟩

/-! ## Charging -/

section
variable (hb : Books cfg s) (hT : cfg.tree.Layout)
include hb hT

theorem Books.charge (hown : Own cfg s b) (data) :
    (∃ p l, (∀ streams, ({ s with streams } : State).charge cfg b data =
        some (.ok p, { s with streams, levels := l })) ∧
      Charged cfg s l (s.permits ++ [p]) ∧
      Charged cfg s (refundPermit cfg.tree l p.budget p.remaining p.generation) s.permits) ∨
    ∃ scope l, (∀ streams, ({ s with streams } : State).charge cfg b data =
        some (.error scope, { s with streams, levels := l })) ∧ Charged cfg s l s.permits := by
  obtain ⟨⟨r, l⟩, hr, htracked⟩ :=
    @BudgetBooks.Sound.track _ _ _ hb.sound hT b data.length hown.stream hown.size hown.kept
  obtain ⟨hfades, hdropped⟩ :=
    @fades_of_track _ (source cfg) _ s.opened _ _ _ hb.sound hT hb.permits
    hown.stream hown.size hown.kept (fun _ => hown.opened) _ _ hr
  have hcharge (streams) : ({ s with streams } : State).charge cfg b data =
      some (r, { s with streams, levels := l }) := by
    rw [State.charge, hr]
    rfl
  cases r with
  | error scope => exact .inr ⟨scope, l, hcharge, htracked, hb.permits, hdropped, hfades⟩
  | ok p =>
    have hp : p.budget = b := (BudgetBooks.trackLoop_permit hr).1
    have hquiet := htracked.refundPermit_quiet hT
      (mem_append_right _ (mem_singleton_self p)) (Nat.le_refl p.remaining)
    have hdrop := BudgetBooks.Sound.dropPermit htracked hT
    rw [append_nil] at hdrop
    refine .inl ⟨p, l, hcharge, ⟨htracked, fun q hq hparent => ?_, hdropped, hfades⟩,
      ⟨hdrop, hb.permits, hquiet.dropped.trans hdropped, hfades.trans (fades_of_quiet hquiet)⟩⟩
    rcases mem_append.mp hq with hq | hq
    · exact hb.permits q hq hparent
    rw [mem_singleton.mp hq, hp]
    exact hown.opened

variable {data : List UInt8}

theorem Books.statusKeep
    (h : s.statusKeep cfg x data room = some s') : Moves cfg s s' := by
  have hsame : Moves cfg s s := hb.charged.moves (.refl _) rfl rfl rfl
  unfold State.statusKeep at h
  split at h
  · cases h
    exact hsame
  rename_i e he
  split at h
  · cases h
    exact hsame
  have hown := hb.own (x, e) (s.streams.mem_of_get he)
  rcases hb.charge hT hown data with ⟨p, l, hcharge, hkeep, hdrop⟩ | ⟨_, l, hcharge, hl⟩
  · rw [hcharge] at h
    dsimp only at h
    split at h
    · cases h
      exact Charged.moves hdrop (shrinks_close he) rfl rfl rfl
    split at h <;> cases h
    · exact Charged.moves hkeep (.refl _) rfl rfl rfl
    exact Charged.moves hdrop (shrinks_remove _ _) rfl rfl rfl
  rw [hcharge] at h
  cases h
  exact Charged.moves hl (shrinks_remove _ _) rfl rfl rfl

theorem Books.statusEnd
    (h : s.statusEnd cfg x data hasError room = some s') : Moves cfg s s' := by
  unfold State.statusEnd at h
  split at h
  · cases h
    exact hb.charged.moves (.refl _) rfl rfl rfl
  rename_i e he
  have hown := hb.own (x, e) (s.streams.mem_of_get he)
  dsimp only at h
  split at h
  · cases h
    exact Charged.moves hb.charged (shrinks_remove _ _) rfl rfl rfl
  rcases hb.charge hT hown data with ⟨p, l, hcharge, hkeep, hdrop⟩ | ⟨_, l, hcharge, hl⟩
  · rw [hcharge] at h
    dsimp only at h
    split at h
    · cases h
      exact Charged.moves hdrop (shrinks_remove _ _) rfl rfl rfl
    split at h <;> cases h
    · exact Charged.moves hkeep (shrinks_remove _ _) rfl rfl rfl
    exact Charged.moves hdrop (shrinks_remove _ _) rfl rfl rfl
  rw [hcharge] at h
  cases h
  exact Charged.moves hl (shrinks_remove _ _) rfl rfl rfl

end

theorem endSession_eq (s : State) (e) :
    ∃ terminal, s.endSession e = { s with terminal, streams := .empty, running := false } := by
  unfold State.endSession
  generalize s.streams.entries = entries
  induction entries generalizing s with
  | nil => exact ⟨_, rfl⟩
  | cons entry entries ih => exact ih (s.sendTerminal entry.2.budget (.failed e))

theorem Books.endSession (hb : Books cfg s) (e) : Moves cfg s (s.endSession e) := by
  obtain ⟨_, hend⟩ := endSession_eq s e
  rw [hend]
  exact Charged.moves hb.charged (shrinks_empty _) rfl rfl rfl

/-! ## Opening a stream -/

theorem own_of_fresh (h : fresh cfg s x b = true) :
    Own cfg { s with opened := b :: s.opened } b ∧ (source cfg).name b = some x := by
  unfold fresh at h
  simp only [and_eq_true, beq_iff_eq, decide_eq_true_eq, not_eq_true'] at h
  obtain ⟨⟨⟨⟨hsize, hparent⟩, heviction⟩, -⟩, hkept⟩ := h
  refine ⟨⟨hsize, hparent, by rw [Tree.isStream, heviction]; rfl, hkept, mem_cons_self ..⟩, ?_⟩
  show (cfg.tree.eviction b).map UInt32.toUInt16 = some x
  rw [heviction, map_some, UInt16.toUInt16_toUInt32]

theorem Books.open (hb : Books cfg s) (b) :
    Books cfg { s with streams := s.reclaimed, opened := b :: s.opened } where
  sound := hb.sound
  permits := fun p hp hparent => mem_cons_of_mem _ (hb.permits p hp hparent)
  own := fun e he =>
    have hown := hb.own e (s.streams.mem_of_retain he)
    ⟨hown.size, hown.parent, hown.stream, hown.kept, mem_cons_of_mem _ hown.opened⟩

/-- What a New leaves: the session has ended; or the stream was opened, and is in the table if its
data was taken. -/
theorem statusNew_cases (hb : Books cfg s) (hT : cfg.tree.Layout) (hfresh : fresh cfg s x b = true)
    (h : s.statusNew cfg x b data room = some s') : Moves cfg s s' ∨ (s.reclaimed.get x = none ∧
      Charged cfg { s with streams := s.reclaimed, opened := b :: s.opened } s'.levels s'.permits ∧
      s'.opened = b :: s.opened ∧ s'.heard = s.heard ∧ s'.terminated = s.terminated ∧
      (s'.streams = s.reclaimed ∨ s'.streams = s.reclaimed.insert x ⟨b, true⟩)) := by
  have hends (e : IoError) :
      Moves cfg s (({ s with streams := s.reclaimed } : State).endSession e) := by
    obtain ⟨_, hend⟩ := endSession_eq { s with streams := s.reclaimed } e
    rw [hend]
    exact Charged.moves hb.charged (shrinks_empty _) rfl rfl rfl
  unfold State.statusNew at h
  dsimp only at h
  split at h
  · cases h
    exact .inl (hends _)
  rename_i hcontains
  have hnone : s.reclaimed.get x = none := by simpa [Map.contains] using hcontains
  split at h
  · cases h
    exact .inl (hends _)
  have hb₂ := hb.open b
  obtain ⟨hown, -⟩ := own_of_fresh hfresh
  have hown₂ : Own cfg { s with streams := s.reclaimed, opened := b :: s.opened } b :=
    { hown with }
  refine .inr ⟨hnone, ?_⟩
  split at h
  · cases h
    exact ⟨hb₂.charged, rfl, rfl, rfl, .inr rfl⟩
  rcases hb₂.charge hT hown₂ data with
    ⟨p, l, hcharge, hkeep, hdrop⟩ | ⟨scope, l, hcharge, hl⟩
  · rw [hcharge] at h
    dsimp only at h
    split at h <;> cases h
    · exact ⟨hkeep, rfl, rfl, rfl, .inr rfl⟩
    exact ⟨hdrop, rfl, rfl, rfl, .inl rfl⟩
  rw [hcharge] at h
  cases h
  exact ⟨hl, rfl, rfl, rfl, .inl rfl⟩

theorem Books.statusNew (hb : Books cfg s) (hT : cfg.tree.Layout) (hfresh : fresh cfg s x b = true)
    (h : s.statusNew cfg x b data room = some s') : Books cfg s' := by
  rcases statusNew_cases hb hT hfresh h with hmoves | ⟨-, hcharged, hopened, -, -, hstreams⟩
  · exact hb.moves hmoves
  have hown (c : Nat)
      (hc : Own cfg { s with streams := s.reclaimed, opened := b :: s.opened } c) :
      Own cfg s' c :=
    ⟨hc.size, hc.parent, hc.stream, by rw [hcharged.dropped]; exact hc.kept,
      by rw [hopened]; exact hc.opened⟩
  have hold : ∀ e ∈ s.reclaimed.entries, Own cfg s' e.2.budget := fun e he =>
    hown _ ((hb.open b).own e he)
  refine ⟨hcharged.sound, by rw [hopened]; exact hcharged.permits, fun e he => ?_⟩
  rcases hstreams with hstreams | hstreams
  · rw [hstreams] at he
    exact hold e he
  rw [hstreams] at he
  rcases Map.mem_of_insert _ he with rfl | he
  · obtain ⟨hb, -⟩ := own_of_fresh hfresh
    exact hown b { hb with }
  · exact hold e he

/-! ## Notices -/

/-- What is said of a state here. -/
def Notified (cfg : Setup) (s : State) : Prop :=
  Addresses (source cfg) s.levels (table s) s.opened s.heard s.terminated

/-- Nobody that had the id of a stream that is opened is due any more. -/
def reopens (cfg : Setup) (s : State) : Action → Bool
  | .statusNew x _ _ _ => settled (source cfg) s.levels s.opened s.heard x
  | _ => true

theorem Notified.moves (h : Notified cfg s) (hmoves : Moves cfg s s') : Notified cfg s' := by
  unfold Notified
  rw [hmoves.opened, hmoves.heard, hmoves.terminated]
  exact Addresses.fade h hmoves.fades hmoves.streams.names

theorem Notified.statusNew (h : Notified cfg s) (hb : Books cfg s) (hT : cfg.tree.Layout)
    (hfresh : fresh cfg s x b = true)
    (hsettled : settled (source cfg) s.levels s.opened s.heard x = true)
    (hnew : s.statusNew cfg x b data room = some s') : Notified cfg s' := by
  rcases statusNew_cases hb hT hfresh hnew with
    hmoves | ⟨hnone, hcharged, hopened, hheard, hterminated, hstreams⟩
  · exact h.moves hmoves
  obtain ⟨-, hname⟩ := own_of_fresh hfresh
  have hshrinks : Shrinks s.streams s.reclaimed := shrinks_retain _ _
  unfold Notified
  rw [hopened, hheard, hterminated]
  rcases hstreams with hstreams | hstreams
  · have hreclaimed := Addresses.fade h (fades_of_quiet (.refl _)) hshrinks.names
    refine (hreclaimed.open hname (by rw [hnone]; rfl)).fade hcharged.fades fun y c hc => ?_
    rw [table, hstreams] at hc
    exact hc
  refine Addresses.fade (Addresses.enter h hname hsettled ?_ fun y c hy hc => ?_)
    hcharged.fades fun _ _ hc => hc
  · rw [table, hstreams, Map.get_insert_self]
    rfl
  rw [table, hstreams, Map.get_insert_ne _ hy] at hc
  exact hshrinks.names y c hc

theorem hear_cases (h : s.hear cfg = some s') :
    ∃ c scope x, (notices (source cfg) s.levels)[s.heard]? = some (c, scope) ∧
      (source cfg).name c = some x ∧ s'.heard = s.heard + 1 ∧ s'.opened = s.opened ∧
      s'.levels = s.levels ∧ s'.permits = s.permits ∧ Shrinks s.streams s'.streams ∧
      s'.terminated = ends (table s) c x s.terminated := by
  unfold State.hear at h
  split at h
  · cases h
  rename_i c scope hc
  split at h <;> cases h
  rename_i x hx
  refine ⟨c, scope, x, hc, hx, ?_⟩
  unfold ends table
  cases he : s.streams.get x with
  | none => exact ⟨rfl, rfl, rfl, rfl, .refl _, rfl⟩
  | some => exact ⟨rfl, rfl, rfl, rfl, shrinks_remove _ _, rfl⟩

theorem Books.hear (hb : Books cfg s) (h : s.hear cfg = some s') : Books cfg s' := by
  obtain ⟨c, _, x, -, -, -, hopened, hlevels, hpermits, hstreams, -⟩ := hear_cases h
  refine ⟨by rw [hlevels, hpermits]; exact hb.sound, by rw [hopened, hpermits]; exact hb.permits,
    fun e he => ?_⟩
  obtain ⟨e₀, he₀, hbudget⟩ := hstreams.members e he
  have hown := hb.own e₀ he₀
  rw [hbudget]
  exact ⟨hown.size, hown.parent, hown.stream, by rw [hlevels]; exact hown.kept,
    by rw [hopened]; exact hown.opened⟩

theorem Notified.hear (h : Notified cfg s) (hhear : s.hear cfg = some s') : Notified cfg s' := by
  obtain ⟨c, _, x, hc, hx, hheard, hopened, hlevels, -, hstreams, hterminated⟩ :=
    hear_cases hhear
  unfold Notified
  rw [hheard, hopened, hlevels, hterminated]
  exact Addresses.hear h hc hx hstreams.names

/-! ## Permits and other sessions -/

theorem aside_charges {a} (ha : isAside cfg a = true) :
    BudgetBooks.ChargesStream cfg.tree a = true := by
  cases a with
  | tryTrack | track | evictStalled => exact (and_eq_true_iff.mp ha).2
  | release | dropPermit | dropBudget => rfl

theorem foreign_parent (h : isForeign cfg i = true) : cfg.tree.parent i ≠ some cfg.session := by
  unfold isForeign at h
  simp only [and_eq_true, bne_iff_ne] at h
  exact h.2

theorem aside_foreign {a i} (ha : isAside cfg a = true)
    (hi : a.charged = some i) : cfg.tree.parent i ≠ some cfg.session := by
  cases a with
  | tryTrack | track =>
    cases hi
    exact foreign_parent (and_eq_true_iff.mp ha).1
  | _ => cases hi

theorem Books.aside (hb : Books cfg s) (hT : cfg.tree.Layout) {a bk} (ha : isAside cfg a = true)
    (hbk : BudgetBooks.next cfg.tree ⟨s.levels, s.permits⟩ a = some bk) :
    Moves cfg s { s with levels := bk.levels, permits := bk.permits } := by
  have hsound := BudgetBooks.Sound.next hb.sound hT (aside_charges ha) hbk
  have hpermits : Opened (source cfg) s.opened bk.permits := by
    intro p hp hparent
    rcases BudgetBooks.next_permits hbk p hp with ⟨p₀, hp₀, hbudget⟩ | hcharged
    · rw [hbudget] at hparent ⊢
      exact hb.permits p₀ hp₀ hparent
    · exact absurd hparent (aside_foreign ha hcharged)
  have hcharged (hdropped : bk.levels.dropped = s.levels.dropped)
      (hfades : Fades (source cfg) s.opened s.levels bk.levels) :
      Moves cfg s { s with levels := bk.levels, permits := bk.permits } :=
    Charged.moves ⟨hsound, hpermits, hdropped, hfades⟩ (.refl _) rfl rfl rfl
  have hquiet (hq : a.isQuiet = true) :
      Moves cfg s { s with levels := bk.levels, permits := bk.permits } := by
    have hquiet := BudgetBooks.Sound.next_quiet hb.sound hT hq hbk
    exact hcharged hquiet.dropped (fades_of_quiet hquiet)
  cases a with
  | tryTrack | release | dropPermit => exact hquiet rfl
  | track i length =>
    obtain ⟨hforeign, hstream⟩ := and_eq_true_iff.mp ha
    obtain ⟨husable, hbk⟩ := ite_none_right_eq_some.mp hbk
    obtain ⟨hi, hkept⟩ := BudgetBooks.usable_iff.mp husable
    have hmoves {r : Except Scope Permit × Levels}
        (hr : track cfg.tree (s.permits.length + 1) s.levels i length = some r) :=
      @fades_of_track _ (source cfg) _ s.opened _ _ _ hb.sound hT hb.permits hstream hi hkept
        (fun hparent => absurd hparent (foreign_parent hforeign)) _ _ hr
    split at hbk <;> cases hbk
    next hok =>
      exact hcharged (hmoves hok).2 (hmoves hok).1
    rename_i herror
    exact hcharged (hmoves herror).2 (hmoves herror).1
  | evictStalled i blocked scope =>
    obtain ⟨hforeign, hstream⟩ := and_eq_true_iff.mp ha
    obtain ⟨husable, hbk⟩ := ite_none_right_eq_some.mp hbk
    obtain ⟨_, hkept⟩ := BudgetBooks.usable_iff.mp (and_eq_true_iff.mp husable).1
    cases hbk
    exact hcharged (BudgetBooks.evictStalled_registry ..).1
      (@fades_of_evictStalled _ (source cfg) _ _ _ _ _ hb.sound hT hb.permits hstream hkept
        (fun hparent => absurd hparent (foreign_parent hforeign)) blocked scope)
  | dropBudget i =>
    obtain ⟨-, ⟨⟩⟩ := ite_none_right_eq_some.mp hbk
    refine ⟨hsound, hpermits, fun b hown _ => ?_, fades_of_dropBudget .., .refl _, rfl, rfl, rfl⟩
    have hne : b ≠ i := fun heq => foreign_parent ha (heq ▸ hown.parent)
    exact (BudgetBooks.dropBudget_dropped s.levels hne).trans hown.kept

theorem Books.dropBudget (hb : Books cfg s)
    (hunowned : BudgetBooks.unowned cfg.tree ⟨s.levels, s.permits⟩ b = true)
    (hholds : holdsBudget s b = false) :
    Moves cfg s { s with levels := dropBudget cfg.tree s.levels b } := by
  refine ⟨hb.sound.dropBudget hunowned, hb.permits, fun c hown hc => ?_, fades_of_dropBudget ..,
    .refl _, rfl, rfl, rfl⟩
  · have hne : c ≠ b := by
      intro heq
      rw [heq, hholds] at hc
      cases hc
    exact (BudgetBooks.dropBudget_dropped s.levels hne).trans hown.kept

/-! ## Runs -/

theorem Notified.next (h : Notified cfg s) (hb : Books cfg s) (hT : cfg.tree.Layout)
    (hsettled : reopens cfg s a = true) (hnext : next cfg s a = some s') :
    Books cfg s' ∧ Notified cfg s' := by
  have hmoves (hm : Moves cfg s s') : Books cfg s' ∧ Notified cfg s' := ⟨hb.moves hm, h.moves hm⟩
  cases a with
  | statusNew =>
    obtain ⟨⟨-, hfresh⟩, hnew⟩ := ite_none_right_eq_some.mp hnext
    exact ⟨hb.statusNew hT hfresh hnew, h.statusNew hb hT hfresh hsettled hnew⟩
  | statusKeep =>
    obtain ⟨-, hkeep⟩ := ite_none_right_eq_some.mp hnext
    exact hmoves (hb.statusKeep hT hkeep)
  | statusEnd =>
    obtain ⟨-, hend⟩ := ite_none_right_eq_some.mp hnext
    exact hmoves (hb.statusEnd hT hend)
  | endSession e =>
    obtain ⟨-, ⟨⟩⟩ := ite_none_right_eq_some.mp hnext
    exact hmoves (hb.endSession e)
  | notice =>
    obtain ⟨-, hhear⟩ := ite_none_right_eq_some.mp hnext
    exact ⟨hb.hear hhear, h.hear hhear⟩
  | dropReader =>
    cases hnext
    exact hmoves (Charged.moves hb.charged (.refl _) rfl rfl rfl)
  | books =>
    obtain ⟨ha, hbooks⟩ := ite_none_right_eq_some.mp hnext
    obtain ⟨_, hbk, rfl⟩ := map_eq_some_iff.mp hbooks
    exact hmoves (hb.aside hT ha hbk)
  | dropBudget =>
    obtain ⟨⟨-, hunowned, hholds, -⟩, ⟨⟩⟩ := ite_none_right_eq_some.mp hnext
    exact hmoves (hb.dropBudget hunowned hholds)

theorem Books.new (cfg) : Books cfg .new where
  sound := BudgetBooks.Sound.new cfg.tree
  permits := nofun
  own := nofun

theorem Notified.new (cfg) : Notified cfg .new := Addresses.new (source cfg)

end

/-- **Evictions hit their own stream.** In every run of a smux session in which a SYN only uses the
id of earlier streams that can no longer be evicted and of whose evictions the session has heard,
every notice that ends a stream ends the one whose budget was evicted; and so it is in every run of
a Mux.Cool session, with New in the place of SYN. -/
theorem notices_end_own_streams (smux : SmuxReceive.Setup) (cfg : Setup) (hsmux : smux.tree.Layout)
    (hT : cfg.tree.Layout) : (∀ (actions : List SmuxReceive.Action) (s : SmuxReceive.State),
      Lib.Machine.Throughout (SmuxReceive.next smux)
        (fun s a => SmuxNotices.reopens smux s a = true) .new actions →
      run (SmuxReceive.next smux) .new actions = some s →
      ∀ t ∈ s.terminated, t.1 = t.2) ∧ ∀ (actions : List Action) (s : State),
      Lib.Machine.Throughout (next cfg) (fun s a => reopens cfg s a = true) .new actions →
      run (next cfg) .new actions = some s →
      ∀ t ∈ s.terminated, t.1 = t.2 := by
  refine ⟨fun actions s hreopens hrun => ?_, fun actions s hreopens hrun => ?_⟩
  · obtain ⟨-, hnotified⟩ := @run_invariant _ _ _ _
      (fun s => SmuxBooks.Books smux s ∧ SmuxNotices.Notified smux s)
      (fun s a s' ha hi hnext => ⟨(hi.1.next hsmux hnext).1, hi.2.next hi.1 hsmux ha hnext⟩)
      actions _ s hreopens ⟨SmuxBooks.Books.new smux, SmuxNotices.Notified.new smux⟩ hrun
    exact hnotified.own
  obtain ⟨-, hnotified⟩ := @run_invariant _ _ _ _ (fun s => Books cfg s ∧ Notified cfg s)
    (fun s a s' ha hi hnext => hi.2.next hi.1 hT ha hnext)
    actions _ s hreopens ⟨Books.new cfg, Notified.new cfg⟩ hrun
  exact hnotified.own

/-- One session with three streams, of which the last has the id of the first. -/
def reusedId : Tree where
  size := 5
  parent := fun i => if i = 1 then some 0 else if i = 2 ∨ i = 3 ∨ i = 4 then some 1 else none
  parent_lt := by
    intro i p h
    split_ifs at h <;> cases h <;> omega
  max := fun i => if i = 0 then 10 else if i = 1 then 8 else 6
  eviction := fun i => if i = 2 ∨ i = 4 then some 7 else if i = 3 then some 9 else none

theorem reusedId_layout : reusedId.Layout where
  fits := by
    intro i
    unfold reusedId
    dsimp only
    split_ifs <;> decide
  leaves := by
    intro i p h
    unfold reusedId at h
    dsimp only at h
    split_ifs at h <;> cases h <;> rfl

/-- The second stream drives out the first, and then the one that has its id. -/
def smuxReuse : List SmuxReceive.Action :=
  [.syn 7 2, .psh 7 [1, 2, 3, 4, 5, 6], .deliver, .reserve true, .syn 9 3, .psh 9 [7, 8, 9],
    .deliver, .deliver, .grace, .deliver, .reserve true, .notice, .syn 7 4,
    .psh 7 [1, 2, 3, 4, 5], .deliver, .reserve true, .psh 9 [6], .deliver, .deliver, .grace,
    .deliver, .reserve true, .notice]

def muxCoolReuse : List Action :=
  [.statusNew 7 2 [1, 2, 3, 4, 5, 6] true, .statusNew 9 3 [7, 8, 9] true, .notice,
    .statusNew 7 4 [1, 2, 3, 4, 5] true, .statusKeep 9 [6] true, .notice]

theorem notices_end_own_streams_reused :
    (∃ s, run (SmuxReceive.next ⟨reusedId, 1, 1, 4, 30⟩) .new smuxReuse = some s ∧
      s.terminated = [(4, 4), (2, 2)] ∧ ∀ t ∈ s.terminated, t.1 = t.2) ∧
    ∃ s, run (next ⟨reusedId, 1, 4⟩) .new muxCoolReuse = some s ∧
      s.terminated = [(4, 4), (2, 2)] ∧ ∀ t ∈ s.terminated, t.1 = t.2 := by
  have hown := notices_end_own_streams ⟨reusedId, 1, 1, 4, 30⟩ ⟨reusedId, 1, 4⟩ reusedId_layout
    reusedId_layout
  refine ⟨⟨_, rfl, rfl, ?_⟩, _, rfl, rfl, ?_⟩
  · exact hown.1 smuxReuse _ (by decide +kernel) rfl
  · exact hown.2 muxCoolReuse _ (by decide +kernel) rfl

/-- Two streams that have the same id, one after the other. -/
def sameId : Tree :=
  { BudgetBooks.smallTree with eviction := fun i => if i = 2 ∨ i = 3 then some 7 else none }

/-- **A notice ends the wrong stream.** The first stream has ended and is not read; the second uses
its id. The first is evicted to make room for the second, and the notice ends the second. -/
theorem notice_ends_next_stream : (∃ s, run (SmuxReceive.next ⟨sameId, 1, 1, 4, 30⟩) .new
        [.syn 7 2, .psh 7 [1, 2, 3, 4, 5], .deliver, .reserve true, .fin 7, .syn 7 3,
          .psh 7 [6, 7, 8, 9], .deliver, .deliver, .grace, .deliver, .reserve true, .notice] =
          some s ∧
      s.levels.isEvicted 2 = true ∧ s.levels.isEvicted 3 = false ∧ s.terminated = [(2, 3)] ∧
      (s.streams.get 7).isNone = true) ∧ ∃ s, run (next ⟨sameId, 1, 4⟩) .new
        [.statusNew 7 2 [1, 2, 3, 4, 5] true, .statusEnd 7 [] false true,
          .statusNew 7 3 [6, 7, 8, 9] true, .notice] = some s ∧
      s.levels.isEvicted 2 = true ∧ s.levels.isEvicted 3 = false ∧ s.terminated = [(2, 3)] ∧
      (s.streams.get 7).isNone = true :=
  ⟨⟨_, rfl, rfl, rfl, rfl, rfl⟩, _, rfl, rfl, rfl, rfl, rfl⟩

end Shoes.Transport.MuxCoolSession
