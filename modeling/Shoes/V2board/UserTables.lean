import Shoes.Lib.Machine
import Mathlib.Logic.Function.Basic

/-! # User tables and their transactions

The listeners of a node read their users through handles that stay the same while the users change.
A transaction hands out the handle at once and publishes the users when it is committed, one protocol
after the other. Each step below is what happens under one lock, or one `store`. -/
namespace Shoes.V2board.UserTables
open Function Option Lib.Machine

inductive Protocol
  | shadowsocks
  | vless
  | vmess
  | trojan
  | anytls
  | tuic
  | hysteria2
  | naiveproxy
  deriving DecidableEq

def protocols : List Protocol :=
  [.shadowsocks, .vless, .vmess, .trojan, .anytls, .tuic, .hysteria2, .naiveproxy]

/-- An `Arc<SharedUsers<T>>`, which is the same for all its clones. -/
abbrev Handle := Nat

structure PreparedTable (U : Type) where
  shared : Handle
  pending : Option U
  install : Bool
  deriving DecidableEq

/-- How far a transaction is. While `commit` runs there are tables left; a table may have been stored
and wait for being installed. -/
inductive Phase
  | idle
  | «open»
  | committing (todo : List Protocol)
  | installing (protocol : Protocol) (todo : List Protocol)
  deriving DecidableEq

/-- `published` records the users that were published last into the transaction. -/
structure Txn (U : Type) where
  pending : Protocol → Option (PreparedTable U)
  phase : Phase
  published : Protocol → Option U

/-- A direct publication: it has found the slot empty and waits for the lock, or it has found the
handle to store into. -/
inductive Stage
  | writing
  | storing (shared : Handle)
  deriving DecidableEq

structure Publication (U : Type) where
  protocol : Protocol
  users : U
  stage : Stage
  deriving DecidableEq

/-- `latest` records the users that were published last, by a direct publication or a commit, and
`listeners` the handles of transactions that were committed. -/
structure State (U : Type) where
  slots : Protocol → Option Handle
  heap : Handle → Option (Protocol × U)
  txns : Nat → Txn U
  calls : Nat → Option (Publication U)
  latest : Protocol → Option U
  listeners : List (Protocol × Handle)

/-- A step that may create a handle names one that is not in use. -/
inductive Action (U : Type)
  | begin (txn : Nat)
  | txnPublish (txn : Nat) (protocol : Protocol) (users : U) (fresh : Handle)
  | commit (txn : Nat)
  | commitNext (txn : Nat)
  | drop (txn : Nat)
  | publish (call : Nat) (protocol : Protocol) (users : U)
  | publishNext (call : Nat) (fresh : Handle)

section
variable {U : Type}

def Txn.new : Txn U := ⟨fun _ => none, .open, fun _ => none⟩

namespace State

def new : State U where
  slots _ := none
  heap _ := none
  txns _ := ⟨fun _ => none, .idle, fun _ => none⟩
  calls _ := none
  latest _ := none
  listeners := []

section
variable (s : State U)

def setTxn (t : Nat) (txn : Txn U) : State U :=
  { s with txns := update s.txns t txn }

def setCall (i : Nat) (call : Option (Publication U)) : State U :=
  { s with calls := update s.calls i call }

/-- `SharedUsers::store`, and also `SharedUsers::new` for a handle that is not in use. -/
def store (p : Protocol) (shared : Handle) (users : U) : State U :=
  { s with heap := update s.heap shared (some (p, users)) }

def fill (p : Protocol) (shared : Handle) : State U :=
  { s with slots := update s.slots p (some shared) }

def isLatest (p : Protocol) (users : Option U) : State U :=
  { s with latest := update s.latest p users }

def listen (p : Protocol) (shared : Handle) : State U :=
  { s with listeners := (p, shared) :: s.listeners }

end

end State

section
variable (s : State U)

/-- A slot's table as a reader finds it. -/
def State.live (p : Protocol) : Option (Handle × Option (Protocol × U)) :=
  (s.slots p).map fun h => (h, s.heap h)

def prepare (p : Protocol) (users : U) (fresh : Handle) : Option (PreparedTable U × State U) :=
  match s.slots p with
  | some shared => some (⟨shared, some users, false⟩, s)
  | none =>
    if (s.heap fresh).isNone then some (⟨fresh, none, true⟩, s.store p fresh users) else none

def Txn.prepared (txn : Txn U) (p : Protocol) (prepared : Option (PreparedTable U)) : Txn U :=
  { txn with pending := update txn.pending p prepared }

def Txn.publishes (txn : Txn U) (p : Protocol) (users : U) : Txn U :=
  { txn with published := update txn.published p (some users) }

def txnPublish (t : Nat) (p : Protocol) (users : U) (fresh : Handle) : Option (State U) :=
  let txn := s.txns t
  match txn.pending p with
  | some existing =>
    some (s.setTxn t ((txn.prepared p (some { existing with pending := some users })).publishes p
      users))
  | none =>
    (prepare s p users fresh).map fun r =>
      r.2.setTxn t ((txn.prepared p (some r.1)).publishes p users)

def storePending (p : Protocol) (prepared : PreparedTable U) : State U :=
  match prepared.pending with
  | some users => s.store p prepared.shared users
  | none => s

/-- `commit_table` up to the installation. -/
def commitTable (t : Nat) (p : Protocol) (todo : List Protocol) : State U :=
  let txn := s.txns t
  match txn.pending p with
  | none => s.setTxn t { txn with phase := .committing todo }
  | some prepared =>
    let s := storePending s p prepared
    if prepared.install then
      s.setTxn t { txn.prepared p (some { prepared with pending := none }) with
        phase := .installing p todo }
    else
      ((s.setTxn t { txn.prepared p none with phase := .committing todo }).isLatest p
        (txn.published p)).listen p prepared.shared

/-- `TableSlot::install`: a slot that is taken stays as it is. -/
def install (t : Nat) (p : Protocol) (todo : List Protocol) : State U :=
  let txn := s.txns t
  match txn.pending p with
  | none => s.setTxn t { txn with phase := .committing todo }
  | some prepared =>
    let s := match s.slots p with
      | none => s.fill p prepared.shared
      | some _ => s
    ((s.setTxn t { txn.prepared p none with phase := .committing todo }).isLatest p
      (txn.published p)).listen p prepared.shared

/-- The second half of `TableSlot::publish`. -/
def publishNext (i : Nat) (call : Publication U) (fresh : Handle) : Option (State U) :=
  match call.stage with
  | .storing shared =>
    some (((s.store call.protocol shared call.users).isLatest call.protocol
      (some call.users)).setCall i none)
  | .writing =>
    match s.slots call.protocol with
    | some shared => some (s.setCall i (some { call with stage := .storing shared }))
    | none =>
      if (s.heap fresh).isNone then
        some ((((s.store call.protocol fresh call.users).fill call.protocol fresh).isLatest
          call.protocol (some call.users)).setCall i none)
      else none

def next : Action U → Option (State U)
  | .begin t => if (s.txns t).phase = .idle then some (s.setTxn t .new) else none
  | .txnPublish t p users fresh =>
    if (s.txns t).phase = .open then txnPublish s t p users fresh else none
  | .commit t =>
    if (s.txns t).phase = .open then
      some (s.setTxn t { s.txns t with phase := .committing protocols })
    else none
  | .commitNext t =>
    match (s.txns t).phase with
    | .committing [] => some (s.setTxn t { s.txns t with phase := .idle })
    | .committing (p :: todo) => some (commitTable s t p todo)
    | .installing p todo => some (install s t p todo)
    | _ => none
  | .drop t =>
    if (s.txns t).phase = .open then some (s.setTxn t { Txn.new with phase := .idle }) else none
  | .publish i p users =>
    match s.calls i with
    | some _ => none
    | none =>
      match s.slots p with
      | some shared => some (s.setCall i (some ⟨p, users, .storing shared⟩))
      | none => some (s.setCall i (some ⟨p, users, .writing⟩))
  | .publishNext i fresh =>
    match s.calls i with
    | none => none
    | some call => publishNext s i call fresh

/-- A table that was prepared for an empty slot finds it empty. -/
def uncontested : Action U → Bool
  | .commitNext t =>
    match (s.txns t).phase with
    | .installing p _ => (s.slots p).isNone
    | _ => true
  | _ => true

end

/-- What a transaction does before it is committed. -/
def Action.deferred : Action U → Bool
  | .begin _ => true
  | .txnPublish _ _ _ _ => true
  | .drop _ => true
  | _ => false

/-! ## What holds between the steps -/

/-- A table of a transaction. One for a handle that is in its slot has its users still to be stored;
one for a new handle is not visible. -/
structure PreparedTable.Ok (s : State U) (txn : Txn U) (p : Protocol) (prepared : PreparedTable U) :
    Prop where
  typed : ∃ users, s.heap prepared.shared = some (p, users)
  live : prepared.install = false → s.slots p = some prepared.shared ∧
    ∃ users, prepared.pending = some users ∧ txn.published p = some users
  hidden : prepared.install = true → ∀ p', s.slots p' ≠ some prepared.shared
  last : prepared.install = true → ∃ users, txn.published p = some users ∧
    (prepared.pending = some users ∨
      (prepared.pending = none ∧ s.heap prepared.shared = some (p, users)))

structure Sound (s : State U) : Prop where
  slots : ∀ p h, s.slots p = some h → ∃ users, s.heap h = some (p, users) ∧ s.latest p = some users
  txns : ∀ t p prepared, (s.txns t).pending p = some prepared → prepared.Ok s (s.txns t) p
  stored : ∀ t p todo, (s.txns t).phase = .installing p todo →
    ∀ prepared, (s.txns t).pending p = some prepared →
      prepared.install = true ∧ prepared.pending = none
  apart : ∀ t t' p prepared prepared', (s.txns t).pending p = some prepared →
    (s.txns t').pending p = some prepared' → prepared.install = true → prepared'.install = true →
    prepared.shared = prepared'.shared → t = t'
  calls : ∀ i call shared, s.calls i = some call → call.stage = .storing shared →
    s.slots call.protocol = some shared
  listeners : ∀ p h, (p, h) ∈ s.listeners → s.slots p = some h

theorem sound_new : Sound (.new : State U) where
  slots _ _ h := by cases h
  txns _ _ _ h := by cases h
  stored _ _ _ h := by cases h
  apart _ _ _ _ _ h := by cases h
  calls _ _ _ h := by cases h
  listeners _ _ h := by cases h

variable {s s' : State U}

variable {prepared : PreparedTable U}

theorem PreparedTable.Ok.transfer {txn txn' p} (h : prepared.Ok s txn p)
    (hpublished : txn'.published p = txn.published p) (hslots : s'.slots = s.slots)
    (hheap : s'.heap prepared.shared = s.heap prepared.shared) : prepared.Ok s' txn' p := by
  refine ⟨?_, ?_, ?_, ?_⟩
  · rw [hheap]
    exact h.typed
  · rw [hslots, hpublished]
    exact h.live
  · rw [hslots]
    exact h.hidden
  rw [hheap, hpublished]
  exact h.last

/-- A transaction changes its tables. They are as they must be, and no new handle of them is one of
another transaction. -/
theorem Sound.setTxn (h : Sound s) (t) {txn}
    (hok : ∀ p prepared, txn.pending p = some prepared → prepared.Ok s txn p)
    (hstored : ∀ p todo, txn.phase = .installing p todo → ∀ prepared,
      txn.pending p = some prepared → prepared.install = true ∧ prepared.pending = none)
    (hapart : ∀ t' p prepared prepared', t' ≠ t → txn.pending p = some prepared →
      (s.txns t').pending p = some prepared' → prepared.install = true →
      prepared'.install = true → prepared.shared ≠ prepared'.shared) : Sound (s.setTxn t txn) := by
  have hok' := (forall_update_iff (a := t) s.txns fun _ txn => ∀ p prepared,
    txn.pending p = some prepared → prepared.Ok s txn p).mpr ⟨hok, fun t' _ => h.txns t'⟩
  refine ⟨h.slots, fun t' p prepared hp => (hok' t' p prepared hp).transfer rfl rfl rfl, ?_, ?_,
    h.calls, h.listeners⟩
  · exact (forall_update_iff s.txns fun _ txn => ∀ p todo, txn.phase = .installing p todo →
      ∀ prepared, txn.pending p = some prepared → prepared.install = true ∧
        prepared.pending = none).mpr ⟨hstored, fun t' _ => h.stored t'⟩
  intro t₁ t₂ p prepared prepared' h₁ h₂ hi hi' hshared
  replace h₁ : (update s.txns t txn t₁).pending p = some prepared := h₁
  replace h₂ : (update s.txns t txn t₂).pending p = some prepared' := h₂
  by_cases ht₁ : t₁ = t
  · by_cases ht₂ : t₂ = t
    · rw [ht₁, ht₂]
    · rw [ht₁, update_self] at h₁
      rw [update_of_ne ht₂] at h₂
      exact absurd hshared (hapart t₂ p prepared prepared' ht₂ h₁ h₂ hi hi')
  rw [update_of_ne ht₁] at h₁
  by_cases ht₂ : t₂ = t
  · rw [ht₂, update_self] at h₂
    exact absurd hshared.symm (hapart t₁ p prepared' prepared ht₁ h₂ h₁ hi' hi)
  rw [update_of_ne ht₂] at h₂
  exact h.apart t₁ t₂ p prepared prepared' h₁ h₂ hi hi' hshared

theorem Sound.own (h : Sound s) (t) {p}
    (hp : (s.txns t).pending p = some prepared) (hi : prepared.install = true) {t' p' prepared'}
    (hp' : (s.txns t').pending p' = some prepared')
    (hne : t' ≠ t ∨ p' ≠ p) : prepared'.shared ≠ prepared.shared := by
  intro hshared
  have hok := h.txns t p prepared hp
  have hok' := h.txns t' p' prepared' hp'
  obtain ⟨_, htyped⟩ := hok.typed
  obtain ⟨_, htyped'⟩ := hok'.typed
  rw [hshared, htyped] at htyped'
  cases htyped'
  rcases hi' : prepared'.install with _ | _
  · exact hok.hidden hi p (hshared ▸ (hok'.live hi').1)
  have ht := h.apart t t' p prepared prepared' hp hp' hi hi' hshared.symm
  exact hne.elim (fun hne => hne ht.symm) fun hne => hne rfl

theorem Sound.setPhase (h : Sound s) (t) {phase} (hphase : ∀ p todo, phase ≠ .installing p todo) :
    Sound (s.setTxn t { s.txns t with phase := phase }) := by
  refine h.setTxn t ?_ (fun p todo he => absurd he (hphase p todo)) ?_
  · intro p prepared hp
    exact (h.txns t p prepared hp).transfer rfl rfl rfl
  intro t' p prepared prepared' ht hp hp' hi _ hshared
  exact h.own t hp hi hp' (.inl ht) hshared.symm

theorem Sound.setTable (h : Sound s) (t) {p table txn}
    (hpending : txn.pending = update (s.txns t).pending p table)
    (hpublished : ∀ p', p' ≠ p → txn.published p' = (s.txns t).published p')
    (hok : ∀ prepared, table = some prepared → prepared.Ok s txn p)
    (hphase : ∀ p' todo, txn.phase = .installing p' todo → p' = p ∧
      ∀ prepared, table = some prepared → prepared.install = true ∧ prepared.pending = none)
    (hapart : ∀ prepared, table = some prepared → prepared.install = true →
      ∀ t' prepared', t' ≠ t → (s.txns t').pending p = some prepared' →
        prepared'.shared ≠ prepared.shared) : Sound (s.setTxn t txn) := by
  have hself : txn.pending p = table := by
    rw [hpending]
    exact update_self ..
  have hother : ∀ p', p' ≠ p → txn.pending p' = (s.txns t).pending p' := by
    intro p' hp
    rw [hpending]
    exact update_of_ne hp ..
  refine h.setTxn t ?_ ?_ ?_
  · intro p' prepared hp
    by_cases hpp : p' = p
    · subst hpp
      exact hok prepared (hself.symm.trans hp)
    rw [hother p' hpp] at hp
    exact (h.txns t p' prepared hp).transfer (hpublished p' hpp) rfl rfl
  · intro p' todo hinstalling prepared hp
    obtain ⟨rfl, htable⟩ := hphase p' todo hinstalling
    exact htable prepared (hself.symm.trans hp)
  intro t' p' prepared prepared' ht hp hp' hi _ hshared
  by_cases hpp : p' = p
  · subst hpp
    exact hapart prepared (hself.symm.trans hp) hi t' prepared' ht hp' hshared.symm
  rw [hother p' hpp] at hp
  exact h.own t hp hi hp' (.inl ht) hshared.symm

variable {shared : Handle}

section
variable (h : Sound s)
include h

theorem Sound.storeAside {p} (users) (hslots : ∀ p', s.slots p' ≠ some shared)
    (hheld : ∀ t p' prepared, (s.txns t).pending p' = some prepared → prepared.shared = shared →
      p' = p ∧ prepared.pending ≠ none) : Sound (s.store p shared users) := by
  have hother : ∀ k, k ≠ shared → (s.store p shared users).heap k = s.heap k :=
    fun k hk => update_of_ne hk ..
  refine ⟨?_, ?_, h.stored, h.apart, h.calls, h.listeners⟩
  · intro p' k hk
    rw [hother k fun he => hslots p' (he ▸ hk)]
    exact h.slots p' k hk
  intro t p' prepared hp
  have hok := h.txns t p' prepared hp
  by_cases hk : prepared.shared = shared
  · obtain ⟨rfl, hpending⟩ := hheld t p' prepared hp hk
    refine ⟨⟨users, hk ▸ update_self ..⟩, hok.live, hok.hidden, ?_⟩
    intro hi
    obtain ⟨last, hlast, hcase⟩ := hok.last hi
    exact ⟨last, hlast, .inl (hcase.resolve_right fun hnone => hpending hnone.1)⟩
  · exact hok.transfer rfl rfl (hother _ hk)

theorem Sound.heap_ne_none {t p}
    (hp : (s.txns t).pending p = some prepared) : s.heap prepared.shared ≠ none := by
  obtain ⟨_, htyped⟩ := (h.txns t p prepared hp).typed
  rw [htyped]
  exact some_ne_none _

theorem Sound.create (p) {fresh} (users)
    (hfresh : s.heap fresh = none) : Sound (s.store p fresh users) := by
  refine h.storeAside users ?_ ?_
  · intro p' hp'
    obtain ⟨_, hheap, -⟩ := h.slots p' fresh hp'
    cases hfresh.symm.trans hheap
  intro t p' prepared hp hshared
  exact absurd (hshared ▸ hfresh) (h.heap_ne_none hp)

theorem Sound.storeLive {p} (users) (hslot : s.slots p = some shared) :
    Sound ((s.store p shared users).isLatest p (some users)) := by
  obtain ⟨_, hold, -⟩ := h.slots p shared hslot
  refine ⟨?_, ?_, h.stored, h.apart, h.calls, h.listeners⟩
  · intro p' k hk
    show ∃ users', update s.heap shared (some (p, users)) k = some (p', users') ∧
      update s.latest p (some users) p' = some users'
    obtain ⟨users', hheap, hlatest⟩ := h.slots p' k hk
    by_cases hp : p' = p
    · subst hp
      cases hslot.symm.trans hk
      exact ⟨users, update_self .., update_self ..⟩
    have hne : k ≠ shared := by
      rintro rfl
      cases hold.symm.trans hheap
      exact hp rfl
    rw [update_of_ne hne, update_of_ne hp]
    exact ⟨users', hheap, hlatest⟩
  intro t p' prepared hp
  have hok := h.txns t p' prepared hp
  by_cases hk : prepared.shared = shared
  swap
  · exact hok.transfer rfl rfl (update_of_ne hk ..)
  obtain ⟨_, htyped⟩ := hok.typed
  rw [hk, hold] at htyped
  cases htyped
  refine ⟨⟨users, hk ▸ update_self ..⟩, hok.live, hok.hidden, ?_⟩
  intro hi
  exact absurd (hk ▸ hslot) (hok.hidden hi p)

theorem Sound.fill {p users} (hslot : s.slots p = none) (hheap : s.heap shared = some (p, users))
    (hheld : ∀ t p' prepared, (s.txns t).pending p' = some prepared → prepared.shared ≠ shared) :
    Sound ((s.fill p shared).isLatest p (some users)) := by
  have hself : update s.slots p (some shared) p = some shared := update_self ..
  have hkept : ∀ p' k, s.slots p' = some k → update s.slots p (some shared) p' = some k := by
    intro p' k hk
    have hne : p' ≠ p := by
      rintro rfl
      cases hslot.symm.trans hk
    rw [update_of_ne hne]
    exact hk
  refine ⟨?_, ?_, h.stored, h.apart, ?_, ?_⟩
  · intro p' k hk
    replace hk : update s.slots p (some shared) p' = some k := hk
    show ∃ users', s.heap k = some (p', users') ∧ update s.latest p (some users) p' = some users'
    by_cases hp : p' = p
    · subst hp
      cases hself.symm.trans hk
      exact ⟨users, hheap, update_self ..⟩
    rw [update_of_ne hp] at hk ⊢
    exact h.slots p' k hk
  · intro t p' prepared hp
    have hok := h.txns t p' prepared hp
    refine ⟨hok.typed, fun hi => ⟨hkept _ _ (hok.live hi).1, (hok.live hi).2⟩, ?_, hok.last⟩
    intro hi p'' hp''
    replace hp'' : update s.slots p (some shared) p'' = some prepared.shared := hp''
    by_cases hpp : p'' = p
    · subst hpp
      cases hself.symm.trans hp''
      exact hheld t p' prepared hp rfl
    rw [update_of_ne hpp] at hp''
    exact hok.hidden hi p'' hp''
  · intro i call k hcall hstage
    exact hkept _ _ (h.calls i call k hcall hstage)
  intro p' k hmem
  exact hkept _ _ (h.listeners p' k hmem)

theorem Sound.listen {p} (hslot : s.slots p = some shared) : Sound (s.listen p shared) := by
  refine ⟨h.slots, ?_, h.stored, h.apart, h.calls, ?_⟩
  · intro t p' prepared hp
    exact (h.txns t p' prepared hp).transfer rfl rfl rfl
  intro p' k hmem
  rcases List.mem_cons.mp hmem with he | hmem
  · cases he
    exact hslot
  · exact h.listeners p' k hmem

theorem Sound.setCall (i) {call} (hcall : ∀ c shared, call = some c → c.stage = .storing shared →
      s.slots c.protocol = some shared) : Sound (s.setCall i call) := by
  refine ⟨h.slots, ?_, h.stored, h.apart, ?_, h.listeners⟩
  · intro t p prepared hp
    exact (h.txns t p prepared hp).transfer rfl rfl rfl
  intro j c shared hc hstage
  replace hc : update s.calls i call j = some c := hc
  by_cases hj : j = i
  · rw [hj, update_self] at hc
    exact hcall c shared hc hstage
  rw [update_of_ne hj] at hc
  exact h.calls j c shared hc hstage

theorem Sound.setStoring (i) {p} (users) (hslot : s.slots p = some shared) :
    Sound (s.setCall i (some ⟨p, users, .storing shared⟩)) := by
  refine h.setCall i ?_
  rintro _ _ ⟨⟩ ⟨⟩
  exact hslot

end

/-! ## One step -/

theorem Sound.txnPublish (h : Sound s) {t} (hopen : (s.txns t).phase = .open) {p users fresh}
    (hnext : UserTables.txnPublish s t p users fresh = some s') : Sound s' := by
  have hnow : ∀ (txn : Txn U), (txn.publishes p users).published p = some users :=
    fun txn => update_self ..
  have hlater : ∀ (txn : Txn U) p', p' ≠ p → (txn.publishes p users).published p' =
      txn.published p' := fun txn p' hp => update_of_ne hp ..
  have hidle : ∀ table p' todo,
      (((s.txns t).prepared p table).publishes p users).phase ≠ .installing p' todo := by
    intro table p' todo he
    cases hopen.symm.trans he
  unfold UserTables.txnPublish at hnext
  dsimp only at hnext
  split at hnext
  · next existing hp =>
    cases hnext
    have hok := h.txns t p existing hp
    refine h.setTable t rfl (hlater _) ?_ (fun _ _ he => (hidle _ _ _ he).elim) ?_
    · intro prepared he
      cases he
      exact ⟨hok.typed, fun hi => ⟨(hok.live hi).1, users, rfl, hnow _⟩, hok.hidden,
        fun _ => ⟨users, hnow _, .inl rfl⟩⟩
    intro prepared he hi t' prepared' ht hp'
    cases he
    exact h.own t hp hi hp' (.inl ht)
  unfold prepare at hnext
  split at hnext
  · next shared hslot =>
    -- the handle is in its slot, and its users are kept for the commit
    cases hnext
    obtain ⟨old, hold, -⟩ := h.slots p shared hslot
    refine h.setTable t rfl (hlater _) ?_ (fun _ _ he => (hidle _ _ _ he).elim) ?_
    · intro prepared he
      cases he
      exact ⟨⟨old, hold⟩, fun _ => ⟨hslot, users, rfl, hnow _⟩, nofun, nofun⟩
    intro prepared he hi
    cases he
    cases hi
  rename_i hslot
  split at hnext
  swap
  · cases hnext
  rename_i hfresh
  -- a new handle holds the users already and is in no slot
  cases hnext
  have hnone : s.heap fresh = none := isNone_iff_eq_none.mp hfresh
  have hheap : (s.store p fresh users).heap fresh = some (p, users) :=
    update_self ..
  refine (h.create p users hnone).setTable t rfl (hlater _) ?_
    (fun _ _ he => (hidle _ _ _ he).elim) ?_
  · intro prepared he
    cases he
    refine ⟨⟨users, hheap⟩, nofun, ?_, fun _ => ⟨users, hnow _, .inr ⟨rfl, hheap⟩⟩⟩
    intro _ p' hp'
    obtain ⟨_, hold, -⟩ := h.slots p' fresh hp'
    cases hnone.symm.trans hold
  intro prepared he hi t' prepared' ht hp' hshared
  cases he
  exact h.heap_ne_none hp' (hshared ▸ hnone)

theorem Sound.storePending (h : Sound s) {t p} (hp : (s.txns t).pending p = some prepared)
    (hi : prepared.install = true) : Sound (UserTables.storePending s p prepared) ∧
      ∃ users, (s.txns t).published p = some users ∧
        (UserTables.storePending s p prepared).heap prepared.shared = some (p, users) := by
  have hok := h.txns t p prepared hp
  obtain ⟨users, hlast, hcase⟩ := hok.last hi
  unfold UserTables.storePending
  rcases hcase with hpending | ⟨hpending, hheap⟩
  · rw [hpending]
    refine ⟨h.storeAside users (hok.hidden hi) ?_, users, hlast, update_self ..⟩
    intro t' p' prepared' hp' hshared
    by_cases hsame : t' = t ∧ p' = p
    · obtain ⟨rfl, rfl⟩ := hsame
      cases hp.symm.trans hp'
      rw [hpending]
      exact ⟨rfl, some_ne_none _⟩
    · exact absurd hshared (h.own t hp hi hp' (not_and_or.mp hsame))
  rw [hpending]
  exact ⟨h, users, hlast, hheap⟩

theorem storePending_txns (s : State U) (p prepared) :
    (storePending s p prepared).txns = s.txns := by
  unfold storePending
  split <;> rfl

theorem storePending_slots (s : State U) (p prepared) :
    (storePending s p prepared).slots = s.slots := by
  unfold storePending
  split <;> rfl

section
variable (h : Sound s)
include h

theorem Sound.commitTable (t p todo) : Sound (UserTables.commitTable s t p todo) := by
  unfold UserTables.commitTable
  dsimp only
  split
  · exact h.setPhase t nofun
  rename_i prepared hp
  have hok := h.txns t p prepared hp
  split_ifs with hi
  · obtain ⟨hs, users, hlast, hheap⟩ := h.storePending hp hi
    have htxns := storePending_txns s p prepared
    refine @Sound.setTable _ _ hs t p (some { prepared with pending := none }) _ ?_ ?_ ?_ ?_ ?_
    · rw [htxns]
      rfl
    · intro p' _
      rw [htxns]
      rfl
    · intro prepared' he
      cases he
      refine ⟨⟨users, hheap⟩, fun hi' => ?_, ?_, fun _ => ⟨users, hlast, .inr ⟨rfl, hheap⟩⟩⟩
      · exact absurd (hi.symm.trans hi') (by decide)
      intro _ p'
      rw [storePending_slots]
      exact hok.hidden hi p'
    · intro p' todo' hphase
      cases hphase
      refine ⟨rfl, ?_⟩
      intro prepared' he
      cases he
      exact ⟨hi, rfl⟩
    intro prepared' he _ t' prepared'' ht hp'
    cases he
    rw [htxns] at hp'
    exact h.own t hp hi hp' (.inl ht)
  · obtain ⟨hslot, users, hpending, hlast⟩ := hok.live (Bool.eq_false_iff.mpr hi)
    unfold UserTables.storePending
    rw [hpending, hlast]
    refine Sound.listen ?_ hslot
    exact (h.storeLive users hslot).setTable t rfl (fun _ _ => rfl) nofun nofun nofun

theorem Sound.install {t p todo} (hphase : (s.txns t).phase = .installing p todo)
    (hslot : s.slots p = none) : Sound (UserTables.install s t p todo) := by
  unfold UserTables.install
  dsimp only
  split
  · exact h.setPhase t nofun
  rename_i prepared hp
  obtain ⟨hi, hpending⟩ := h.stored t p todo hphase prepared hp
  have hok := h.txns t p prepared hp
  obtain ⟨users, hlast, hcase⟩ := hok.last hi
  have hheap : s.heap prepared.shared = some (p, users) := by
    rcases hcase with hsome | ⟨-, hheap⟩
    · cases hpending.symm.trans hsome
    · exact hheap
  have hcleared : Sound (s.setTxn t { (s.txns t).prepared p none with
      phase := .committing todo }) :=
    h.setTable t rfl (fun _ _ => rfl) nofun nofun nofun
  have hfilled := hcleared.fill hslot hheap (by
    intro t' p' prepared' hp' hshared
    replace hp' : (update s.txns t _ t').pending p' = some prepared' := hp'
    by_cases ht : t' = t
    · rw [ht, update_self] at hp'
      replace hp' : update (s.txns t).pending p none p' = some prepared' := hp'
      by_cases hpp : p' = p
      · rw [hpp, update_self] at hp'
        cases hp'
      rw [update_of_ne hpp] at hp'
      exact h.own t hp hi hp' (.inr hpp) hshared
    · rw [update_of_ne ht] at hp'
      exact h.own t hp hi hp' (.inl ht) hshared)
  rw [hslot, hlast]
  exact hfilled.listen (update_self ..)

theorem Sound.publishNext {i call fresh} (hcall : s.calls i = some call)
    (hnext : UserTables.publishNext s i call fresh = some s') : Sound s' := by
  unfold UserTables.publishNext at hnext
  split at hnext
  · next shared hstage =>
    cases hnext
    exact (h.storeLive call.users (h.calls i call shared hcall hstage)).setCall i nofun
  split at hnext
  · next shared hslot =>
    cases hnext
    exact h.setStoring i _ hslot
  rename_i hslot
  split at hnext
  swap
  · cases hnext
  rename_i hfresh
  cases hnext
  have hnone : s.heap fresh = none := isNone_iff_eq_none.mp hfresh
  refine Sound.setCall ?_ i nofun
  refine (h.create call.protocol call.users hnone).fill hslot (update_self ..) ?_
  intro t p prepared hp hshared
  exact h.heap_ne_none hp (hshared ▸ hnone)

theorem Sound.next {a} (ha : uncontested s a = true)
    (hnext : UserTables.next s a = some s') : Sound s' := by
  cases a with
  | begin t | drop t =>
    obtain ⟨-, ⟨⟩⟩ := ite_none_right_eq_some.mp hnext
    exact h.setTxn t nofun nofun nofun
  | txnPublish =>
    rw [UserTables.next] at hnext
    split at hnext
    · next hopen => exact h.txnPublish hopen hnext
    · cases hnext
  | commit t =>
    obtain ⟨-, ⟨⟩⟩ := ite_none_right_eq_some.mp hnext
    exact h.setPhase t nofun
  | commitNext t =>
    rw [UserTables.next] at hnext
    split at hnext
    · cases hnext
      exact h.setPhase t nofun
    · cases hnext
      exact h.commitTable t _ _
    · next p todo hphase =>
      cases hnext
      simp only [uncontested, hphase] at ha
      exact h.install hphase (isNone_iff_eq_none.mp ha)
    · cases hnext
  | publish i =>
    rw [UserTables.next] at hnext
    split at hnext
    · cases hnext
    split at hnext
    · next shared hslot =>
      cases hnext
      exact h.setStoring i _ hslot
    cases hnext
    refine h.setCall i ?_
    rintro _ _ ⟨⟩ ⟨⟩
  | publishNext =>
    rw [UserTables.next] at hnext
    split at hnext
    · cases hnext
    · next call hcall => exact h.publishNext hcall hnext

theorem Sound.deferred {a} (ha : a.deferred = true)
    (hnext : UserTables.next s a = some s') (p) : s'.live p = s.live p := by
  cases a with
  | begin | drop =>
    obtain ⟨-, ⟨⟩⟩ := ite_none_right_eq_some.mp hnext
    rfl
  | txnPublish t p' users fresh =>
    obtain ⟨-, hnext⟩ := ite_none_right_eq_some.mp hnext
    unfold UserTables.txnPublish at hnext
    dsimp only at hnext
    split at hnext
    · cases hnext
      rfl
    unfold prepare at hnext
    split at hnext
    · cases hnext
      rfl
    split at hnext
    swap
    · cases hnext
    rename_i hfresh
    cases hnext
    have hnone : s.heap fresh = none := isNone_iff_eq_none.mp hfresh
    show (s.slots p).map _ = (s.slots p).map _
    rcases hslot : s.slots p with _ | k
    · rfl
    obtain ⟨_, hheap, -⟩ := h.slots p k hslot
    have hne : k ≠ fresh := by
      rintro rfl
      cases hnone.symm.trans hheap
    exact congrArg (fun table => some (k, table)) (update_of_ne hne ..)
  | commit | commitNext | publish | publishNext => cases ha

end

end

/-- **Transactions are all or nothing.** In every interleaving in which a table prepared for an empty
slot finds it empty when it is installed: what a transaction does before its commit leaves every live
table as it was, to the point where it is dropped; a reader sees the users that were published last;
and so does the listener of a transaction that was committed, which has the handle in the slot. -/
theorem transactions_all_or_nothing {U : Type} (actions : List (Action U)) (s : State U)
    (huncontested : Lib.Machine.Throughout next (fun s a => uncontested s a = true) .new actions)
    (hrun : run next .new actions = some s) :
    (∀ a s', a.deferred = true → next s a = some s' → ∀ p, s'.live p = s.live p) ∧
    (∀ p h, s.slots p = some h → ∃ users, s.heap h = some (p, users) ∧ s.latest p = some users) ∧
    ∀ p h, (p, h) ∈ s.listeners →
      s.slots p = some h ∧ ∃ users, s.heap h = some (p, users) ∧ s.latest p = some users := by
  have hsound := run_invariant (fun s a s' ha (h : Sound s) hnext => h.next ha hnext)
    actions .new s huncontested sound_new hrun
  refine ⟨fun a s' ha hnext p => hsound.deferred ha hnext p, hsound.slots, ?_⟩
  intro p h hmem
  have hslot := hsound.listeners p h hmem
  exact ⟨hslot, hsound.slots p h hslot⟩

/-- A transaction fills a slot while another table is published directly, and a second transaction
finds the handle of the first. -/
def twoCommits : List (Action Nat) :=
  [.begin 0, .txnPublish 0 .vless 10 0, .publish 0 .vmess 50, .publishNext 0 1, .commit 0] ++
    List.replicate 10 (.commitNext 0) ++
    [.begin 1, .txnPublish 1 .vless 20 7, .commit 1] ++ List.replicate 9 (.commitNext 1) ++
    [.begin 2, .txnPublish 2 .vmess 60 8]

theorem transactions_all_or_nothing_twice :
    ∃ s s', run next .new twoCommits = some s ∧ next s (.drop 2) = some s' ∧
      s.listeners = [(.vless, 0), (.vless, 0)] ∧ s.heap 0 = some (.vless, 20) ∧
      s.latest .vless = some 20 ∧ s.latest .vmess = some 50 ∧
      (∀ p, s'.live p = s.live p) ∧
      ∀ p h, (p, h) ∈ s.listeners →
        s.slots p = some h ∧ ∃ users, s.heap h = some (p, users) ∧ s.latest p = some users := by
  obtain ⟨hdropped, -, hlisteners⟩ :=
    transactions_all_or_nothing twoCommits _ (by decide +kernel) rfl
  exact ⟨_, _, rfl, rfl, by decide +kernel, by decide +kernel, by decide +kernel,
    by decide +kernel, hdropped (.drop 2) _ rfl rfl, hlisteners⟩

/-- **A second first publication is lost.** Two transactions prepare a table for the same empty slot.
The one committed second finds the slot taken: readers go on seeing the users of the first, and its
own listener has a handle that is in no slot. -/
theorem contested_slot_orphans_listener : ∃ s, run next (.new : State Nat)
        ([.begin 0, .begin 1, .txnPublish 0 .vless 10 0, .txnPublish 1 .vless 20 1, .commit 0] ++
          List.replicate 10 (.commitNext 0) ++ [.commit 1] ++
          List.replicate 10 (.commitNext 1)) = some s ∧
      (s.txns 1).phase = .idle ∧ s.latest .vless = some 20 ∧
      s.slots .vless = some 0 ∧ s.heap 0 = some (.vless, 10) ∧
      (.vless, 1) ∈ s.listeners ∧ s.heap 1 = some (.vless, 20) :=
  ⟨_, rfl, by decide +kernel, by decide +kernel, by decide +kernel, by decide +kernel,
    by decide +kernel, by decide +kernel⟩

end Shoes.V2board.UserTables
