import Shoes.Lib.Assoc
import Shoes.Lib.Io
import Shoes.Lib.Machine
import Shoes.Lib.Utf8
import Mathlib.Algebra.Order.Floor.Defs
import Mathlib.Data.List.Forall2
import Mathlib.Data.Rat.Floor
import Mathlib.Logic.Function.Basic

/-! # Reloading the rule providers

At start the provider files are read and compiled, and then their modification times are taken. A
dial, no sooner than one interval after the last check, takes the times again and compiles the files
if one differs. The files may be written between any two accesses of a check: `Phase` says how far
it has come. Times are of any ordered ring with a floor, and compared in whole seconds. -/
namespace Shoes.Outbound.HotReload
open Lib Lib.Io Lib.Utf8 Lib.Machine List Option

/-- `RuleProviderConfig`. -/
structure RuleProvider (Path : Type) where
  tag : Str
  path : Path
  deriving DecidableEq

/-- The providers and the shortest of their intervals. `validate_rule_providers` refuses a
tag that stands twice. -/
structure Config (T Path : Type) where
  providers : List (RuleProvider Path)
  interval : T
  nodup : (providers.map RuleProvider.tag).Nodup

structure File (T Text : Type) where
  text : Text
  mtime : T

/-- The rules in use and `RuleRefreshState`. -/
structure Refresh (T Rules : Type) where
  rules : Rules
  lastCheck : T
  lastMtimes : Assoc.Map Str Nat
  deriving DecidableEq

/-- How far the start or a check has come, with the providers it has still to look at. -/
inductive Phase (T Path Text Rules : Type)
  /-- The first `compile_route_rules`. -/
  | loading (texts : List Text) (todo : List (RuleProvider Path))
  /-- The first `provider_mtimes`. -/
  | baseline (rules : Rules) (mtimes : Assoc.Map Str Nat) (todo : List (RuleProvider Path))
  | idle (d : Refresh T Rules)
  /-- `provider_mtimes` of a check. -/
  | statting (d : Refresh T Rules) (mtimes : Assoc.Map Str Nat) (todo : List (RuleProvider Path))
  /-- `compile_route_rules` of a check. -/
  | reading (d : Refresh T Rules) (mtimes : Assoc.Map Str Nat) (texts : List Text)
      (todo : List (RuleProvider Path))
  deriving DecidableEq

structure State (T Path Text Rules : Type) where
  files : Path → Option (File T Text)
  phase : Phase T Path Text Rules

inductive Event (T Path Text : Type)
  | write (path : Path) (text : Text) (at_ : T)
  | remove (path : Path)
  | dial (now : T)
  | proceed (now : T)

variable {T Path Text Rules : Type}

/-- The dispatcher, once there is one. -/
def Phase.refresh : Phase T Path Text Rules → Option (Refresh T Rules)
  | .loading _ _ => none
  | .baseline _ _ _ => none
  | .idle d => some d
  | .statting d _ _ => some d
  | .reading d _ _ _ => some d

section Model
variable [Ring T] [LinearOrder T] [FloorSemiring T]

/-- `duration_since(UNIX_EPOCH)` in whole seconds: an error before the epoch. -/
def mtimeSecs (t : T) : Option Nat := if t < 0 then none else some ⌊t⌋₊

def stat (files : Path → Option (File T Text)) (p : RuleProvider Path) : Option Nat :=
  (files p.path).bind fun f => mtimeSecs f.mtime

def load (files : Path → Option (File T Text)) (p : RuleProvider Path) : Option Text :=
  (files p.path).map File.text

variable (c : Config T Path) (compile : List Text → Except IoError Rules)

/-- `maybe_refresh_rules` up to its first file access. A check that is under way holds the
lock, and a second one gives up. -/
def dial (now : T) : Phase T Path Text Rules → Option (Phase T Path Text Rules)
  | .loading _ _ => none
  | .baseline _ _ _ => none
  | .idle d =>
    some (if now - d.lastCheck < c.interval then .idle d
      else .statting { d with lastCheck := now } .empty c.providers)
  | .statting d mtimes todo => some (.statting d mtimes todo)
  | .reading d mtimes texts todo => some (.reading d mtimes texts todo)

/-- The next file access, or what is done after the last one. -/
def proceed (files : Path → Option (File T Text)) (now : T) :
    Phase T Path Text Rules → Option (Phase T Path Text Rules)
  | .loading texts (p :: todo) => (load files p).map fun text => .loading (texts ++ [text]) todo
  | .loading texts [] =>
    match compile texts with
    | .error _ => none
    | .ok rules => some (.baseline rules .empty c.providers)
  | .baseline rules mtimes (p :: todo) =>
    (stat files p).map fun secs => .baseline rules (mtimes.insert p.tag secs) todo
  | .baseline rules mtimes [] => some (.idle ⟨rules, now, mtimes⟩)
  | .idle _ => none
  | .statting d mtimes (p :: todo) =>
    match stat files p with
    | none => some (.idle d)
    | some secs => some (.statting d (mtimes.insert p.tag secs) todo)
  | .statting d mtimes [] =>
    some (if mtimes.same d.lastMtimes then .idle d else .reading d mtimes [] c.providers)
  | .reading d mtimes texts (p :: todo) =>
    match load files p with
    | none => some (.idle d)
    | some text => some (.reading d mtimes (texts ++ [text]) todo)
  | .reading d mtimes texts [] =>
    match compile texts with
    | .error _ => some (.idle d)
    | .ok rules => some (.idle { d with rules := rules, lastMtimes := mtimes })

def next [DecidableEq Path] (s : State T Path Text Rules) :
    Event T Path Text → Option (State T Path Text Rules)
  | .write path text t => some { s with files := Function.update s.files path (some ⟨text, t⟩) }
  | .remove path => some { s with files := Function.update s.files path none }
  | .dial now => (dial c now s.phase).map (State.mk s.files)
  | .proceed now => (proceed c compile s.files now s.phase).map (State.mk s.files)

def start (files : Path → Option (File T Text)) : State T Path Text Rules :=
  ⟨files, .loading [] c.providers⟩

/-! ## When a write is seen -/

/-- The second a provider's file is written in tells it from what was read before: it is not
the second that stands for contents read earlier, and no write falls between reading a file
and taking its time. -/
def SeenAt (p : RuleProvider Path) (secs : Nat) : Phase T Path Text Rules → Prop
  | .loading _ todo => p ∈ todo
  | .baseline _ mtimes todo => p ∉ todo ∧ mtimes.get p.tag ≠ some secs
  | .idle d => d.lastMtimes.get p.tag ≠ some secs
  | .statting d _ _ => d.lastMtimes.get p.tag ≠ some secs
  | .reading d mtimes _ todo =>
    d.lastMtimes.get p.tag ≠ some secs ∧ (p ∈ todo ∨ mtimes.get p.tag ≠ some secs)

instance SeenAt.decidable [DecidableEq Path] (p : RuleProvider Path) (secs : Nat) :
    ∀ phase : Phase T Path Text Rules, Decidable (SeenAt p secs phase)
  | .loading _ todo => inferInstanceAs (Decidable (p ∈ todo))
  | .baseline _ mtimes todo =>
    inferInstanceAs (Decidable (p ∉ todo ∧ mtimes.get p.tag ≠ some secs))
  | .idle d => inferInstanceAs (Decidable (d.lastMtimes.get p.tag ≠ some secs))
  | .statting d _ _ => inferInstanceAs (Decidable (d.lastMtimes.get p.tag ≠ some secs))
  | .reading d mtimes _ todo =>
    inferInstanceAs (Decidable (d.lastMtimes.get p.tag ≠ some secs ∧
      (p ∈ todo ∨ mtimes.get p.tag ≠ some secs)))

def Seen (s : State T Path Text Rules) : Event T Path Text → Prop
  | .write path _ t =>
    ∀ p ∈ c.providers, p.path = path → 0 ≤ t ∧ SeenAt p ⌊t⌋₊ s.phase
  | _ => True

instance Seen.decidable [DecidableEq Path] (s : State T Path Text Rules) :
    ∀ e : Event T Path Text, Decidable (Seen c s e)
  | .write path _ t =>
    inferInstanceAs (Decidable (∀ p ∈ c.providers, p.path = path → 0 ≤ t ∧ SeenAt p ⌊t⌋₊ s.phase))
  | .remove _ => inferInstanceAs (Decidable True)
  | .dial _ => inferInstanceAs (Decidable True)
  | .proceed _ => inferInstanceAs (Decidable True)

/-! ## The invariant -/

section
variable (files : Path → Option (File T Text))

/-- The file still holds what was read. -/
def Holds (p : RuleProvider Path) (text : Text) : Prop :=
  ∀ f, files p.path = some f → f.text = text

/-- If the file has the second recorded for it, it holds what was read. -/
def Explains (mtimes : Assoc.Map Str Nat) (p : RuleProvider Path) (text : Text) : Prop :=
  ∀ f, files p.path = some f → 0 ≤ f.mtime ∧ (mtimes.get p.tag = some ⌊f.mtime⌋₊ → f.text = text)

/-- The rules in use were compiled from texts that the recorded seconds explain. -/
def Backed (d : Refresh T Rules) : Prop :=
  ∃ texts, compile texts = .ok d.rules ∧
    List.Forall₂ (Explains files d.lastMtimes) c.providers texts

def PhaseInv : Phase T Path Text Rules → Prop
  | .loading texts todo =>
    ∃ done, c.providers = done ++ todo ∧ List.Forall₂ (Holds files) done texts
  | .baseline rules mtimes todo =>
    ∃ done before after, compile (before ++ after) = .ok rules ∧ c.providers = done ++ todo ∧
      List.Forall₂ (Explains files mtimes) done before ∧ List.Forall₂ (Holds files) todo after
  | .idle d => Backed c compile files d
  | .statting d _ _ => Backed c compile files d
  | .reading d mtimes texts todo =>
    Backed c compile files d ∧
      ∃ done, c.providers = done ++ todo ∧ List.Forall₂ (Explains files mtimes) done texts

end

variable {c compile} {files : Path → Option (File T Text)} {p : RuleProvider Path} {text : Text}
variable {mtimes : Assoc.Map Str Nat}
variable {d d' : Refresh T Rules} {phase phase' : Phase T Path Text Rules} {now : T}
variable {s s' : State T Path Text Rules} {e : Event T Path Text} {rules r : Rules}
variable {texts : List Text} {todo : List (RuleProvider Path)}

theorem Config.tag_ne (h : c.providers = done ++ p :: todo) (hq : q ∈ done) : q.tag ≠ p.tag := by
  have hn := c.nodup
  rw [h, map_append, nodup_append] at hn
  exact hn.2.2 _ (mem_map_of_mem hq) _ (mem_map_of_mem mem_cons_self)

theorem Config.not_mem_todo (h : c.providers = done ++ todo) (hp : p ∈ done) : p ∉ todo := by
  intro hmem
  have hn := c.nodup
  rw [h, map_append, nodup_append] at hn
  exact hn.2.2 _ (mem_map_of_mem hp) _ (mem_map_of_mem hmem) rfl

theorem holds_of_load (h : load files p = some text) : Holds files p text := by
  intro f hf
  unfold load at h
  rw [hf] at h
  exact Option.some.inj h

theorem stat_eq (hf : files p.path = some f) :
    stat files p = if f.mtime < 0 then none else some ⌊f.mtime⌋₊ := by
  unfold stat
  rw [hf]
  rfl

theorem Holds.explains (h : Holds files p text) (hstat : stat files p = some secs) :
    Explains files (mtimes.insert p.tag secs) p text := by
  intro f hf
  rw [stat_eq hf] at hstat
  split at hstat
  · cases hstat
  next hnot => exact ⟨not_lt.mp hnot, fun _ => h f hf⟩

theorem Explains.insert (h : Explains files mtimes q text)
    (hne : q.tag ≠ p.tag) (secs) : Explains files (mtimes.insert p.tag secs) q text := by
  intro f hf
  rw [Assoc.Map.get_insert_ne _ hne]
  exact h f hf

theorem Backed.nonneg (h : Backed c compile files d)
    (hp : p ∈ c.providers) (hf : files p.path = some f) : 0 ≤ f.mtime := by
  obtain ⟨texts, -, hall⟩ := h
  obtain ⟨i, hi, rfl⟩ := getElem_of_mem hp
  have hlen : i < texts.length := hall.length_eq ▸ hi
  exact (hall.get hi hlen f hf).1

/-! A write or a removal at a path leaves the other paths as they are. -/

section Update
variable [DecidableEq Path] {path : Path} {file : Option (File T Text)}

theorem Holds.update (h : Holds files p text)
    (hfile : p.path = path → ∀ f, file = some f → f.text = text) :
    Holds (Function.update files path file) p text := by
  intro f hf
  by_cases hpath : p.path = path
  · rw [hpath, Function.update_self] at hf
    exact hfile hpath f hf
  rw [Function.update_of_ne hpath] at hf
  exact h f hf

theorem Explains.update (h : Explains files mtimes p text)
    (hfile : p.path = path → ∀ f, file = some f →
      0 ≤ f.mtime ∧ mtimes.get p.tag ≠ some ⌊f.mtime⌋₊) :
    Explains (Function.update files path file) mtimes p text := by
  intro f hf
  by_cases hpath : p.path = path
  · rw [hpath, Function.update_self] at hf
    obtain ⟨hnonneg, hne⟩ := hfile hpath f hf
    exact ⟨hnonneg, fun h => absurd h hne⟩
  rw [Function.update_of_ne hpath] at hf
  exact h f hf

/-- Where the file of a provider changes, the invariant asks that the change is seen. -/
def Change (c : Config T Path) (path : Path) (file : Option (File T Text))
    (phase : Phase T Path Text Rules) : Prop :=
  ∀ p ∈ c.providers, p.path = path → ∀ f, file = some f →
    0 ≤ f.mtime ∧ SeenAt p ⌊f.mtime⌋₊ phase

theorem forall_explains_update (h : List.Forall₂ (Explains files mtimes) ps texts)
    (hfile : ∀ p ∈ ps, p.path = path → ∀ f, file = some f →
      0 ≤ f.mtime ∧ mtimes.get p.tag ≠ some ⌊f.mtime⌋₊) :
    List.Forall₂ (Explains (Function.update files path file) mtimes) ps texts :=
  ((forall₂_and_left _ _).mpr ⟨hfile, h⟩).imp fun _ _ hpt => hpt.2.update hpt.1

theorem forall_holds_update (h : List.Forall₂ (Holds files) ps texts)
    (hfile : ∀ p ∈ ps, p.path = path → ∀ f, file ≠ some f) :
    List.Forall₂ (Holds (Function.update files path file)) ps texts :=
  ((forall₂_and_left _ _).mpr ⟨hfile, h⟩).imp fun _ _ hpt =>
    hpt.2.update fun hpath f hf => absurd hf (hpt.1 hpath f)

theorem Backed.update (h : Backed c compile files d)
    (hfile : ∀ p ∈ c.providers, p.path = path → ∀ f, file = some f →
      0 ≤ f.mtime ∧ d.lastMtimes.get p.tag ≠ some ⌊f.mtime⌋₊) :
    Backed c compile (Function.update files path file) d := by
  obtain ⟨texts, hcompile, hall⟩ := h
  exact ⟨texts, hcompile, forall_explains_update hall hfile⟩

theorem phaseInv_update (h : PhaseInv c compile files phase) (hfile : Change c path file phase) :
    PhaseInv c compile (Function.update files path file) phase := by
  cases phase with
  | loading =>
    obtain ⟨done, hps, hall⟩ := h
    refine ⟨done, hps, forall_holds_update hall ?_⟩
    intro p hp hpath f hf
    have hmem : p ∈ c.providers := hps ▸ mem_append_left _ hp
    exact Config.not_mem_todo hps hp (hfile p hmem hpath f hf).2
  | baseline =>
    obtain ⟨done, before, after, hcompile, hps, hdone, htodo⟩ := h
    refine ⟨done, before, after, hcompile, hps, ?_, ?_⟩
    · refine forall_explains_update hdone fun p hp hpath f hf => ?_
      have hmem : p ∈ c.providers := hps ▸ mem_append_left _ hp
      exact ⟨(hfile p hmem hpath f hf).1, (hfile p hmem hpath f hf).2.2⟩
    refine forall_holds_update htodo fun p hp hpath f hf => ?_
    have hmem : p ∈ c.providers := hps ▸ mem_append_right _ hp
    exact (hfile p hmem hpath f hf).2.1 hp
  | idle | statting => exact Backed.update h hfile
  | reading =>
    obtain ⟨hback, done, hps, hall⟩ := h
    refine ⟨hback.update fun p hp hpath f hf => ?_, done, hps, forall_explains_update hall ?_⟩
    · exact ⟨(hfile p hp hpath f hf).1, (hfile p hp hpath f hf).2.1⟩
    intro p hp hpath f hf
    have hmem : p ∈ c.providers := hps ▸ mem_append_left _ hp
    obtain ⟨hnonneg, -, hseen⟩ := hfile p hmem hpath f hf
    exact ⟨hnonneg, hseen.resolve_left (Config.not_mem_todo hps hp)⟩

end Update

/-! ## What a step preserves -/

theorem phaseInv_dial (h : PhaseInv c compile files phase) (hdial : dial c now phase = some phase')
    : PhaseInv c compile files phase' := by
  cases phase with
  | loading | baseline => cases hdial
  | idle =>
    cases hdial
    split <;> exact h
  | statting | reading => cases hdial; exact h

theorem phaseInv_loading (h : PhaseInv c compile files (.loading texts todo))
    (hproceed : proceed c compile files now (.loading texts todo) = some phase') :
    PhaseInv c compile files phase' := by
  obtain ⟨done, hps, hall⟩ := h
  rcases todo with _ | ⟨p, todo⟩
  · simp only [proceed] at hproceed
    split at hproceed <;> cases hproceed
    rename_i rules hcompile
    rw [append_nil] at hps
    exact ⟨[], [], texts, hcompile, rfl, .nil, hps ▸ hall⟩
  obtain ⟨_, hload, rfl⟩ := map_eq_some_iff.mp hproceed
  exact ⟨done ++ [p], hps.trans (append_cons done p todo),
    rel_append hall (.cons (holds_of_load hload) .nil)⟩

theorem phaseInv_baseline (h : PhaseInv c compile files (.baseline rules mtimes todo))
    (hproceed : proceed c compile files now (.baseline rules mtimes todo) = some phase') :
    PhaseInv c compile files phase' := by
  obtain ⟨done, before, after, hcompile, hps, hdone, htodo⟩ := h
  cases htodo with
  | nil =>
    cases hproceed
    rw [append_nil] at hcompile hps
    exact ⟨before, hcompile, hps ▸ hdone⟩
  | @cons p text todo after hhead htail =>
    obtain ⟨secs, hstat, rfl⟩ := map_eq_some_iff.mp hproceed
    -- the new entry is this provider's alone: no earlier one has its tag
    have hearlier : List.Forall₂ (Explains files (mtimes.insert p.tag secs)) done before :=
      ((forall₂_and_left _ _).mpr ⟨fun q hq => Config.tag_ne hps hq, hdone⟩).imp
        fun q text hqt => hqt.2.insert hqt.1 secs
    exact ⟨done ++ [p], before ++ [text], after, by rwa [← append_cons],
      hps.trans (append_cons done p todo),
      rel_append hearlier (.cons (hhead.explains hstat) .nil), htail⟩

theorem phaseInv_statting (h : PhaseInv c compile files (.statting d mtimes todo))
    (hproceed : proceed c compile files now (.statting d mtimes todo) = some phase') :
    PhaseInv c compile files phase' := by
  rcases todo with _ | ⟨_, _⟩
  · cases hproceed
    split
    · exact h
    · exact ⟨h, [], rfl, .nil⟩
  simp only [proceed] at hproceed
  split at hproceed
  · cases hproceed; exact h
  · cases hproceed; exact h

theorem phaseInv_reading (h : PhaseInv c compile files (.reading d mtimes texts todo))
    (hproceed : proceed c compile files now (.reading d mtimes texts todo) = some phase') :
    PhaseInv c compile files phase' := by
  obtain ⟨hback, done, hps, hall⟩ := h
  rcases todo with _ | ⟨p, todo⟩
  · simp only [proceed] at hproceed
    split at hproceed
    · cases hproceed; exact hback
    rename_i rules hcompile
    cases hproceed
    rw [append_nil] at hps
    exact ⟨texts, hcompile, hps ▸ hall⟩
  simp only [proceed] at hproceed
  split at hproceed
  · cases hproceed; exact hback
  rename_i text hload
  cases hproceed
  have hnew : Explains files mtimes p text := by
    intro f hf
    have hmem : p ∈ c.providers := hps ▸ mem_append_right _ mem_cons_self
    exact ⟨hback.nonneg hmem hf, fun _ => holds_of_load hload f hf⟩
  exact ⟨hback, done ++ [p], hps.trans (append_cons done p todo), rel_append hall (.cons hnew .nil)⟩

theorem phaseInv_proceed (h : PhaseInv c compile files phase)
    (hproceed : proceed c compile files now phase = some phase') :
    PhaseInv c compile files phase' := by
  cases phase with
  | loading => exact phaseInv_loading h hproceed
  | baseline => exact phaseInv_baseline h hproceed
  | idle => cases hproceed
  | statting => exact phaseInv_statting h hproceed
  | reading => exact phaseInv_reading h hproceed

theorem inv_next [DecidableEq Path] (hseen : Seen c s e) (h : PhaseInv c compile s.files s.phase)
    (hnext : next c compile s e = some s') : PhaseInv c compile s'.files s'.phase := by
  cases e with
  | write =>
    cases hnext
    refine phaseInv_update h fun p hp hpath f hf => ?_
    cases hf
    exact hseen p hp hpath
  | remove =>
    cases hnext
    exact phaseInv_update h fun _ _ _ _ hf => nomatch hf
  | dial =>
    obtain ⟨phase', hdial, rfl⟩ := map_eq_some_iff.mp hnext
    exact phaseInv_dial h hdial
  | proceed =>
    obtain ⟨_, hproceed, rfl⟩ := map_eq_some_iff.mp hnext
    exact phaseInv_proceed h hproceed

/-! ## A check while the files stay as they are -/

def Quiet : Event T Path Text → Prop
  | .write _ _ _ => False
  | .remove _ => False
  | .dial _ => True
  | .proceed _ => True

/-- The files can be read and compile. -/
structure Settled (c : Config T Path) (compile : List Text → Except IoError Rules)
    (files : Path → Option (File T Text)) (texts : List Text) (r : Rules) : Prop where
  readable : c.providers.map (load files) = texts.map some
  compiles : compile texts = .ok r
  nonneg : ∀ p ∈ c.providers, ∀ f, files p.path = some f → 0 ≤ f.mtime

/-- A check that will end with the rules `r`. -/
def Settling (c : Config T Path) (compile : List Text → Except IoError Rules)
    (files : Path → Option (File T Text)) (r : Rules) : Phase T Path Text Rules → Prop
  | .loading _ _ => False
  | .baseline _ _ _ => False
  | .idle d => d.rules = r
  | .statting d mtimes todo =>
    (d.rules = r ∨ Backed c compile files d) ∧
      ∃ done, c.providers = done ++ todo ∧ ∀ p ∈ done, mtimes.get p.tag = stat files p
  | .reading _ _ texts todo =>
    ∃ done, c.providers = done ++ todo ∧ done.map (load files) = texts.map some

section Check

theorem Settled.file (h : Settled c compile files texts r) (hp : p ∈ c.providers) :
    ∃ f, files p.path = some f ∧ stat files p = some ⌊f.mtime⌋₊ := by
  have hmem : load files p ∈ texts.map some := h.readable ▸ mem_map_of_mem hp
  obtain ⟨_, -, hload⟩ := mem_map.mp hmem
  obtain ⟨f, hf, -⟩ := map_eq_some_iff.mp hload.symm
  refine ⟨f, hf, ?_⟩
  rw [stat_eq hf, if_neg (not_lt.mpr (h.nonneg p hp f hf))]

theorem Settled.rules_eq (h : Settled c compile files texts r) (hback : Backed c compile files d)
    (hlast : ∀ p ∈ c.providers, d.lastMtimes.get p.tag = stat files p) : d.rules = r := by
  obtain ⟨texts', hcompile, hall⟩ := hback
  have hloads : List.Forall₂ (fun p text => load files p = some text) c.providers texts' := by
    refine ((forall₂_and_left _ _).mpr ⟨fun p hp => hp, hall⟩).imp ?_
    rintro p text ⟨hp, hexplains⟩
    obtain ⟨f, hf, hstat⟩ := h.file hp
    have htext : f.text = text := (hexplains f hf).2 ((hlast p hp).trans hstat)
    unfold load
    rw [hf, ← htext]
    rfl
  have hmaps : c.providers.map (load files) = texts'.map some := by
    rw [← forall₂_eq_eq_eq, forall₂_map_left_iff, forall₂_map_right_iff]
    exact hloads
  have htexts : texts' = texts :=
    (some_injective _).list_map (hmaps.symm.trans h.readable)
  rw [htexts, h.compiles] at hcompile
  exact (Except.ok.inj hcompile).symm

theorem Settling.dial (h : Settling c compile files r phase)
    (hdial : dial c now phase = some phase') : Settling c compile files r phase' := by
  cases phase with
  | loading | baseline => cases hdial
  | idle =>
    cases hdial
    split
    · exact h
    · exact ⟨.inl h, [], rfl, fun _ hp => nomatch hp⟩
  | statting | reading => cases hdial; exact h

section
variable (hs : Settled c compile files texts r)
include hs

theorem Settling.statting (h : Settling c compile files r (.statting d mtimes todo))
    (hproceed : proceed c compile files now (.statting d mtimes todo) = some phase') :
    Settling c compile files r phase' := by
  obtain ⟨hrules, done, hps, hdone⟩ := h
  rcases todo with _ | ⟨p, todo⟩
  · rw [append_nil] at hps
    cases hproceed
    split
    next hsame =>
      refine hrules.elim id fun hback => hs.rules_eq hback fun p hp => ?_
      obtain ⟨f, -, hstat⟩ := hs.file hp
      rw [hstat]
      exact Assoc.Map.get_of_same _ hsame ((hdone p (hps ▸ hp)).trans hstat)
    · exact ⟨[], rfl, rfl⟩
  have hp : p ∈ c.providers := hps ▸ mem_append_right _ mem_cons_self
  obtain ⟨f, -, hstat⟩ := hs.file hp
  simp only [proceed, hstat] at hproceed
  cases hproceed
  refine ⟨hrules, done ++ [p], hps.trans (append_cons done p todo), ?_⟩
  intro q hq
  rcases mem_append.mp hq with hq | hq
  · rw [Assoc.Map.get_insert_ne _ (Config.tag_ne hps hq)]
    exact hdone q hq
  · rw [mem_singleton.mp hq, Assoc.Map.get_insert_self, hstat]

theorem Settling.reading {read} (h : Settling c compile files r (.reading d mtimes read todo))
    (hproceed : proceed c compile files now (.reading d mtimes read todo) = some phase') :
    Settling c compile files r phase' := by
  obtain ⟨done, hps, hdone⟩ := h
  rcases todo with _ | ⟨p, todo⟩
  · rw [append_nil] at hps
    have htexts : read = texts :=
      (some_injective _).list_map ((hps ▸ hdone).symm.trans hs.readable)
    simp only [proceed, htexts, hs.compiles] at hproceed
    cases hproceed
    rfl
  have hp : p ∈ c.providers := hps ▸ mem_append_right _ mem_cons_self
  obtain ⟨f, hf, -⟩ := hs.file hp
  have hload : load files p = some f.text := by
    unfold load
    rw [hf]
    rfl
  simp only [proceed, hload] at hproceed
  cases hproceed
  refine ⟨done ++ [p], hps.trans (append_cons done p todo), ?_⟩
  rw [map_append, map_append, hdone, map_singleton, map_singleton, hload]

theorem Settling.proceed (h : Settling c compile files r phase)
    (hproceed : proceed c compile files now phase = some phase') :
    Settling c compile files r phase' := by
  cases phase with
  | loading | baseline => exact h.elim
  | idle => cases hproceed
  | statting => exact h.statting hs hproceed
  | reading => exact h.reading hs hproceed

end

/-- The steps a check has still to take. -/
def Phase.remaining (c : Config T Path) : Phase T Path Text Rules → Nat
  | .loading _ _ => 0
  | .baseline _ _ _ => 0
  | .idle _ => 0
  | .statting _ _ todo => todo.length + c.providers.length + 2
  | .reading _ _ _ todo => todo.length + 1

theorem Settling.advances (h : Settling c compile files r phase) (now) : (∃ d, phase = .idle d) ∨
      ∃ phase', HotReload.proceed c compile files now phase = some phase' ∧
        phase'.remaining c < phase.remaining c := by
  cases phase with
  | loading | baseline => exact h.elim
  | idle d => exact .inl ⟨d, rfl⟩
  | statting d mtimes todo | reading d mtimes texts todo =>
    right
    cases todo <;> simp only [HotReload.proceed] <;> split <;>
      exact ⟨_, rfl, by simp [Phase.remaining]⟩

section Runs
variable [DecidableEq Path]

/-- **A check that nothing disturbs ends, with the rules of the files.** -/
theorem Settling.completes (hs : Settled c compile files texts r) (now)
    (phase) (h : Settling c compile files r phase) :
    ∃ k d, run (next c compile) ⟨files, phase⟩ (replicate k (.proceed now)) =
      some ⟨files, .idle d⟩ ∧ d.rules = r := by
  -- on the steps left
  induction hn : phase.remaining c using Nat.strong_induction_on generalizing phase with
  | _ n ih =>
    rcases h.advances now with ⟨d, rfl⟩ | ⟨phase', hproceed, hlt⟩
    · exact ⟨0, d, rfl, h⟩
    obtain ⟨k, d, hrun, hd⟩ := ih _ (hn ▸ hlt) phase' (h.proceed hs hproceed) rfl
    refine ⟨k + 1, d, ?_, hd⟩
    rw [replicate_succ]
    simp only [run, next, hproceed, map_some]
    exact hrun

theorem settling_next (hs : Settled c compile files texts r) (hquiet : Quiet e)
    (h : s.files = files ∧ Settling c compile files r s.phase)
    (hnext : next c compile s e = some s') :
    s'.files = files ∧ Settling c compile files r s'.phase := by
  obtain ⟨rfl, hphase⟩ := h
  cases e with
  | write | remove => exact hquiet.elim
  | dial =>
    obtain ⟨phase', hdial, rfl⟩ := map_eq_some_iff.mp hnext
    exact ⟨rfl, hphase.dial hdial⟩
  | proceed =>
    obtain ⟨_, hproceed, rfl⟩ := map_eq_some_iff.mp hnext
    exact ⟨rfl, hphase.proceed hs hproceed⟩

/-! ## A step that changes the rules -/

theorem dial_rules (hdial : dial c now phase = some phase') (hd : phase.refresh = some d)
    (hd' : phase'.refresh = some d') : d'.rules = d.rules := by
  cases phase with
  | loading | baseline => cases hd
  | idle =>
    cases hdial
    cases hd
    split at hd' <;> cases hd' <;> rfl
  | statting | reading => cases hdial; cases hd; cases hd'; rfl

theorem proceed_rules (hproceed : proceed c compile files now phase = some phase')
    (hd : phase.refresh = some d) (hd' : phase'.refresh = some d') : d'.rules = d.rules ∨
      ∃ mtimes texts, phase = .reading d mtimes texts [] ∧ compile texts = .ok d'.rules := by
  cases phase with
  | loading | baseline => cases hd
  | idle => cases hproceed
  | statting d₀ mtimes todo =>
    cases hd
    left
    cases todo <;> simp only [proceed] at hproceed <;> split at hproceed <;>
      cases hproceed <;> cases hd' <;> rfl
  | reading d₀ mtimes texts todo =>
    cases hd
    cases todo with
    | cons =>
      left
      simp only [proceed] at hproceed
      split at hproceed <;> cases hproceed <;> cases hd' <;> rfl
    | nil =>
      simp only [proceed] at hproceed
      split at hproceed <;> cases hproceed
      · cases hd'
        exact .inl rfl
      rename_i rules hcompile
      cases hd'
      exact .inr ⟨mtimes, texts, rfl, hcompile⟩

/-- **Only a compilation that succeeds changes the rules in use.** -/
theorem rules_change (hnext : next c compile s e = some s') (hd : s.phase.refresh = some d)
    (hd' : s'.phase.refresh = some d') : d'.rules = d.rules ∨
      ∃ mtimes texts, s.phase = .reading d mtimes texts [] ∧ compile texts = .ok d'.rules := by
  cases e with
  | write | remove =>
    cases hnext
    exact .inl (congrArg Refresh.rules (Option.some.inj (hd'.symm.trans hd)))
  | dial =>
    obtain ⟨phase', hdial, rfl⟩ := map_eq_some_iff.mp hnext
    exact .inl (dial_rules hdial hd hd')
  | proceed =>
    obtain ⟨_, hproceed, rfl⟩ := map_eq_some_iff.mp hnext
    exact proceed_rules hproceed hd hd'

/-! ## Reloading converges -/

/-- **The first dial after the files have settled brings their rules.** In a run whose writes
are all seen, a dial that finds the interval over leads to a check that ends, the rules in use
after it, and as long as no file changes, are those of the files as they are; and a check
whose compilation fails leaves the rules as they were. -/
theorem reload_converges (c : Config T Path) (compile : List Text → Except IoError Rules)
    (files : Path → Option (File T Text)) (as : List (Event T Path Text))
    {s : State T Path Text Rules} {d : Refresh T Rules} {texts : List Text} {r : Rules} {now : T}
    (hseen : Throughout (next c compile) (Seen c) (start c files) as)
    (hrun : run (next c compile) (start c files) as = some s) (hidle : s.phase = .idle d)
    (hread : c.providers.map (load s.files) = texts.map some) (hcompile : compile texts = .ok r)
    (hinterval : c.interval ≤ now - d.lastCheck) :
    (∃ k d', run (next c compile) s (.dial now :: replicate k (.proceed now)) =
        some ⟨s.files, .idle d'⟩ ∧ d'.rules = r) ∧
      (∀ (es : List (Event T Path Text)) (s' : State T Path Text Rules) (d' : Refresh T Rules),
        (∀ e ∈ es, Quiet e) → run (next c compile) s (.dial now :: es) = some s' →
          s'.phase = .idle d' → d'.rules = r) ∧
      ∀ (s₁ s₂ : State T Path Text Rules) (e : Event T Path Text) (d₁ d₂ : Refresh T Rules),
        next c compile s₁ e = some s₂ → s₁.phase.refresh = some d₁ → s₂.phase.refresh = some d₂ →
          d₂.rules = d₁.rules ∨
            ∃ mtimes texts, s₁.phase = .reading d₁ mtimes texts [] ∧
              compile texts = .ok d₂.rules := by
  have hinv := @run_invariant _ _ _ _
    (fun s : State T Path Text Rules => PhaseInv c compile s.files s.phase)
    (fun _ _ _ hok hinv hnext => inv_next hok hinv hnext) as _ s hseen ⟨[], rfl, .nil⟩ hrun
  rw [hidle] at hinv
  have hback : Backed c compile s.files d := hinv
  have hs : Settled c compile s.files texts r :=
    ⟨hread, hcompile, fun p hp f hf => hback.nonneg hp hf⟩
  have hdial : next c compile s (.dial now) =
      some ⟨s.files, .statting { d with lastCheck := now } .empty c.providers⟩ := by
    simp only [next, hidle, dial, if_neg (not_lt.mpr hinterval), map_some]
  have hstart : Settling c compile s.files r
      (.statting { d with lastCheck := now } .empty c.providers) :=
    ⟨.inr hback, [], rfl, fun _ hp => nomatch hp⟩
  refine ⟨?_, ?_, fun s₁ s₂ e d₁ d₂ hnext hd₁ hd₂ => rules_change hnext hd₁ hd₂⟩
  · obtain ⟨k, d', hcheck, hrules⟩ := hstart.completes hs now
    refine ⟨k, d', ?_, hrules⟩
    simp only [run, hdial]
    exact hcheck
  intro es s' d' hquiet hes hidle'
  simp only [run, hdial] at hes
  -- while the files stay as they are, the check and all later ones end with their rules
  have hend := fun hs₀ => @run_invariant _ _ (next c compile) (fun _ e => Quiet e)
    (fun s' => s'.files = s.files ∧ Settling c compile s.files r s'.phase)
    (fun _ _ _ hok hinv hnext => settling_next hs hok hinv hnext) es _ s'
    (throughout_of_forall es _ hquiet) hs₀ hes
  rw [hidle'] at hend
  exact (hend ⟨rfl, hstart⟩).2

end Runs

end Check

end Model

/-- One provider, `p`, checked every 60 seconds. -/
def oneProvider : Config ℚ Unit := ⟨[⟨⟨[112], by decide⟩, ()⟩], 60, by simp⟩

/-- The file of `oneProvider` was written at 2.5 and the dispatcher started at 2.6. -/
def startedWith (es : List (Event ℚ Unit Nat)) : Option (State ℚ Unit Nat (List Nat)) :=
  run (next oneProvider fun texts => .ok texts) (start oneProvider fun _ => some ⟨1, 5 / 2⟩)
    (replicate 4 (.proceed (13 / 5)) ++ es)

/-- A write in another second, and a check a minute later. -/
theorem reload_converges_next_second : ∃ s, startedWith [.write () 2 (7 / 2)] = some s ∧
      ∃ k d, run (next oneProvider fun texts => .ok texts) s
        (.dial 70 :: replicate k (.proceed 70)) = some ⟨s.files, .idle d⟩ ∧
        d.rules = [2] := by
  have hphase : (startedWith [.write () 2 (7 / 2)]).map State.phase =
      some (.idle ⟨[1], 13 / 5, ⟨[(⟨[112], by decide⟩, 2)], by simp⟩⟩) := by decide +kernel
  have hread : (startedWith [.write () 2 (7 / 2)]).map
      (fun s => oneProvider.providers.map (load s.files)) = some ([2].map some) := by
    decide +kernel
  obtain ⟨s, hrun, hidle⟩ := map_eq_some_iff.mp hphase
  rw [hrun] at hread
  exact ⟨s, hrun, (reload_converges oneProvider (fun texts => .ok texts) _ _ (by decide +kernel)
    hrun hidle (Option.some.inj hread) rfl (by decide +kernel)).1⟩

/-- A write in the second of the one before is never seen: a check a minute later leaves the
rules of the first text, and the file has the second one. -/
theorem same_second_not_seen :
    (startedWith [.write () 2 (14 / 5), .dial 70, .proceed 70, .proceed 70]).map (fun s =>
        (s.phase, oneProvider.providers.map (load s.files))) =
      some (.idle ⟨[1], 70, ⟨[(⟨[112], by decide⟩, 2)], by simp⟩⟩, [some 2]) := by
  decide +kernel

end Shoes.Outbound.HotReload
