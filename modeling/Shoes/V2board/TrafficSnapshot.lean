import Shoes.Lib.Grouped
import Shoes.Lib.Json
import Shoes.Lib.Io
import Shoes.Lib.NestedMap
import Shoes.V2board.TrackerBooks

/-! # The traffic snapshot on disk

What the panel was not told is written to a file and read back at the next start. The shards are
copied under all their locks, the copies are sorted by node tag, and the JSON text is written by
hand, one object for each run of equal tags. -/
namespace Shoes.V2board.TrafficSnapshot
open Lib.Assoc Lib.Grouped Lib.Io Lib.IpText Tracker List Function Option Lib.NestedMap
open TrackerRuns
open Lib.NestedMap (find inner put settle)
open Lib.Json (Value Members Text StrText MemberText bytes ascii joined maxNum)

structure TrafficNodeSnapshot where
  nodeTag : String
  users : List (UInt64 × TrafficCounter)

/-- The nodes and their users as some iteration over the maps gives them. -/
def Iterates (traffic : Traffic) (nodes : List TrafficNodeSnapshot) : Prop :=
  ∃ users : String → List (UInt64 × TrafficCounter),
    (∀ e ∈ traffic.entries, (users e.1).Perm e.2.entries) ∧
    nodes.Perm (traffic.entries.map fun e => ⟨e.1, users e.1⟩)

/-- The functions of `serde_json`. -/
structure Serde where
  toWriterStr : String → Except String (List UInt8)
  toWriterCounter : TrafficCounter → Except String (List UInt8)
  fromSlice : List UInt8 → Except String Traffic

/-! ## The encoder -/

def captureTrafficSnapshot {n : Nat} (iterated : Fin n → List TrafficNodeSnapshot) :
    List TrafficNodeSnapshot :=
  ((finRange n).flatMap iterated).mergeSort fun left right =>
    decide (bytes left.nodeTag ≤ bytes right.nodeTag)

def failed (what : String) (e : String) : IoError := .other (what ++ e)

section
variable (serde : Serde)

/-- The users of one node, and how many of the object are written then. -/
def encodeUsers : Nat → List (UInt64 × TrafficCounter) → Except IoError (List UInt8 × Nat)
  | userIndex, [] => .ok ([], userIndex)
  | userIndex, (uid, counter) :: rest => do
    let key ← (serde.toWriterStr (ascii (uidText uid))).mapError (failed "encode traffic user: ")
    let value ← (serde.toWriterCounter counter).mapError (failed "encode traffic counter: ")
    let more ← encodeUsers (userIndex + 1) rest
    .ok ((if 0 < userIndex then [44] else []) ++ (key ++ 58 :: value) ++ more.1, more.2)

/-- The inner loop: nodes of one tag, and those behind them. -/
def encodeGroup (nodeTag : String) :
    Nat → List TrafficNodeSnapshot → Except IoError (List UInt8 × List TrafficNodeSnapshot)
  | _, [] => .ok ([], [])
  | userIndex, node :: rest =>
    if node.nodeTag = nodeTag then do
      let users ← encodeUsers serde userIndex node.users
      let more ← encodeGroup nodeTag users.2 rest
      .ok (users.1 ++ more.1, more.2)
    else .ok ([], node :: rest)

/-- The outer loop, which takes at least one node each time. -/
def encodeNodes : Nat → Nat → List TrafficNodeSnapshot → Except IoError (List UInt8)
  | 0, _, _ => .ok []
  | _ + 1, _, [] => .ok []
  | fuel + 1, nodeIndex, node :: rest => do
    let tag ← (serde.toWriterStr node.nodeTag).mapError (failed "encode traffic node: ")
    let group ← encodeGroup serde node.nodeTag 0 (node :: rest)
    let more ← encodeNodes fuel (nodeIndex + ((node :: rest).length - group.2.length)) group.2
    .ok ((if 0 < nodeIndex then [44] else []) ++ (tag ++ 58 :: 123 :: (group.1 ++ [125])) ++ more)

def encodeTrafficSnapshot (nodes : List TrafficNodeSnapshot) : Except IoError (List UInt8) := do
  let encoded ← encodeNodes serde nodes.length 0 nodes
  .ok ([123, 34, 116, 114, 97, 102, 102, 105, 99, 34, 58, 123] ++ encoded ++ [125, 125])

def snapshotBytes {n : Nat} (iterated : Fin n → List TrafficNodeSnapshot) :
    Except IoError (List UInt8) := encodeTrafficSnapshot serde (captureTrafficSnapshot iterated)

/-- The state that `new` starts from. There may be no file, and an unreadable one holds nothing. -/
def readState (file : Option (List UInt8)) : Traffic :=
  match file with
  | none => .empty
  | some bytes =>
    match serde.fromSlice bytes with
    | .ok state => state
    | .error _ => .empty

end

section
variable {n : Nat} (place : UInt64 → Fin n)

def loadUser (shards : Fin n → Traffic) (node : String) (uid : UInt64) (counter : TrafficCounter) :
    Fin n → Traffic :=
  update shards (place uid) (put (shards (place uid)) node uid counter)

/-- The loop of `new`, over a state that is iterated over in some order. -/
def load (nodes : List TrafficNodeSnapshot) : Fin n → Traffic :=
  nodes.foldl (fun shards node =>
    node.users.foldl (fun shards e => loadUser place shards node.nodeTag e.1 e.2) shards)
    fun _ => .empty

/-- A tracker that has just been started. -/
def started (nodes : List TrafficNodeSnapshot) : State n := ⟨load place nodes, [], [], []⟩

end

/-! ## What `serde_json` does -/

/-- A field of a struct: it must be there, and only once. -/
def required (name : String) (members : List (String × Value)) : Option Value :=
  match members.filter fun e => e.1 = name with
  | [e] => some e.2
  | _ => none

def readU64 : Value → Option Nat
  | .num n => if n ≤ maxNum then some n else none
  | _ => none

def readCounter : Value → Option TrafficCounter
  | .obj members =>
    match (required "upload" members.toList).bind readU64,
      (required "download" members.toList).bind readU64 with
    | some upload, some download => some ⟨upload, download⟩
    | _, _ => none
  | _ => none

/-- A key of a map that is a `u64`. -/
def readUid (key : String) : Option UInt64 :=
  match readNumber 10 20 maxNum false (bytes key) with
  | some (n, []) => some (UInt64.ofNat n)
  | _ => none

def readUsers : Users → List (String × Value) → Option Users
  | users, [] => some users
  | users, (key, value) :: rest =>
    match readUid key, readCounter value with
    | some uid, some counter => readUsers (users.insert uid counter) rest
    | _, _ => none

def readNodes : Traffic → List (String × Value) → Option Traffic
  | traffic, [] => some traffic
  | traffic, (tag, .obj members) :: rest =>
    match readUsers .empty members.toList with
    | some users => readNodes (traffic.insert tag users) rest
    | none => none
  | _, _ => none

/-- `TrackerState::deserialize`. The maps that are skipped are not fields of the file. -/
def deserialize : Value → Option Traffic
  | .obj members =>
    match required "traffic" members.toList with
    | some (.obj nodes) => readNodes .empty nodes.toList
    | _ => none
  | _ => none

/-- The counters are `u64`s. -/
def Fits (c : TrafficCounter) : Prop := c.upload ≤ maxNum ∧ c.download ≤ maxNum

def counterValue (c : TrafficCounter) : Value :=
  .obj (.ofList [("upload", .num c.upload), ("download", .num c.download)])

/-- Strings and counters are written as JSON, and JSON is read as the value it stands for. -/
structure Serde.Correct (serde : Serde) : Prop where
  str : ∀ s, ∃ text, serde.toWriterStr s = .ok text ∧ StrText s text
  counter : ∀ c, Fits c → ∃ text, serde.toWriterCounter c = .ok text ∧ Text (counterValue c) text
  reads : ∀ value text state, Text value text → deserialize value = some state →
    ∃ state', serde.fromSlice text = .ok state' ∧
      ∀ node uid, find state' node uid = find state node uid
  fits : ∀ text state, serde.fromSlice text = .ok state →
    ∀ node uid c, find state node uid = some c → Fits c

/-! ## The text -/

def userMember (e : UInt64 × TrafficCounter) : String × Value :=
  (ascii (uidText e.1), counterValue e.2)

section
variable (nodes : List TrafficNodeSnapshot)

def usersOf : List (UInt64 × TrafficCounter) :=
  nodes.flatMap TrafficNodeSnapshot.users

def nodeMember (g : String × List TrafficNodeSnapshot) : String × Value :=
  (g.1, .obj (.ofList ((usersOf g.2).map userMember)))

def groupsOf : List (String × List TrafficNodeSnapshot) :=
  groups TrafficNodeSnapshot.nodeTag nodes.length nodes

def document : Value :=
  .obj (.ofList [("traffic", .obj (.ofList ((groupsOf nodes).map nodeMember)))])

end

variable {nodes : List TrafficNodeSnapshot}

section
variable {serde : Serde}

theorem encodeUsers_text (h : serde.Correct) (us) (hfits : ∀ e ∈ us, Fits e.2) :
    ∃ texts, List.Forall₂ MemberText (us.map userMember) texts ∧
      ∀ index, encodeUsers serde index us = .ok (joined index texts, index + texts.length) := by
  induction us with
  | nil => exact ⟨[], .nil, fun _ => rfl⟩
  | cons e us ih =>
    obtain ⟨texts, htexts, hrest⟩ := ih fun e' he' => hfits e' (mem_cons_of_mem e he')
    obtain ⟨key, hkey, hkeyText⟩ := h.str (ascii (uidText e.1))
    obtain ⟨value, hvalue, hvalueText⟩ := h.counter e.2 (hfits e mem_cons_self)
    refine ⟨(key ++ 58 :: value) :: texts, .cons ⟨key, value, hkeyText, hvalueText, rfl⟩ htexts, ?_⟩
    intro index
    have hlen : index + 1 + texts.length = index + (texts.length + 1) := by omega
    rw [encodeUsers, hkey, hvalue, hrest, hlen]
    rfl

theorem encodeGroup_text (h : serde.Correct) (tag nodes)
    (hfits : ∀ node ∈ nodes, ∀ e ∈ node.users, Fits e.2) : ∃ texts, List.Forall₂ MemberText
        ((usersOf (nodes.takeWhile fun node => node.nodeTag = tag)).map userMember) texts ∧
      ∀ index, encodeGroup serde tag index nodes =
        .ok (joined index texts, nodes.dropWhile fun node => node.nodeTag = tag) := by
  induction nodes with
  | nil => exact ⟨[], .nil, fun _ => rfl⟩
  | cons node nodes ih =>
    by_cases htag : node.nodeTag = tag
    · obtain ⟨texts, htexts, hrest⟩ := ih fun node' hmem => hfits node' (.tail _ hmem)
      obtain ⟨users, husers, hown⟩ := encodeUsers_text h node.users (hfits node (.head _))
      refine ⟨users ++ texts, ?_, ?_⟩
      · rw [takeWhile_cons_of_pos (by simpa using htag), usersOf, flatMap_cons, map_append]
        exact rel_append husers htexts
      intro index
      rw [encodeGroup, if_pos htag, hown, dropWhile_cons_of_pos (by simpa using htag),
        Lib.Json.joined_append]
      show (encodeGroup serde tag (index + users.length) nodes).bind _ = _
      rw [hrest]
      rfl
    refine ⟨[], ?_, ?_⟩
    · rw [takeWhile_cons_of_neg (by simpa using htag)]
      exact .nil
    intro index
    rw [encodeGroup, if_neg htag, dropWhile_cons_of_neg (by simpa using htag)]
    rfl

theorem encodeNodes_text (h : serde.Correct) (hfuel : nodes.length ≤ fuel)
    (hfits : ∀ node ∈ nodes, ∀ e ∈ node.users, Fits e.2) : ∃ texts, List.Forall₂ MemberText
        ((groups TrafficNodeSnapshot.nodeTag fuel nodes).map nodeMember) texts ∧
      ∀ index, encodeNodes serde fuel index nodes = .ok (joined index texts) := by
  induction fuel generalizing nodes with
  | zero => exact ⟨[], .nil, fun _ => rfl⟩
  | succ fuel ih =>
    rcases nodes with _ | ⟨node, rest⟩
    · exact ⟨[], .nil, fun _ => rfl⟩
    obtain ⟨tag, htag, htagText⟩ := h.str node.nodeTag
    obtain ⟨users, husers, hgroup⟩ := encodeGroup_text h node.nodeTag (node :: rest) hfits
    have hdrop := @length_dropWhile_cons _ _ _ TrafficNodeSnapshot.nodeTag node rest
    have hlen : rest.length ≤ fuel := Nat.le_of_succ_le_succ hfuel
    obtain ⟨texts, htexts, hmore⟩ := ih (hdrop.trans hlen)
      fun node' hmem => hfits node' ((dropWhile_suffix _).subset hmem)
    refine ⟨(tag ++ 58 :: 123 :: (joined 0 users ++ [125])) :: texts,
      .cons ⟨tag, _, htagText, Lib.Json.text_joined husers, rfl⟩ htexts, ?_⟩
    intro index
    rw [encodeNodes, htag, hgroup]
    show (encodeNodes serde fuel (index + ((node :: rest).length -
      ((node :: rest).dropWhile fun node' => node'.nodeTag = node.nodeTag).length)) _).bind _ = _
    rw [hmore]
    have hpos : 0 < index + ((node :: rest).length -
        ((node :: rest).dropWhile fun node' => node'.nodeTag = node.nodeTag).length) := by
      rw [length_cons]
      omega
    rw [Lib.Json.joined_congr hpos (Nat.succ_pos index)]
    rfl

theorem strText_traffic : StrText "traffic" [34, 116, 114, 97, 102, 102, 105, 99, 34] :=
  ⟨_, Lib.Json.Body.write (bytes "traffic"), rfl⟩

/-- **The snapshot is JSON**, whatever the tags and however the users are spread. -/
theorem encode_text (h : serde.Correct) (hfits : ∀ node ∈ nodes, ∀ e ∈ node.users, Fits e.2) :
    ∃ text, encodeTrafficSnapshot serde nodes = .ok text ∧ Text (document nodes) text := by
  obtain ⟨texts, htexts, hencode⟩ := encodeNodes_text h (Nat.le_refl nodes.length) hfits
  refine ⟨_, ?_, Lib.Json.text_joined
    (.cons ⟨_, _, strText_traffic, Lib.Json.text_joined htexts, rfl⟩ .nil)⟩
  rw [encodeTrafficSnapshot, hencode]
  simp [joined, Except.bind, bind]

end

/-! ## Reading it back -/

/-- An entry that the copies hold. -/
def Holds (nodes : List TrafficNodeSnapshot) (tag : String) (uid : UInt64) (c : TrafficCounter) :
    Prop :=
  ∃ node ∈ nodes, node.nodeTag = tag ∧ (uid, c) ∈ node.users

def Agrees (nodes : List TrafficNodeSnapshot) : Prop :=
  ∀ tag uid c c', Holds nodes tag uid c → Holds nodes tag uid c' → c = c'

theorem readUid_text (uid) : readUid (ascii (uidText uid)) = some uid := by
  have hbytes : bytes (ascii (uidText uid)) = uidText uid :=
    Lib.Json.bytes_ascii (numText_ascii (by decide) (by decide))
  have hle : uid.toNat ≤ maxNum := Nat.le_of_lt_succ uid.toNat_lt
  have hread : readNumber 10 20 maxNum false (uidText uid ++ []) = some (uid.toNat, []) :=
    readNumber_numText (by decide) (by decide) (by decide) (hle.trans_lt (by decide)) hle
      (stops_nil 10)
  rw [append_nil] at hread
  rw [readUid, hbytes, hread]
  exact congrArg some (UInt64.ofNat_toNat)

variable {c : TrafficCounter}

theorem readCounter_value (h : Fits c) : readCounter (counterValue c) = some c := by
  have hup : readU64 (.num c.upload) = some c.upload := if_pos h.1
  have hdown : readU64 (.num c.download) = some c.download := if_pos h.2
  rw [counterValue, readCounter, Members.toList_ofList]
  simp [required, hup, hdown]

theorem readUsers_text (us : List (UInt64 × TrafficCounter)) (hfits : ∀ e ∈ us, Fits e.2)
    (users : Users) : readUsers users (us.map userMember) =
      some (us.foldl (fun users e => users.insert e.1 e.2) users) := by
  induction us generalizing users with
  | nil => rfl
  | cons e us ih =>
    have hrest := ih (fun e' he' => hfits e' (.tail _ he')) (users.insert e.1 e.2)
    rw [map_cons, userMember, readUsers, readUid_text, readCounter_value (hfits e (.head _))]
    exact hrest

/-- The users that are read for one run of nodes. -/
def collected (nodes : List TrafficNodeSnapshot) : Users :=
  (usersOf nodes).foldl (fun users e => users.insert e.1 e.2) .empty

theorem readNodes_text (gs : List (String × List TrafficNodeSnapshot))
    (hfits : ∀ g ∈ gs, ∀ e ∈ usersOf g.2, Fits e.2) (traffic : Traffic) :
    readNodes traffic (gs.map nodeMember) =
      some ((gs.map fun g => (g.1, collected g.2)).foldl (fun traffic e => traffic.insert e.1 e.2)
        traffic) := by
  induction gs generalizing traffic with
  | nil => rfl
  | cons g gs ih =>
    have hrest := ih (fun g' hg' => hfits g' (.tail _ hg')) (traffic.insert g.1 (collected g.2))
    rw [map_cons, nodeMember, readNodes, Members.toList_ofList,
      readUsers_text _ (hfits g (.head _))]
    exact hrest

theorem find_iff (traffic : Traffic) (tag uid c) : find traffic tag uid = some c ↔
      ∃ users, traffic.get tag = some users ∧ users.get uid = some c := by
  cases hget : traffic.get tag with
  | none => simp [find_of_none hget]
  | some => simp [find_of_some hget]

theorem mem_groupsOf :
    (∃ g ∈ groupsOf nodes, g.1 = tag ∧ (uid, c) ∈ usersOf g.2) ↔ Holds nodes tag uid c := by
  constructor
  · rintro ⟨g, hg, htag, he⟩
    obtain ⟨node, hnode, he⟩ := mem_flatMap.mp he
    obtain ⟨hmem, hkey⟩ := (mem_groups le_rfl tag node).mp ⟨g, hg, htag, hnode⟩
    exact ⟨node, hmem, hkey, he⟩
  rintro ⟨node, hmem, hkey, he⟩
  obtain ⟨g, hg, htag, hnode⟩ := (mem_groups le_rfl tag node).mpr ⟨hmem, hkey⟩
  exact ⟨g, hg, htag, mem_flatMap.mpr ⟨node, hnode, he⟩⟩

theorem get_insertAll {K V : Type} [DecidableEq K] {k} {es : List (K × V)}
    (hagree : ∀ v v', (k, v) ∈ es → (k, v') ∈ es → v = v') (v) :
    (es.foldl (fun (m : Map K V) e => m.insert e.1 e.2) .empty).get k = some v ↔ (k, v) ∈ es :=
  @get_foldl_iff _ _ _ _ Map.get (fun (m : Map K V) e => m.insert e.1 e.2)
    (fun m e k => Map.get_insert m e.1 k e.2) k es hagree .empty rfl v

theorem get_collected (hagrees : Agrees nodes) (hg : g ∈ groupsOf nodes) (uid c) :
    (collected g.2).get uid = some c ↔ (uid, c) ∈ usersOf g.2 := by
  have hholds : ∀ c, (uid, c) ∈ usersOf g.2 → Holds nodes g.1 uid c :=
    fun c he => mem_groupsOf.mp ⟨g, hg, rfl, he⟩
  exact get_insertAll (fun c c' h h' => hagrees g.1 uid c c' (hholds c h) (hholds c' h')) c

/-- The nodes are sorted by tag. -/
def Sorted (nodes : List TrafficNodeSnapshot) : Prop :=
  nodes.Pairwise fun left right => bytes left.nodeTag ≤ bytes right.nodeTag

theorem nodup_groupsOf (h : Sorted nodes) : ((groupsOf nodes).map Prod.fst).Nodup :=
  @nodup_groups _ _ _ TrafficNodeSnapshot.nodeTag (fun a b => bytes a ≤ bytes b)
    (fun a => List.le_refl (bytes a))
    (fun _ _ h h' => Lib.Json.bytes_injective (List.le_antisymm h h')) _ _ h

/-- The state that is read for a document. -/
def readBack (nodes : List TrafficNodeSnapshot) : Traffic :=
  ((groupsOf nodes).map fun g => (g.1, collected g.2)).foldl
    (fun traffic e => traffic.insert e.1 e.2) .empty

/-- **What is read is what the copies hold.** -/
theorem deserialize_document (hsorted : Sorted nodes)
    (hagrees : Agrees nodes) (hfits : ∀ tag uid c, Holds nodes tag uid c → Fits c) :
    ∃ state, deserialize (document nodes) = some state ∧
      ∀ tag uid c, find state tag uid = some c ↔ Holds nodes tag uid c := by
  have hread := readNodes_text (groupsOf nodes) (by
    intro g hg e he
    exact hfits g.1 e.1 e.2 (mem_groupsOf.mp ⟨g, hg, rfl, he⟩)) .empty
  refine ⟨readBack nodes, ?_, ?_⟩
  · have hfield (v : Lib.Json.Value) : required "traffic" [("traffic", v)] = some v := by simp [required]
    rw [document, deserialize, Members.toList_ofList, hfield]
    show readNodes .empty (Members.ofList _).toList = _
    rw [Members.toList_ofList]
    exact hread
  intro tag uid c
  have hone : ∀ users users', (tag, users) ∈ (groupsOf nodes).map (fun g => (g.1, collected g.2)) →
      (tag, users') ∈ (groupsOf nodes).map (fun g => (g.1, collected g.2)) → users = users' := by
    intro users users' hu hu'
    obtain ⟨g, hg, he⟩ := mem_map.mp hu
    obtain ⟨g', hg', he'⟩ := mem_map.mp hu'
    cases he
    obtain ⟨htag, rfl⟩ := Prod.mk.inj he'
    rw [inj_on_of_nodup_map (nodup_groupsOf hsorted) hg' hg htag]
  rw [find_iff, ← mem_groupsOf]
  constructor
  · rintro ⟨users, hget, hc⟩
    obtain ⟨g, hg, he⟩ := mem_map.mp ((get_insertAll hone users).mp hget)
    cases he
    exact ⟨g, hg, rfl, (get_collected hagrees hg uid c).mp hc⟩
  rintro ⟨g, hg, rfl, hc⟩
  exact ⟨collected g.2, (get_insertAll hone _).mpr (mem_map.mpr ⟨g, hg, rfl⟩),
    (get_collected hagrees hg uid c).mpr hc⟩

/-! ## Iterating and loading -/

theorem Iterates.holds (h : Iterates traffic nodes) (tag uid)
    (c) : Holds nodes tag uid c ↔ find traffic tag uid = some c := by
  obtain ⟨users, husers, hperm⟩ := h
  rw [find_iff]
  constructor
  · rintro ⟨node, hnode, rfl, hc⟩
    obtain ⟨e, he, rfl⟩ := mem_map.mp (hperm.mem_iff.mp hnode)
    exact ⟨e.2, lookup_of_mem traffic.nodup he,
      lookup_of_mem e.2.nodup ((husers e he).mem_iff.mp hc)⟩
  rintro ⟨under, hget, hc⟩
  have he : (tag, under) ∈ traffic.entries := lookup_mem hget
  exact ⟨⟨tag, users tag⟩, hperm.mem_iff.mpr (mem_map.mpr ⟨_, he, rfl⟩), rfl,
    (husers _ he).mem_iff.mpr (lookup_mem hc)⟩

theorem Iterates.agrees (h : Iterates traffic nodes) : Agrees nodes := by
  intro tag uid c c' hc hc'
  have heq := ((h.holds tag uid c).mp hc).symm.trans ((h.holds tag uid c').mp hc')
  exact Option.some.inj heq

section
variable {n : Nat} {place : UInt64 → Fin n}

theorem find_loadUser (shards tag uid c j tag' uid') :
    find (loadUser place shards tag uid c j) tag' uid' =
      if j = place uid ∧ tag' = tag ∧ uid' = uid then some c else find (shards j) tag' uid' := by
  unfold loadUser
  by_cases hj : j = place uid
  · rw [hj, update_self, find_put]
    simp
  · rw [update_of_ne hj, if_neg fun h => hj h.1]

/-- The loads of a start, one after the other. -/
def loads (nodes : List TrafficNodeSnapshot) : List ((String × UInt64) × TrafficCounter) :=
  nodes.flatMap fun node => node.users.map fun e => ((node.nodeTag, e.1), e.2)

theorem mem_loads : ((tag, uid), c) ∈ loads nodes ↔ Holds nodes tag uid c := by
  constructor
  · intro h
    obtain ⟨node, hnode, h⟩ := mem_flatMap.mp h
    obtain ⟨e, he, heq⟩ := mem_map.mp h
    cases heq
    exact ⟨node, hnode, rfl, he⟩
  rintro ⟨node, hnode, rfl, he⟩
  exact mem_flatMap.mpr ⟨node, hnode, mem_map.mpr ⟨_, he, rfl⟩⟩

theorem load_eq (nodes) : load place nodes =
      (loads nodes).foldl (fun shards e => loadUser place shards e.1.1 e.1.2 e.2)
        fun _ => .empty := by
  rw [load, loads, foldl_flatMap]
  simp only [foldl_map]

/-- **What is loaded is where it is looked for.** -/
theorem find_load (hagrees : Agrees nodes) (tag uid c) :
    find (load place nodes (place uid)) tag uid = some c ↔ Holds nodes tag uid c := by
  rw [load_eq, ← mem_loads]
  refine @get_foldl_iff _ _ _ _
    (fun (shards : Fin n → Traffic) (k : String × UInt64) => find (shards (place k.2)) k.1 k.2)
    (fun shards e => loadUser place shards e.1.1 e.1.2 e.2) (fun shards e k => ?_) (tag, uid)
    (loads nodes) (fun v v' h h' => hagrees tag uid v v' (mem_loads.mp h) (mem_loads.mp h'))
    (fun _ => .empty) rfl c
  rw [find_loadUser]
  by_cases hk : k = e.1
  · rw [if_pos hk, hk, if_pos ⟨rfl, rfl, rfl⟩]
  · rw [if_neg hk, if_neg fun h => hk (Prod.ext h.2.1 h.2.2)]

/-! ## Every state of the tracker -/

/-- Every entry is in the shard of its user, and its counters are `u64`s. -/
def Filed (place : UInt64 → Fin n) (shards : Fin n → Traffic) : Prop :=
  ∀ j tag uid c, find (shards j) tag uid = some c → j = place uid ∧ Fits c

variable {shards : Fin n → Traffic}

theorem filed_empty : Filed place fun _ => .empty := by
  intro j tag uid c h
  cases h

theorem Filed.update (h : Filed place shards) (hnew : ∀ tag uid c, find traffic tag uid = some c →
      find (shards j) tag uid = some c ∨ (j = place uid ∧ Fits c)) :
    Filed place (update shards j traffic) := by
  intro j' tag uid c hc
  by_cases hj : j' = j
  · subst hj
    rw [update_self] at hc
    exact (hnew tag uid c hc).elim (h j' tag uid c) id
  rw [update_of_ne hj] at hc
  exact h j' tag uid c hc

theorem Filed.put (h : Filed place shards) (tag uid) (hc : Fits c) :
    Filed place (Function.update shards (place uid) (put (shards (place uid)) tag uid c)) := by
  refine h.update ?_
  intro tag' uid' c' hfind
  rw [find_put] at hfind
  split at hfind
  · next hsame =>
    cases hfind
    exact .inr ⟨by rw [hsame.2], hc⟩
  · exact .inl hfind

theorem filed_load (hfits : ∀ tag uid c, Holds nodes tag uid c → Fits c) :
    Filed place (load place nodes) := by
  rw [load_eq]
  exact foldlRecOn _ _ filed_empty fun _ h e he =>
    h.put e.1.1 e.1.2 (hfits _ _ _ (mem_loads.mp he))

theorem Filed.countAt (h : Filed place shards) (tag uid upload download) :
    Filed place (Function.update shards (place uid)
      (Tracker.countAt (shards (place uid)) tag uid upload download)) :=
  h.put tag uid ⟨min_le_right _ _, min_le_right _ _⟩

theorem Filed.retain (h : Filed place shards) (j tag p) :
    Filed place (Function.update shards j (retain (shards j) tag p)) := by
  refine h.update ?_
  intro tag' uid c hfind
  rw [find_retain] at hfind
  split at hfind
  · next htag =>
    rw [htag]
    exact .inl (eq_some_of_filter_eq_some hfind)
  · exact .inl hfind

variable (traffic : Traffic)

theorem snapshotShard_snd (tag minTraffic payload) :
    (snapshotShard traffic tag minTraffic payload).2 =
      retain traffic tag fun _ c => !(c.settle minTraffic).isZero := by
  unfold snapshotShard retain
  cases traffic.get tag <;> rfl

theorem reconcileShard_eq (tag activeUids) : reconcileShard traffic tag activeUids =
      retain traffic tag fun uid _ => decide (uid ∈ activeUids) := by
  unfold reconcileShard retain
  cases traffic.get tag <;> rfl

theorem removeShard_eq (tag uid) : removeShard traffic tag uid = remove traffic tag uid := by
  unfold removeShard remove
  cases traffic.get tag <;> rfl

theorem Filed.removeShard (h : Filed place shards) (j tag uid) :
    Filed place (Function.update shards j (Tracker.removeShard (shards j) tag uid)) := by
  refine h.update ?_
  intro tag' uid' c hfind
  rw [removeShard_eq, find_remove] at hfind
  split at hfind
  · cases hfind
  · exact .inl hfind

variable {s s' : State n}

section
variable (h : Filed place s.shards)
include h

theorem Filed.nextShard (i tag payload minTraffic k) :
    Filed place (nextShard s i tag payload minTraffic k).shards := by
  unfold TrackerRuns.nextShard
  split
  · next hk =>
    show Filed place (Function.update s.shards ⟨k, hk⟩
      (snapshotShard (s.shards ⟨k, hk⟩) tag minTraffic payload).2)
    rw [snapshotShard_snd]
    exact h.retain ⟨k, hk⟩ tag _
  · exact h

theorem Filed.restoreEntry (i tag payload text bytes) :
    Filed place (restoreEntry place s i tag payload text bytes).shards := by
  unfold TrackerRuns.restoreEntry
  cases parseU64 text with
  | none => exact h
  | some uid => exact h.countAt tag uid bytes.1 bytes.2

theorem Filed.next (hnext : next place s a = some s') :
    Filed place s'.shards := by
  cases a with
  | addTraffic tag uid upload download =>
    cases hnext
    show Filed place (Function.update s.shards (place uid) (addShard _ tag uid upload download))
    unfold addShard
    split
    · rw [update_eq_self]
      exact h
    · exact h.countAt tag uid upload download
  | snapshotTraffic =>
    cases hnext
    exact h
  | nextShard i =>
    rw [TrackerRuns.next] at hnext
    split at hnext <;> cases hnext
    exact h.nextShard i _ _ _ _
  | acknowledge | restoreTraffic =>
    rw [TrackerRuns.next] at hnext
    split at hnext <;> cases hnext
    exact h
  | restoreNext i text =>
    rw [TrackerRuns.next] at hnext
    split at hnext
    · obtain ⟨bytes, -, rfl⟩ := map_eq_some_iff.mp hnext
      exact h.restoreEntry i _ _ text bytes
    · cases hnext
  | restored =>
    rw [TrackerRuns.next] at hnext
    split at hnext
    · split at hnext <;> cases hnext
      exact h
    · cases hnext
  | reconcileUsers tag activeUids k =>
    rw [TrackerRuns.next] at hnext
    split at hnext
    · next hk =>
      cases hnext
      rw [reconcileShard_eq]
      exact h.retain ⟨k, hk⟩ tag _
    · cases hnext
  | removeUser tag uid =>
    cases hnext
    exact h.removeShard (place uid) tag uid

end

/-! ## Capturing -/

theorem sorted_capture (iterated : Fin n → List TrafficNodeSnapshot) :
    Sorted (captureTrafficSnapshot iterated) := by
  have hsorted := @List.pairwise_mergeSort _
    (fun left right : TrafficNodeSnapshot => decide (bytes left.nodeTag ≤ bytes right.nodeTag))
    (by
      intro a b c hab hbc
      exact decide_eq_true (List.le_trans (of_decide_eq_true hab) (of_decide_eq_true hbc)))
    (by
      intro a b
      rcases List.le_total (bytes a.nodeTag) (bytes b.nodeTag) with h | h
      · simp [h]
      · simp [h])
    ((List.finRange n).flatMap iterated)
  exact hsorted.imp of_decide_eq_true

/-- **A capture holds what the shards hold.** -/
theorem holds_capture (hfiled : Filed place shards) (hiter : ∀ j, Iterates (shards j) (iterated j))
    (tag uid c) : Holds (captureTrafficSnapshot iterated) tag uid c ↔
      find (shards (place uid)) tag uid = some c := by
  have hmem : ∀ node, node ∈ captureTrafficSnapshot iterated ↔ ∃ j, node ∈ iterated j := by
    intro node
    rw [captureTrafficSnapshot, mem_mergeSort, mem_flatMap]
    simp
  constructor
  · rintro ⟨node, hnode, htag, he⟩
    obtain ⟨j, hj⟩ := (hmem node).mp hnode
    have hfind := ((hiter j).holds tag uid c).mp ⟨node, hj, htag, he⟩
    exact (hfiled j tag uid c hfind).1 ▸ hfind
  intro hfind
  obtain ⟨node, hnode, htag, he⟩ := ((hiter (place uid)).holds tag uid c).mpr hfind
  exact ⟨node, (hmem node).mpr ⟨place uid, hnode⟩, htag, he⟩

end

/-- **Unreported traffic survives a restart.** Whatever a tracker has gone through since it was
started, the snapshot that it writes is read at the next start, and what was pending for a node and
a user is pending again. -/
theorem traffic_survives_restart {serde : Serde} (hserde : serde.Correct) {n : Nat}
    (place : UInt64 → Fin n) (file : Option (List UInt8)) (loaded : List TrafficNodeSnapshot)
    (hloaded : Iterates (readState serde file) loaded) (actions : List Action) (s : State n)
    (hrun : Lib.Machine.run (next place) (started place loaded) actions = some s)
    (iterated : Fin n → List TrafficNodeSnapshot) (hiter : ∀ j, Iterates (s.shards j) (iterated j))
    : ∃ snapshot, snapshotBytes serde iterated = .ok snapshot ∧
      ∀ reloaded, Iterates (readState serde (some snapshot)) reloaded →
        ∀ node uid dir, pending place node uid dir (started place reloaded) =
          pending place node uid dir s := by
  have hfitsLoaded : ∀ tag uid c, Holds loaded tag uid c → Fits c := by
    intro tag uid c hc
    have hfind := (hloaded.holds tag uid c).mp hc
    unfold readState at hfind
    split at hfind
    · cases hfind
    split at hfind
    · next hok => exact hserde.fits _ _ hok tag uid c hfind
    · cases hfind
  have hfiled : Filed place s.shards :=
    Lib.Machine.run_invariant (fun s a s' _ h hnext => Filed.next h hnext) actions _ s
      (Lib.Machine.throughout_true _ _) (filed_load hfitsLoaded) hrun
  have hholds := holds_capture hfiled hiter
  have hagrees : Agrees (captureTrafficSnapshot iterated) := by
    intro tag uid c c' hc hc'
    exact Option.some.inj (((hholds tag uid c).mp hc).symm.trans ((hholds tag uid c').mp hc'))
  have hfits : ∀ tag uid c, Holds (captureTrafficSnapshot iterated) tag uid c → Fits c :=
    fun tag uid c hc => (hfiled _ tag uid c ((hholds tag uid c).mp hc)).2
  obtain ⟨text, hencode, htext⟩ := encode_text hserde
    (fun node hnode e he => hfits node.nodeTag e.1 e.2 ⟨node, hnode, rfl, he⟩)
  obtain ⟨state, hread, hstate⟩ := deserialize_document (sorted_capture iterated) hagrees hfits
  obtain ⟨state', hslice, hsame⟩ := hserde.reads _ _ _ htext hread
  refine ⟨text, hencode, ?_⟩
  intro reloaded hreloaded node uid dir
  have hback : readState serde (some text) = state' := by simp only [readState, hslice]
  have hfind : find (load place reloaded (place uid)) node uid =
      find (s.shards (place uid)) node uid := by
    refine Option.ext fun c => ?_
    rw [find_load hreloaded.agrees, hreloaded.holds, hback, hsame, hstate, hholds]
  show (Option.getD (find (load place reloaded (place uid)) node uid) .default).bytes dir =
    (Option.getD (find (s.shards (place uid)) node uid) .default).bytes dir
  rw [hfind]

/-! ## One implementation -/

def writeCounter (c : TrafficCounter) : List UInt8 :=
  123 :: (joined 0 [Lib.Json.writeStr "upload" ++ 58 :: numText 10 c.upload,
    Lib.Json.writeStr "download" ++ 58 :: numText 10 c.download] ++ [125])

/-- The writer of compact texts and the reader of their grammar. -/
def compact : Serde where
  toWriterStr s := .ok (Lib.Json.writeStr s)
  toWriterCounter c := .ok (writeCounter c)
  fromSlice text :=
    match (Lib.Json.read text).bind deserialize with
    | some state => .ok state
    | none => .error "invalid JSON"

theorem fits_readU64 (h : readU64 value = some n) : n ≤ maxNum := by
  unfold readU64 at h
  split at h
  · split at h
    · next hle =>
      cases h
      exact hle
    · cases h
  · cases h

theorem fits_readCounter (h : readCounter value = some c) : Fits c := by
  unfold readCounter at h
  split at h
  swap
  · cases h
  split at h
  · next hup hdown =>
    cases h
    obtain ⟨_, -, hup⟩ := bind_eq_some_iff.mp hup
    obtain ⟨_, -, hdown⟩ := bind_eq_some_iff.mp hdown
    exact ⟨fits_readU64 hup, fits_readU64 hdown⟩
  · cases h

theorem fits_readUsers (h : readUsers users members = some users')
    (hfits : ∀ uid c, users.get uid = some c → Fits c) :
    ∀ uid c, users'.get uid = some c → Fits c := by
  induction members generalizing users with
  | nil =>
    cases h
    exact hfits
  | cons e members ih =>
    unfold readUsers at h
    split at h
    swap
    · cases h
    rename_i hcounter
    refine ih h ?_
    intro uid c hc
    rw [Map.get_insert] at hc
    split at hc
    · cases hc
      exact fits_readCounter hcounter
    · exact hfits uid c hc

theorem fits_readNodes (h : readNodes traffic members = some traffic')
    (hfits : ∀ tag uid c, find traffic tag uid = some c → Fits c) :
    ∀ tag uid c, find traffic' tag uid = some c → Fits c := by
  induction members generalizing traffic with
  | nil =>
    cases h
    exact hfits
  | cons e members ih =>
    unfold readNodes at h
    split at h
    · cases h
      exact hfits
    · next heq =>
      cases heq
      split at h
      swap
      · cases h
      rename_i users husers
      refine ih h ?_
      intro tag uid c hc
      unfold find at hc
      rw [inner_insert] at hc
      split at hc
      · exact fits_readUsers husers (by simp) uid c hc
      · exact hfits tag uid c hc
    · cases h

theorem fits_deserialize (h : deserialize value = some state) :
    ∀ tag uid c, find state tag uid = some c → Fits c := by
  unfold deserialize at h
  split at h
  · split at h
    · exact fits_readNodes h (by simp)
    · cases h
  · cases h

theorem compact_correct : compact.Correct where
  str s := ⟨_, rfl, Lib.Json.writeStr_text s⟩
  counter c h := ⟨_, rfl, Lib.Json.text_joined (.cons
    ⟨_, _, Lib.Json.writeStr_text "upload", .num h.1, rfl⟩
    (.cons ⟨_, _, Lib.Json.writeStr_text "download", .num h.2, rfl⟩ .nil))⟩
  reads value text state htext hread := by
    refine ⟨state, ?_, fun _ _ => rfl⟩
    simp only [compact]
    rw [htext.read_eq, bind_some, hread]
  fits text state h := by
    simp only [compact] at h
    split at h
    · next hread =>
      cases h
      obtain ⟨value, -, hvalue⟩ := bind_eq_some_iff.mp hread
      exact fits_deserialize hvalue
    · cases h

/-- The entries in the order of the model. -/
def listed (traffic : Traffic) : List TrafficNodeSnapshot :=
  traffic.entries.map fun e => ⟨e.1, e.2.entries⟩

theorem iterates_listed (traffic) : Iterates traffic (listed traffic) := by
  have hown : ∀ e ∈ traffic.entries, (nodeMap traffic e.1).entries = e.2.entries := by
    intro e he
    have hget : traffic.get e.1 = some e.2 := lookup_of_mem traffic.nodup he
    rw [nodeMap, hget]
    rfl
  refine ⟨fun tag => (nodeMap traffic tag).entries, fun e he => .of_eq (hown e he), .of_eq ?_⟩
  exact map_congr_left fun e he => congrArg (TrafficNodeSnapshot.mk e.1) (hown e he).symm

/-- A node tag that is escaped, and two users of a node in different shards. -/
theorem traffic_survives_restart_escaped :
    ∃ s snapshot, Lib.Machine.run (next TrackerBooks.shard) (started TrackerBooks.shard [])
        [.addTraffic "a\"b" 5 10 20, .addTraffic "n" 6 1 2, .addTraffic "a\"b" 6 30 0] = some s ∧
      pending TrackerBooks.shard "a\"b" 6 .upload s = 30 ∧
      snapshotBytes compact (fun j => listed (s.shards j)) = .ok snapshot ∧
      pending TrackerBooks.shard "a\"b" 6 .upload
        (started TrackerBooks.shard (listed (readState compact (some snapshot)))) = 30 := by
  obtain ⟨snapshot, hsnapshot, hsame⟩ := traffic_survives_restart compact_correct
    TrackerBooks.shard none [] (iterates_listed .empty)
    [.addTraffic "a\"b" 5 10 20, .addTraffic "n" 6 1 2, .addTraffic "a\"b" 6 30 0] _ rfl
    (fun j => listed _) (fun j => iterates_listed _)
  refine ⟨_, snapshot, rfl, by decide, hsnapshot, ?_⟩
  rw [hsame _ (iterates_listed _)]
  decide

end Shoes.V2board.TrafficSnapshot
