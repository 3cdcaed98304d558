import Shoes.Reality.ClientAuth
import Shoes.ShadowTls.ClientHello
import Shoes.ShadowTls.ServerHello
import Shoes.Vless.TlsRecords

/-! # The camouflage destination

A REALITY server passes the ClientHello on to its destination before it looks at it, and reads the
answer. A client that is not authenticated is then connected to the destination: what is left of
either stream is passed on. -/
namespace Shoes.Reality.Camouflage
open Lib.Io ClientAuth Vless.TlsRecords List
open ShadowTls.ClientHello ShadowTls.ServerHello

/-- What a read of the destination brings. -/
inductive DestRead
  | bytes (first : UInt8) (rest : List UInt8)
  | closed
  | failed (message : String)
  | timeout

/-- All that the destination sends. -/
def destBytes : List DestRead → List UInt8
  | [] => []
  | .bytes first rest :: reads => first :: rest ++ destBytes reads
  | .timeout :: reads => destBytes reads
  | .closed :: _ => []
  | .failed _ :: _ => []

/-- How reading the destination's answer ends: with an error, with records that are passed on
whatever the client is, or with a handshake to imitate. -/
inductive Answer
  | failed (e : IoError)
  | passOn (records : List (List UInt8)) (remaining : List UInt8) (reads : List DestRead)
  | handshake (records : List (List UInt8)) (remaining : List UInt8) (reads : List DestRead)

/-- The first record is not a ServerHello of TLS 1.3. -/
def notTls13 (record : List UInt8) : Bool :=
  match parseServerHello record with
  | .ok parsed => !parsed.isTls13
  | .error _ => true

/-- The first records have come, and the destination does not speak TLS 1.3. -/
def firstIsOther (records new : List (List UInt8)) : Bool :=
  records.isEmpty && !new.isEmpty && notTls13 (new.getD 0 [])

/-- Six records, or a third record of more than 512 bytes. -/
def enough (records : List (List UInt8)) : Bool :=
  decide (records.length ≥ 6) ||
    decide (records.length ≥ 3) && decide ((records.getD 2 []).length > 512)

/-- The loop over the destination's answer. A destination that has no more to send is silent until
the deadline. -/
def readAnswer : TlsDeframer → List (List UInt8) → List DestRead → Answer
  | d, records, [] => .passOn records d.buffer []
  | d, records, .timeout :: reads => .passOn records d.buffer reads
  | _, _, .closed :: _ => .failed (.other "REALITY: Dest connection closed during TLS handshake")
  | _, _, .failed message :: _ => .failed (.other s!"REALITY: Error reading from dest: {message}")
  | d, records, .bytes first rest :: reads =>
    match (d.feed (first :: rest)).nextRecords with
    | (.error _, d) => .passOn records d.buffer reads
    | (.ok new, d) =>
      if firstIsOther records new then .passOn new d.buffer reads
      else if enough (records ++ new) then .handshake (records ++ new) d.buffer reads
      else readAnswer d (records ++ new) reads

/-- What becomes of a connection. In `relayed` the first bytes have been written to either side,
and the two streams are copied from there on. -/
inductive Outcome
  | refused (e : IoError)
  | relayed (toDest : List UInt8) (client : Source) (toClient : List UInt8) (dest : List DestRead)
  | authenticated (info : ClientHelloInfo)

section
variable (crypto : Crypto) (config : RealityServerConfig) (now : Option Nat)

/-- `setup_reality_server_stream`, behind the reading of the ClientHello. What the reader of the
ClientHello has left in its buffer is not looked at again. -/
def setupRealityServerStream (client : Source) (dest : List DestRead) : Outcome :=
  match readClientHello (Io.Stream.Input.new client) with
  | .error e => .refused e
  | .ok (hello, st) =>
    let frame := hello.clientHelloFrame
    if !hello.supportsTls13 then .relayed frame st.stream [] dest
    else
      match readAnswer .new [] dest with
      | .failed e => .refused e
      | .passOn records remaining reads =>
        .relayed frame st.stream (records.flatten ++ remaining) reads
      | .handshake records remaining reads =>
        match validateClientHello crypto config now frame with
        | .ok info => .authenticated info
        | .error e =>
          if e.kind = .permissionDenied then
            .relayed frame st.stream (records.flatten ++ remaining) reads
          else .refused e

end

/-- The client and the destination are connected as if there were nothing between them. -/
def Transparent (client : Source) (dest : List DestRead) : Outcome → Prop
  | .relayed toDest client' toClient dest' =>
    toDest ++ client'.bytes = client.bytes ∧ toClient ++ destBytes dest' = destBytes dest
  | _ => False

/-! ## What the destination must do -/

/-- The destination's answer comes to an end, and no whole record comes in one read with, and in
front of, bytes that are none. -/
def Answers : TlsDeframer → List (List UInt8) → List DestRead → Prop
  | _, _, [] => True
  | _, _, .timeout :: _ => True
  | _, _, .closed :: _ => False
  | _, _, .failed _ :: _ => False
  | d, records, .bytes first rest :: reads =>
    match (d.feed (first :: rest)).nextRecords with
    | (.error _, d') => d'.buffer = d.buffer ++ first :: rest
    | (.ok new, d') =>
      firstIsOther records new = true ∨ enough (records ++ new) = true ∨
        Answers d' (records ++ new) reads

/-- The destination's answer is a handshake to imitate. -/
def Handshakes : TlsDeframer → List (List UInt8) → List DestRead → Prop
  | d, records, .bytes first rest :: reads =>
    match (d.feed (first :: rest)).nextRecords with
    | (.error _, _) => False
    | (.ok new, d') =>
      firstIsOther records new = false ∧
        (enough (records ++ new) = true ∨ Handshakes d' (records ++ new) reads)
  | _, _, _ => False

section
variable {d : TlsDeframer} {records : List (List UInt8)} {reads : List DestRead}

/-- What an answer has to do with what the destination sent, in front of which `d` and `records`
were read. -/
def Answer.Accounts (d : TlsDeframer) (records : List (List UInt8)) (reads : List DestRead) :
    Answer → Prop
  | .failed _ => ¬ Answers d records reads
  | .passOn records' remaining reads' =>
    ¬ Handshakes d records reads ∧
      (Answers d records reads ↔ records'.flatten ++ remaining ++ destBytes reads' =
        records.flatten ++ d.buffer ++ destBytes reads)
  | .handshake records' remaining reads' =>
    Handshakes d records reads ∧ Answers d records reads ∧
      records'.flatten ++ remaining ++ destBytes reads' =
        records.flatten ++ d.buffer ++ destBytes reads

theorem Answer.Accounts.congr {answer : Answer} {d' : TlsDeframer}
    {records' : List (List UInt8)} (h : answer.Accounts d' records' reads')
    (hanswers : Answers d records reads ↔ Answers d' records' reads')
    (hhandshakes : Handshakes d records reads ↔ Handshakes d' records' reads')
    (hbytes : records.flatten ++ d.buffer ++ destBytes reads =
      records'.flatten ++ d'.buffer ++ destBytes reads') : answer.Accounts d records reads := by
  cases answer with
  | failed => exact fun hans => h (hanswers.mp hans)
  | passOn =>
    refine ⟨fun hhand => h.1 (hhandshakes.mp hhand), ?_⟩
    rw [hanswers, hbytes]
    exact h.2
  | handshake =>
    refine ⟨hhandshakes.mpr h.1, hanswers.mpr h.2.1, ?_⟩
    rw [hbytes]
    exact h.2.2

/-- **The loop accounts for every byte of the answer**, or loses the records in front of a
malformed one. -/
theorem readAnswer_accounts : (readAnswer d records reads).Accounts d records reads := by
  induction reads generalizing d records with
  | nil => exact ⟨id, by simp [Answers]⟩
  | cons read reads ih =>
    cases read with
    | closed | failed => exact id
    | timeout => exact ⟨id, by simp [Answers, destBytes]⟩
    | bytes first rest =>
      rw [readAnswer]
      split
      · -- not a record
        rename_i e d' hnext
        refine ⟨by simp only [Handshakes, hnext, not_false_eq_true], ?_⟩
        simp only [Answers, hnext, destBytes, List.append_assoc, List.append_cancel_left_eq]
        rw [← List.append_assoc, List.append_cancel_right_eq]
      rename_i new d' hnext
      have hbytes : records.flatten ++ d.buffer ++ destBytes (.bytes first rest :: reads) =
          (records ++ new).flatten ++ d'.buffer ++ destBytes reads := by
        have hrecords : d.buffer ++ (first :: rest) = new.flatten ++ d'.buffer :=
          TlsDeframer.nextRecordsLoop_bytes hnext
        simp only [destBytes, List.flatten_append, List.append_assoc]
        rw [← List.append_assoc new.flatten, ← hrecords]
        simp
      split
      · -- not TLS 1.3
        rename_i hother
        refine ⟨by simp [Handshakes, hnext, hother], ?_⟩
        have hempty : records = [] := by
          simp only [firstIsOther, Bool.and_eq_true, List.isEmpty_iff] at hother
          exact hother.1.1
        rw [hbytes, hempty]
        have hans : Answers d records (.bytes first rest :: reads) := by
          simp only [Answers, hnext]
          exact .inl hother
        rw [hempty] at hans
        exact ⟨fun _ => rfl, fun _ => hans⟩
      rename_i hfirst
      rw [Bool.not_eq_true] at hfirst
      split
      next henough =>
        exact ⟨by simp [Handshakes, hnext, hfirst, henough],
          by simp [Answers, hnext, henough], hbytes.symm⟩
      rename_i hmore
      refine ih.congr ?_ ?_ hbytes
      · simp [Answers, hnext, hfirst, hmore]
      · simp [Handshakes, hnext, hfirst, hmore]

end

/-! ## Who is connected to the destination -/

section
variable (crypto : Crypto) (config : RealityServerConfig) (now : Option Nat)

/-- Nothing came with the ClientHello; and if the client speaks TLS 1.3 the destination answers, and
the ClientHello has a session id and a key if that answer is a handshake to imitate. -/
def Connects (hello : ParsedClientHello) (st : Io.Stream.Input tlsFrameMaxLen)
    (dest : List DestRead) : Prop :=
  st.reader.unparsed = [] ∧
    (hello.supportsTls13 = true → Answers .new [] dest ∧
      (Handshakes .new [] dest → ∃ p, presented crypto config hello.clientHelloFrame = .ok p))

/-- **A client without a key is connected to the destination when its first record is a ClientHello
that the server reads**, alone and with all that a REALITY client sends, and the destination answers.
-/
theorem camouflage_transparent_iff (client : Source) (dest : List DestRead)
    (hkey : ∀ hello st, readClientHello (Io.Stream.Input.new client) = .ok (hello, st) →
      ¬ HoldsKey crypto config hello.clientHelloFrame) :
    Transparent client dest (setupRealityServerStream crypto config now client dest) ↔
      ∃ hello st, readClientHello (Io.Stream.Input.new client) = .ok (hello, st) ∧
        Connects crypto config hello st dest := by
  unfold setupRealityServerStream
  rcases hread : readClientHello (Io.Stream.Input.new client) with _ | result
  · constructor
    · exact False.elim
    intro ⟨hello, st, h, _⟩
    cases h
  obtain ⟨hello, st⟩ := result
  have hclient : hello.clientHelloFrame ++ st.stream.bytes = client.bytes ↔
      st.reader.unparsed = [] := by
    have hview : client.bytes =
        hello.clientHelloFrame ++ (st.reader.unparsed ++ st.stream.bytes) :=
      readClientHello_view hread
    rw [hview, append_cancel_left_eq, self_eq_append_left]
  simp only [Except.ok.injEq, Prod.mk.injEq, and_assoc, exists_and_left, exists_eq_left']
  obtain ⟨e, hvalidate, hdenied⟩ :=
    @validateClientHello_without_key crypto config now _ (hkey hello st hread)
  have haccounts := @readAnswer_accounts .new [] dest
  rcases htls13 : hello.supportsTls13 with _ | _
  · show (_ ∧ [] ++ destBytes dest = destBytes dest) ↔ _
    simp [Connects, hclient, htls13]
  cases hanswer : readAnswer .new [] dest with
  | failed =>
    rw [hanswer] at haccounts
    exact ⟨False.elim, fun h => haccounts (h.2 htls13).1⟩
  | passOn records remaining reads =>
    rw [hanswer] at haccounts
    have hbytes : Answers .new [] dest ↔
        records.flatten ++ remaining ++ destBytes reads = destBytes dest := haccounts.2
    show (hello.clientHelloFrame ++ st.stream.bytes = client.bytes ∧ _) ↔ _
    rw [hclient, ← hbytes]
    exact ⟨fun h => ⟨h.1, fun _ => ⟨h.2, fun hhand => absurd hhand haccounts.1⟩⟩,
      fun h => ⟨h.1, (h.2 htls13).1⟩⟩
  | handshake records remaining reads =>
    rw [hanswer] at haccounts
    obtain ⟨hhand, hans, hsame⟩ := haccounts
    have hbytes : records.flatten ++ remaining ++ destBytes reads = destBytes dest := hsame
    simp only [hvalidate, Bool.not_true, Bool.false_eq_true, if_false]
    split
    next hkind =>
      show (hello.clientHelloFrame ++ st.stream.bytes = client.bytes ∧ _) ↔ _
      rw [hclient]
      exact ⟨fun h => ⟨h.1, fun _ => ⟨hans, fun _ => hdenied.mp hkind⟩⟩, fun h => ⟨h.1, hbytes⟩⟩
    next hkind => exact ⟨False.elim, fun h => hkind (hdenied.mpr ((h.2 htls13).2 hhand))⟩

end

/-- A ClientHello of TLS 1.3 with a key share. -/
def probe (sessionId : List UInt8) : List UInt8 :=
  let extensions : List UInt8 := [0, 43, 0, 3, 2, 3, 4] ++ [0, 51, 0, 38, 0, 36, 0, 29, 0, 32] ++
    replicate 32 9
  let message := [3, 3] ++ replicate 32 7 ++ UInt8.ofNat sessionId.length :: sessionId ++
    [0, 2, 19, 1] ++ [1, 0] ++ [0, UInt8.ofNat extensions.length] ++ extensions
  let handshake := [1, 0, 0, UInt8.ofNat message.length] ++ message
  [22, 3, 1, 0, UInt8.ofNat handshake.length] ++ handshake

/-- A ServerHello of TLS 1.3 and five records behind it. -/
def probeAnswer : List DestRead :=
  [.bytes 22 ([3, 3, 0, 50] ++ [2, 0, 0, 46] ++ [3, 3] ++ replicate 32 5 ++ [0] ++ [19, 1] ++
    [0] ++ [0, 6] ++ [0, 43, 0, 2, 3, 4] ++
    (replicate 5 [23, 3, 3, 0, 1, 0]).flatten)]

/-- Keys agree, and nothing opens. -/
def probeCrypto : Crypto where
  ecdh _ publicKey := some publicKey
  deriveAuthKey sharedSecret _ := some sharedSecret
  openSessionId _ _ _ _ := none

def probeConfig : RealityServerConfig :=
  ⟨replicate 32 1, [replicate 8 0], none, none, none, []⟩

def sendAll (bytes : List UInt8) (h : bytes ≠ []) : Source := ⟨[bytes], by simpa using h⟩

theorem probe_ne_nil (sessionId) : probe sessionId ≠ [] := cons_ne_nil _ _

theorem not_holdsKey_probeCrypto (config hello) : ¬ HoldsKey probeCrypto config hello := by
  intro ⟨p, plaintext, _, hopen, _⟩
  cases hopen

set_option maxRecDepth 4000 in
theorem camouflage_transparent_iff_probe :
    Transparent (sendAll (probe (replicate 32 0)) (probe_ne_nil _)) probeAnswer
      (setupRealityServerStream probeCrypto probeConfig none
        (sendAll (probe (replicate 32 0)) (probe_ne_nil _)) probeAnswer) := by
  refine (camouflage_transparent_iff _ _ none _ _
    fun _ _ _ => not_holdsKey_probeCrypto _ _).mpr
      ⟨_, _, rfl, rfl, fun _ => ⟨?_, fun _ => ⟨_, rfl⟩⟩⟩
  exact .inr (.inl rfl)

theorem short_session_id_refused : setupRealityServerStream probeCrypto probeConfig none
        (sendAll (probe []) (probe_ne_nil _)) probeAnswer =
      .refused ⟨.invalidData, "Invalid session ID length"⟩ := rfl

end Shoes.Reality.Camouflage
