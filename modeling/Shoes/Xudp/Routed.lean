import Shoes.Lib.Machine
import Shoes.Xudp.ClientFrames

/-! # Reading for the router

The UDP router reads the messages of an XUDP connection until the stream ends. -/
namespace Shoes.Xudp.Routed
open Lib.Io Lib.Machine Net.Location MessageStream ClientFrames

/-- The router, as far as it reads. `sessions` is where packets go, and `reads` is what the inner
stream will answer. -/
structure UdpRouter (S : Type) where
  server : XudpMessageStream
  serverReadEof : Bool
  sessions : S
  reads : List Read

/-- What the resolver answers during a poll, and when it is asked once more. -/
structure Answers where
  resolver : NetLocation → Resolution
  again : NetLocation → Resolution

variable {S : Type} (route : S → Message → S) (room : Nat)

/-- A round of the loop of `poll_read_server`, which is entered only before the end of the stream.
`route` is the rest of the round. -/
def pollReadServer (r : UdpRouter S) (a : Answers) : Unit × UdpRouter S :=
  ((), if r.serverReadEof then r
    else match r.server.pollReadSessionMessage a.resolver a.again room r.reads with
      | (.ready m, server, reads) =>
        if m.data.length = 0 ∧ m.addr = .v4 ⟨0, 0, 0, 0⟩ 0 then
          { r with server, reads, serverReadEof := true }
        else { r with server, reads, sessions := route r.sessions m }
      | (.failed _, server, reads) => { r with server, reads, serverReadEof := true }
      | (.pending, server, reads) => { r with server, reads }
      | (.panicked, server, reads) => { r with server, reads })

/-- The poll comes to a message for a name that the resolver fails on: one that was held back, or
one that is decoded now or after more reads. -/
inductive Unresolved (resolver : NetLocation → Resolution) : XudpMessageStream → List Read → Prop
  | held {st m reads e} (hheld : st.incomingMessage = some m) (hfits : m.data.length ≤ room)
      (hname : m.resolvedDestination = none)
      (hfails : pollResolve resolver m.originalDestination = .failed e) : Unresolved resolver st reads
  | decoded {st reads data destination core e} (hnone : st.incomingMessage = none)
      (hopen : st.isEof = false)
      (hdecoded : tryDecodeOneFrame st.toCore = .message data destination core)
      (hfails : pollResolve resolver destination = .failed e) : Unresolved resolver st reads
  | read {st core b bs reads} (hnone : st.incomingMessage = none) (hopen : st.isEof = false)
      (hmore : tryDecodeOneFrame st.toCore = .none core)
      (hrest : Unresolved resolver
        { st with toCore := { core with readBuffer := core.readBuffer ++ b :: bs } } reads) :
      Unresolved resolver st (.bytes (b :: bs) :: reads)

variable {room}

theorem Unresolved.failed {resolver st reads} (h : Unresolved room resolver st reads) (again) :
    ∃ e out, st.pollReadSessionMessage resolver again room reads = (.failed e, out) := by
  induction h with
  | held hheld hfits hname hfails =>
    simp [XudpMessageStream.pollReadSessionMessage, hheld, XudpMessageStream.pollIncoming,
      not_lt.mpr hfits, hname, hfails]
  | decoded hnone hopen hdecoded hfails =>
    rw [XudpMessageStream.pollReadSessionMessage, hnone, hopen, XudpMessageStream.pollLoop]
    simp [hdecoded, XudpMessageStream.pollDecoded, hfails]
  | read hnone hopen hmore _ ih =>
    rw [XudpMessageStream.pollReadSessionMessage] at ih ⊢
    rw [XudpMessageStream.pollLoop]
    simp only [hmore, hnone, hopen, Bool.false_eq_true, if_false] at ih ⊢
    exact ih

variable {route}

theorem ended_stays {r : UdpRouter S} (h : r.serverReadEof = true) (as) :
    after (pollReadServer route room) r as = r := by
  induction as with
  | nil => rfl
  | cons a as ih => simpa [after, pollReadServer, h] using ih

variable (route)

/-- **A name that does not resolve ends the connection**: the router takes the failure for the end
of the stream, and no packet that comes behind it is routed, whatever session it is of. -/
theorem unresolved_ends_stream (r : UdpRouter S) (a : Answers) (as : List Answers)
    (hopen : r.serverReadEof = false) (h : Unresolved room a.resolver r.server r.reads) :
    let r' := after (pollReadServer route room) r (a :: as)
    r'.serverReadEof = true ∧ r'.sessions = r.sessions := by
  obtain ⟨e, ⟨server, reads⟩, hfailed⟩ := h.failed a.again
  have hstep : (pollReadServer route room r a).2 =
      { r with server, reads, serverReadEof := true } := by
    simp [pollReadServer, hopen, hfailed]
  intro r'
  have hr' : r' = { r with server, reads, serverReadEof := true } := by
    change after _ (pollReadServer route room r a).2 as = _
    rw [hstep]
    exact ended_stays rfl as
  rw [hr']
  exact ⟨rfl, rfl⟩

/-- A packet for the host `g`, then one of another session for an IP address. -/
def client : UdpRouter (List Message) where
  server := .new
  serverReadEof := false
  sessions := []
  reads := [.bytes ([0, 10, 0, 1, 1, 1, 2, 0, 53, 2, 1, 103, 0, 1, 7] ++ (sampleNew 2 8).bytes)]

def unknownHost : IoError := .other "failed to lookup address information"

def nothing : Answers := ⟨fun _ => .failed unknownHost, fun _ => .failed unknownHost⟩

theorem unresolved_ends_stream_host :
    let r' := after (pollReadServer (· ++ [·]) 65535) client [nothing, nothing]
    r'.serverReadEof = true ∧ r'.sessions = [] :=
  unresolved_ends_stream _ client nothing [nothing] rfl
    (.read rfl rfl rfl (.decoded rfl rfl rfl rfl))

/-- The other packet would have been routed. -/
theorem other_session_lost :
    (after (pollReadServer (· ++ [·]) 65535) client [nothing, nothing]).sessions = [] ∧
    (after (pollReadServer (· ++ [·]) 65535)
      { client with reads := [.bytes (sampleNew 2 8).bytes] } [nothing, nothing]).sessions =
        [⟨1, .v4 ⟨1, 2, 3, 4⟩ 53, [8]⟩] := by
  decide +kernel

end Shoes.Xudp.Routed
