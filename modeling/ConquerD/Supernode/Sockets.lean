import ConquerD.Lib.Run
import ConquerD.Supernode.Crypto
import ConquerD.Supernode.Signaling
import Mathlib.Algebra.BigOperators.Group.List.Basic

/-!
# Supernode: WebSockets

A connection is registered under the sender of the first frame that passes the
checks, whatever the frame says and whomever it is for, and frames for that
sender are relayed to the connection from then on. What the handler does with a
frame is left out.
-/

namespace ConquerD.Supernode

open ConquerD.Features Lib.Encoding Wire
open Std (ExtTreeMap)

variable {τ : Type} (P : Platform) (C : Codec τ)

/-- Candidate keys of the socket table for an identity: as it is, padded, bare. -/
def identityKeyVariants (identityPub : String) : List String :=
  let canon := normalizePublicId identityPub
  [identityPub] ++ (if canon ≠ identityPub then [canon] else []) ++
    (if bare identityPub ≠ identityPub then [bare identityPub] else [])

/-- The hexadecimal spelling of a public id, where it is one. -/
def peerIdAliasFor (sender : String) : Option String :=
  match P.b64urlDecode sender with
  | some bytes => if bytes.length ≠ 32 then none else some (P.derivePeerId bytes)
  | none => none

/-! ## The socket table -/

/-- The connections by identity. A connection is known by its place among those
that were opened. -/
structure SignalingState where
  peerSockets : ExtTreeMap String Nat
  /-- The identity a hexadecimal peer id is registered under. -/
  peerIdAliases : ExtTreeMap String String
  connectedCount : Nat

namespace SignalingState

def new : SignalingState := ⟨∅, ∅, 0⟩

variable (st : SignalingState)

/-- The connection a target is reached on, in whichever spelling. -/
def socketForTarget (target : String) : Option Nat :=
  match (identityKeyVariants target).findSome? fun key => st.peerSockets[key]? with
  | some c => some c
  | none => st.peerIdAliases[target]?.bind fun canonical => st.peerSockets[canonical]?

/-- Drops a socket and the aliases that point at it. -/
def removePeerSocket (key : String) : SignalingState :=
  { st with
    peerSockets := st.peerSockets.erase key
    peerIdAliases := st.peerIdAliases.filter fun _ canonical => canonical != key }

/-- Registers a connection, in the place of any other under the same sender. -/
def registerSocket (sender : String) (c : Nat) : SignalingState where
  peerSockets := st.peerSockets.insert sender c
  peerIdAliases :=
    match peerIdAliasFor P sender with
    | some peerId => st.peerIdAliases.insert peerId sender
    | none => st.peerIdAliases
  connectedCount :=
    if st.peerSockets[sender]?.isNone then st.connectedCount + 1 else st.connectedCount

end SignalingState

/-! ## The checks of the read loop -/

def isBulkFileData (mt : τ) : Bool :=
  C.asWireStr mt ∈ ["file_transfer_chunk", "file_transfer_complete", "sfu_file_chunk",
    "sfu_file_complete"]

def isSfuAudio (mt : τ) : Bool :=
  C.asWireStr mt == "sfu_audio"

def rateMax : Nat := 60
def rateWindowSecs : Rat := 10

/-- A connection, as its read loop keeps it. -/
structure WsConnection where
  /-- The keys of whoever opened it. The node does not know them. -/
  held : Set Bytes
  /-- The sender it is registered under. -/
  peerId : Option String
  rateCount : Nat
  rateWindowStart : Rat
  /-- Its read loop has ended. -/
  closed : Bool

/-- Control messages are counted; bulk file data and audio are not. -/
def WsConnection.countFrame (conn : WsConnection) (mt : τ) (instant : Rat) : WsConnection × Bool :=
  if isBulkFileData C mt || isSfuAudio C mt then (conn, true)
  else
    let conn :=
      if rateWindowSecs ≤ instant - conn.rateWindowStart then
        { conn with rateWindowStart := instant, rateCount := 0 }
      else conn
    let conn := { conn with rateCount := conn.rateCount + 1 }
    (conn, decide (conn.rateCount ≤ rateMax))

/-- A text frame as it arrives. -/
structure WsFrame where
  raw : String
  /-- Seconds on the wall clock. -/
  now : Rat
  /-- Seconds on the clock the rate is counted by. -/
  instant : Rat
  /-- The queue of the connection it is relayed to takes it. -/
  queued : Bool

/-- The message of a frame that passes the checks, and what the checks leave behind. -/
def checkFrame (guard : ReplayGuard) (conn : WsConnection) (f : WsFrame) :
    Option (Envelope τ) × ReplayGuard × WsConnection :=
  if f.raw.utf8ByteSize > maxFrameBytes then (none, guard, conn)
  else
    match Signaling.fromJson P C f.raw with
    | none => (none, guard, conn)
    | some parsed =>
      let admitted := conn.countFrame C parsed.msgType f.instant
      if !admitted.2 then (none, guard, admitted.1)
      else if !Signaling.verify P C parsed || !parsed.isFresh f.now maxMessageAgeSecs then
        (none, guard, admitted.1)
      -- high-rate frames may come twice
      else if isBulkFileData C parsed.msgType || isSfuAudio C parsed.msgType then
        (some parsed, guard, admitted.1)
      else
        match parsed.signature with
        | none => (none, guard, admitted.1)
        | some sig =>
          let checked := guard.checkAndRecordAt parsed.sender (utf8Bytes sig) f.now
          (if checked.1 then some parsed else none, checked.2, admitted.1)

/-! ## The server -/

/-- A frame that was written to a connection, and the target it was for. -/
structure RelayedFrame where
  target : String
  connection : Nat
  raw : String

structure WsServer where
  ourId : String
  state : SignalingState
  replayGuard : ReplayGuard
  /-- The connections so far. -/
  connections : List WsConnection
  /-- What was relayed so far, the latest first. -/
  relayed : List RelayedFrame

namespace WsServer

def start (ourId : String) : WsServer where
  ourId := ourId
  state := .new
  replayGuard := .new (some 300)
  connections := []
  relayed := []

variable (s : WsServer)

/-- A connection that is not registered yet goes under the sender. -/
def register (c : Nat) (conn : WsConnection) (sender : String) : WsServer :=
  if conn.peerId.isNone then
    { s with
      state := s.state.registerSocket P sender c
      connections := s.connections.set c { conn with peerId := some sender } }
  else { s with connections := s.connections.set c conn }

/-- A frame that is not for the node goes to its target. -/
def relay (m : Envelope τ) (f : WsFrame) : WsServer :=
  match m.target with
  | none => s
  | some target =>
    if target = s.ourId then s
    else
      match s.state.socketForTarget target with
      | none => s
      | some c =>
        if f.queued then { s with relayed := ⟨target, c, f.raw⟩ :: s.relayed } else s

/-- A text frame on an open connection. -/
def onText (c : Nat) (conn : WsConnection) (f : WsFrame) : WsServer :=
  let checked := checkFrame P C s.replayGuard conn f
  let s := { s with replayGuard := checked.2.1 }
  match checked.1 with
  | none => { s with connections := s.connections.set c checked.2.2 }
  | some parsed => (s.register P c checked.2.2 parsed.sender).relay parsed f

/-- The end of a connection. A socket that another connection has taken is left alone. -/
def onClosed (c : Nat) (conn : WsConnection) : WsServer :=
  let s := { s with connections := s.connections.set c { conn with closed := true } }
  match conn.peerId with
  | none => s
  | some pid =>
    if s.state.peerSockets[pid]? = some c then
      { s with
        state :=
          { s.state.removePeerSocket pid with connectedCount := s.state.connectedCount - 1 }
        replayGuard := s.replayGuard.forgetPeer pid }
    else s

end WsServer

/-- What happens to the server, in any order. -/
inductive WsEvent where
  /-- Someone who holds these keys opens a connection. -/
  | opened (held : Set Bytes) (instant : Rat)
  | text (c : Nat) (f : WsFrame)
  | closed (c : Nat)

def WsServer.step (s : WsServer) : WsEvent → WsServer
  | .opened held instant =>
    { s with connections := s.connections ++ [⟨held, none, 0, instant, false⟩] }
  | .text c f =>
    match s.connections[c]? with
    | none => s
    | some conn => if conn.closed then s else s.onText P C c conn f
  | .closed c =>
    match s.connections[c]? with
    | none => s
    | some conn => if conn.closed then s else s.onClosed c conn

/-! ## The write channel of a peer -/

def peerQueueMaxBytes : Nat := 8 * 1024 * 1024

/-- The channel, with the calls that are under way on it. -/
structure PeerChannel where
  /-- The counter that both ends share. -/
  queued : Nat
  /-- Counted by `send`, and about to be queued. -/
  sending : List String
  /-- Counted by `send`, and about to be given back. -/
  refused : List String
  queue : List String
  /-- Received, and still counted. -/
  taken : List String
  gone : Bool
  /-- The bytes that were queued when the receiver went. -/
  dropped : Nat

/-- One atomic step of a call of one of the senders or of the receiver. -/
inductive ChannelStep where
  | fetchAdd (json : String)
  | enqueue (json : String)
  | giveBack (json : String)
  | recv
  | release (json : String)
  | close

namespace PeerChannel

def bytes (frames : List String) : Nat :=
  (frames.map String.utf8ByteSize).sum

def step (ch : PeerChannel) : ChannelStep → PeerChannel
  | .fetchAdd json =>
    let ch' := { ch with queued := ch.queued + json.utf8ByteSize }
    if ch'.queued > peerQueueMaxBytes then { ch' with refused := json :: ch.refused }
    else { ch' with sending := json :: ch.sending }
  | .enqueue json =>
    if json ∉ ch.sending then ch
    else
      let ch' := { ch with sending := ch.sending.erase json }
      if ch.gone then { ch' with refused := json :: ch.refused }
      else { ch' with queue := ch.queue ++ [json] }
  | .giveBack json =>
    if json ∉ ch.refused then ch
    else { ch with refused := ch.refused.erase json, queued := ch.queued - json.utf8ByteSize }
  | .recv =>
    match ch.queue with
    | [] => ch
    | json :: queue => { ch with queue := queue, taken := json :: ch.taken }
  | .release json =>
    if json ∉ ch.taken then ch
    else { ch with taken := ch.taken.erase json, queued := ch.queued - json.utf8ByteSize }
  | .close => { ch with queue := [], gone := true, dropped := ch.dropped + bytes ch.queue }

/-- What is held of the frames that were let in, and what the counter says. -/
structure Bounded (ch : PeerChannel) : Prop where
  held : bytes ch.sending + bytes ch.queue + bytes ch.taken ≤ peerQueueMaxBytes
  counted : ch.queued =
    bytes ch.sending + bytes ch.refused + bytes ch.queue + bytes ch.taken + ch.dropped

variable {ch : PeerChannel} {json : String} {frames : List String}

theorem bytes_cons : bytes (json :: frames) = json.utf8ByteSize + bytes frames := by
  simp [bytes]

theorem bytes_concat : bytes (frames ++ [json]) = bytes frames + json.utf8ByteSize := by
  simp [bytes]

theorem bytes_erase (h : ¬ json ∉ frames) :
    json.utf8ByteSize + bytes (frames.erase json) = bytes frames :=
  List.sum_map_erase _ (not_not.mp h)

theorem Bounded.step (h : ch.Bounded) (s : ChannelStep) : (ch.step s).Bounded := by
  obtain ⟨hheld, hcounted⟩ := h
  cases s with
  | fetchAdd json =>
    dsimp only [PeerChannel.step]
    split
    · exact ⟨hheld, by simp only [bytes_cons]; omega⟩
    · constructor <;> simp only [bytes_cons] <;> omega
  | enqueue json =>
    dsimp only [PeerChannel.step]
    split
    · exact ⟨hheld, hcounted⟩
    · next hin =>
      have herase := bytes_erase hin
      split
      · exact ⟨by dsimp only; omega, by simp only [bytes_cons]; omega⟩
      · constructor <;> simp only [bytes_concat] <;> omega
  | giveBack json =>
    dsimp only [PeerChannel.step]
    split
    · exact ⟨hheld, hcounted⟩
    · next hin =>
      have herase := bytes_erase hin
      exact ⟨hheld, by dsimp only; omega⟩
  | recv =>
    dsimp only [PeerChannel.step]
    split
    · exact ⟨hheld, hcounted⟩
    · next hqueue =>
      rw [hqueue, bytes_cons] at hheld hcounted
      constructor <;> simp only [bytes_cons] <;> omega
  | release json =>
    dsimp only [PeerChannel.step]
    split
    · exact ⟨hheld, hcounted⟩
    · next hin =>
      have herase := bytes_erase hin
      exact ⟨by dsimp only; omega, by dsimp only; omega⟩
  | close =>
    have hnil : bytes [] = 0 := rfl
    exact ⟨by dsimp only [PeerChannel.step]; omega, by dsimp only [PeerChannel.step]; omega⟩

/-- However the calls of the senders and the receiver interleave, the frames that are let
in stay under the ceiling, and the counter counts what is under way and nothing else. -/
theorem channel_bounded (steps : List ChannelStep) :
    (Lib.Run.run PeerChannel.step ⟨0, [], [], [], [], false, 0⟩ steps).Bounded :=
  Lib.Run.run_inv Bounded ⟨Nat.zero_le _, rfl⟩ fun _ s h => h.step s

end PeerChannel

end ConquerD.Supernode
