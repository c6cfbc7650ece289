import ConquerD.Client.Inbound
import ConquerD.Features.Replay
import ConquerD.Wire.Signaling

/-!
# Client: the checks on an inbound message

Messages reach the client over direct QUIC, over a supernode's WebSocket and
over its relay, and all pass the same checks: signature and freshness, the
replay guard, and for chat, call and file messages the sender's trust. What is
inside a sealed envelope passes them again. When a session ends, the replay
window filed under its id is dropped.
-/

namespace ConquerD.Client

open Std (ExtTreeMap)
open ConquerD.Features Lib.Encoding Wire

/-- The message types the checks tell apart; any other one by its name. -/
inductive SignalType where
  | encryptedSignal
  | sfuAudio
  | chatMessage
  | chatAck
  | chatTyping
  | callRequest
  | callAccept
  | callReject
  | callEnd
  | fileTransferOffer
  | fileTransferAccept
  | fileTransferReject
  | fileTransferChunk
  | fileTransferComplete
  | fileTransferAck
  | fileTransferError
  | sfuFileChunk
  | sfuFileComplete
  | other (name : String)
  deriving DecidableEq, Repr

namespace SignalType

def isOrderedFilePayload (t : SignalType) : Bool :=
  t ∈ [fileTransferChunk, fileTransferComplete, sfuFileChunk, sfuFileComplete]

/-- Not held against the replay guard. -/
def dedupExempt (t : SignalType) : Bool :=
  t == sfuAudio || t.isOrderedFilePayload

/-- Honoured from trusted peers only. -/
def trustGated (t : SignalType) : Bool :=
  t ∈ [chatMessage, chatAck, chatTyping, callRequest, callAccept, callReject, callEnd,
    fileTransferOffer, fileTransferAccept, fileTransferReject, fileTransferChunk,
    fileTransferComplete, fileTransferAck, fileTransferError]

end SignalType

/-- Seconds a timestamp may be off the clock. -/
def maxMessageAgeSecs : Rat := 300

section Checks

variable (P : Platform) (C : Codec SignalType) (m : Envelope SignalType)

def canonicalBytes : Bytes :=
  P.jsonToVec (m.canonicalJson C (C.fromF64 m.timestamp))

/-- The signature of a message, decoded. -/
def signatureBytes : Option Bytes :=
  m.signature.bind (b64urlDecode P)

def verifyInboundSignature (now : Rat) : Bool :=
  match signatureBytes P m, b64urlDecode P m.sender with
  | some sigBytes, some pubBytes =>
    if pubBytes.length ≠ 32 then false
    else if !P.ed25519Verify pubBytes sigBytes (canonicalBytes P C m) then false
    else m.isFresh now maxMessageAgeSecs
  | _, _ => false

def checkReplay (g : ReplayGuard) (now : Rat) : Bool × ReplayGuard :=
  match signatureBytes P m with
  | none => (false, g)
  | some sigBytes => g.checkAndRecordAt m.sender sigBytes now

/-- The verdict on a message, and the guard after it. -/
def inboundChecks (g : ReplayGuard) (now : Rat) (trusted : String → Bool) :
    Bool × ReplayGuard :=
  if !verifyInboundSignature P C m now then (false, g)
  else
    let replay := if m.msgType.dedupExempt then (true, g) else checkReplay P m g now
    (replay.1 && (!m.msgType.trustGated || trusted m.sender), replay.2)

end Checks

/-- A message as it arrives: when, with the verdict of the peer store on each
sender, and with what an envelope holds if it decrypts and parses. -/
structure Arrival where
  now : Rat
  msg : Envelope SignalType
  trusted : String → Bool
  inner : Option (Envelope SignalType)

/-- What the checks and the ends of sessions read and write. -/
structure Inbox where
  replayGuard : ReplayGuard
  quicPeerAliases : ExtTreeMap String String

namespace Inbox

def new : Inbox where
  replayGuard := .new (some maxMessageAgeSecs)
  quicPeerAliases := ∅

variable (P : Platform) (C : Codec SignalType) (b : Inbox)

def check (m : Envelope SignalType) (now : Rat) (trusted : String → Bool) : Bool × Inbox :=
  let checked := inboundChecks P C m b.replayGuard now trusted
  (checked.1, { b with replayGuard := checked.2 })

/-- The messages that pass the checks: the one that arrived, and the one inside
it if it is an envelope. The latter has the envelope's sender and is no envelope
again. -/
def handleInboundInner (a : Arrival) : List (Envelope SignalType) × Inbox :=
  let outer := b.check P C a.msg a.now a.trusted
  if !outer.1 then ([], outer.2)
  else if a.msg.msgType ≠ .encryptedSignal then ([a.msg], outer.2)
  else
    match a.inner with
    | none => ([a.msg], outer.2)
    | some inner =>
      if inner.msgType = .encryptedSignal ∨ inner.sender ≠ a.msg.sender then ([a.msg], outer.2)
      else
        let again := outer.2.check P C inner a.now a.trusted
        (if again.1 then [inner, a.msg] else [a.msg], again.2)

def resolveQuicPeerAlias (peerId : String) : String :=
  (b.quicPeerAliases[peerId]?).getD peerId

/-- A QUIC session is renamed after a signed handshake. -/
def relabelQuicPeerSession (current canonical : String) : Inbox :=
  { b with quicPeerAliases := b.quicPeerAliases.insert current canonical }

def quicDisconnected (peerId : String) : Inbox where
  replayGuard := b.replayGuard.forgetPeer (b.resolveQuicPeerAlias peerId)
  quicPeerAliases := b.quicPeerAliases.erase peerId

def wsDisconnected (peerId : String) : Inbox :=
  { b with replayGuard := b.replayGuard.forgetPeer peerId }

end Inbox

end ConquerD.Client
