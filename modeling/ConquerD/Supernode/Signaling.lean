import ConquerD.Features.Replay
import ConquerD.Wire.Signaling

/-!
# Supernode: the checks on a signaling frame

A raw frame is parsed, its signature checked against the sender's key, its
timestamp against the clock, and the pair of sender and signature against the
replay guard, in this order. The guard is keyed by the text of the signature.
-/

namespace ConquerD.Supernode

open ConquerD.Features Lib.Encoding Wire

variable {τ : Type} (P : Platform) (C : Codec τ)

namespace Signaling

/-- The timestamp as it stood on the wire, if it came from there. -/
def canonicalBytes (m : Envelope τ) : Bytes :=
  P.jsonToVec (m.canonicalJson C (m.timestampRaw.getD (C.fromF64 m.timestamp)))

def verifyWithPub (pubBytes signature data : Bytes) : Bool :=
  if pubBytes.length ≠ 32 ∨ signature.length ≠ 64 then false
  else P.ed25519Verify pubBytes signature data

def verify (m : Envelope τ) : Bool :=
  match m.signature with
  | none => false
  | some sigB64 =>
    match P.b64urlDecode sigB64, P.b64urlDecode m.sender with
    | some sigBytes, some pubBytes => verifyWithPub P pubBytes sigBytes (canonicalBytes P C m)
    | _, _ => false

def fromJson (raw : String) : Option (Envelope τ) := do
  let v ← P.jsonFromStr raw
  let msgType ← C.typeFromValue (← v.get? "type")
  some {
    msgType := msgType
    sender := (v.str? "sender").getD ""
    payload := (v.get? "payload").getD (.obj [])
    timestamp := ((v.get? "timestamp").bind C.asF64).getD 0
    target := v.str? "target"
    signature := v.str? "signature"
    protocolVersion := (((v.get? "v").bind Json.asU64?).getD protocolVersion) % 2 ^ 32
    timestampRaw := v.get? "timestamp" }

end Signaling

/-- The longest frame that is parsed, in bytes. -/
def maxFrameBytes : Nat := 262144

/-- Seconds a timestamp may be off the clock. -/
def maxMessageAgeSecs : Rat := 300

/-- The part of the signaling server the checks read and write. -/
structure SignalingServer where
  replayGuard : ReplayGuard

namespace SignalingServer

def new : SignalingServer where
  replayGuard := .new (some 300)

variable (s : SignalingServer)

/-- The message to route, if the frame passes its checks at `now`. -/
def acceptSigned (now : Rat) (raw : String) : Option (Envelope τ) × SignalingServer :=
  if raw.utf8ByteSize > maxFrameBytes then (none, s)
  else
    match Signaling.fromJson P C raw with
    | none => (none, s)
    | some parsed =>
      if !Signaling.verify P C parsed || !parsed.isFresh now maxMessageAgeSecs then (none, s)
      else
        match parsed.signature with
        | none => (none, s)
        | some sig =>
          let checked := s.replayGuard.checkAndRecordAt parsed.sender (utf8Bytes sig) now
          (if checked.1 then some parsed else none, ⟨checked.2⟩)

end SignalingServer

end ConquerD.Supernode
