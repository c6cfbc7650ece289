import ConquerD.Features.Quota
import ConquerD.Features.Replay
import ConquerD.Supernode.Handlers

/-!
# Supernode: frames on their way in, with replay windows and quotas

A verified frame meets the replay guard and then the quota of its feature. Both
are kept under the sender as the frame spells it. Frames a connection has too
many of do not get this far.
-/

namespace ConquerD.Supernode

open ConquerD.Features Lib.Bucket Lib.Encoding Wire

/-- A verified frame and when it arrived, in nanoseconds. -/
structure IngressFrame where
  now : Nat
  msg : SignalingMessage
  /-- A chunk of a file between two peers, or the end of one: a message of a type
  the handlers leave alone. -/
  peerFileData : Bool

namespace IngressFrame

variable (f : IngressFrame)

/-- The sender, as the frame spells it. -/
def sender : String := f.msg.sender.text

def isBulkFileData : Bool :=
  match f.msg.msgType with
  | .sfuFile kind => filePayloadBypassesQuota kind
  | .other => f.peerFileData
  | _ => false

/-- High-rate frames that may come twice are not held against replay. -/
def replayExempt : Bool :=
  f.isBulkFileData || f.msg.msgType == .sfuAudio

end IngressFrame

/-- The feature a room frame is metered in, and its bytes. -/
def meter (P : Platform) (msg : SignalingMessage) : Option (String × Nat) :=
  match msg.msgType with
  | .sfuChat => some ("room.chat.v1", sfuChatByteCount msg.payload)
  | .sfuAudio => some ("room.audio.sfu", sfuAudioOpusByteCount P msg.payload)
  | .sfuFile kind => some ("room.file.v1", sfuFileInboundByteCount msg.payload kind)
  | _ => none

/-- The room member a frame is taken for: chat and files are filed under the
canonical spelling, speakers under the one in the frame. -/
def participant (msg : SignalingMessage) : String :=
  match msg.msgType with
  | .sfuAudio => msg.sender.text
  | _ => normalizePublicId msg.sender.text

/-- A frame its quota let pass. -/
structure Admission where
  frame : IngressFrame
  feature : String
  bytes : Nat

/-- The replay windows and the buckets of a node. -/
structure Ingress where
  features : FeatureRegistry
  replayGuard : ReplayGuard

namespace Ingress

/-- A node that has just started. -/
def start (inner : String → Option DescriptorParams) : Ingress where
  features := ⟨inner, .new, .new⟩
  replayGuard := .new (some 300)

variable (P : Platform) (s : Ingress) (f : IngressFrame)

/-- Whether the frame is new, and the guard after it. -/
def checkReplay : Bool × ReplayGuard :=
  if f.replayExempt then (true, s.replayGuard)
  else
    (f.msg.signature.map fun sig =>
        s.replayGuard.checkAndRecordAt f.sender (utf8Bytes sig) (secs f.now)).getD
      (false, s.replayGuard)

/-- What a frame leaves behind, and what of it its quota let pass. -/
def receive : Ingress × Option Admission :=
  let checked := s.checkReplay f
  let s := { s with replayGuard := checked.2 }
  if !checked.1 then (s, none)
  else
    match meter P f.msg with
    | none => (s, none)
    | some (feature, bytes) =>
      if bytes = 0 then (s, none)
      else
        let gate := s.features.gateInboundThroughFeature feature f.sender f.now bytes
        ({ s with features := gate.1 }, if gate.2 then some ⟨f, feature, bytes⟩ else none)

end Ingress

/-- A node and what its quotas let pass so far, the latest first. -/
structure IngressLog where
  ingress : Ingress
  admitted : List Admission

namespace IngressLog

variable (P : Platform)

def start (inner : String → Option DescriptorParams) : IngressLog :=
  ⟨.start inner, []⟩

def receive (L : IngressLog) (f : IngressFrame) : IngressLog :=
  let r := L.ingress.receive P f
  ⟨r.1, r.2.toList ++ L.admitted⟩

end IngressLog

/-!
## Supernode: relaying room files under quotas

The relay of room-file frames with its buckets as state. The handler of a frame
asks the sender's bucket once and each recipient's at most once, at the moment
the frame arrives.
-/

/-- A room-file frame and when it arrived, in nanoseconds. -/
structure FileFrame where
  now : Nat
  msg : SignalingMessage
  raw : String
  kind : FileMessage

/-- What the gates said of one frame: for its sender, when asked, and for each
recipient it got as far as. -/
structure FileVerdict where
  inbound : Option Bool
  outbound : List (String × Bool)
  deriving DecidableEq

def roomFile : String := "room.file.v1"

namespace SupernodeState

variable (st : SupernodeState) (reg : FeatureRegistry) (f : FileFrame)

abbrev fileBytes (f : FileFrame) : Nat :=
  sfuFileInboundByteCount f.msg.payload f.kind

/-- The members a frame would be sent to. -/
def fileTargets : List String :=
  fileFrameRecipients (st.sfu.getChatRecipients (frameRoom f.msg)) f.msg.sender.text
    (f.msg.payload.str? "to")

/-- Asks the bucket of each recipient in turn. -/
def gateRecipients [Rounding] (reg : FeatureRegistry) (now byteCount : Nat) :
    List String → FeatureRegistry × List (String × Bool)
  | [] => (reg, [])
  | peer :: peers =>
    let gate := reg.gateThroughFeature roomFile peer now byteCount
    let rest := gateRecipients gate.1 now byteCount peers
    (rest.1, (peer, gate.2) :: rest.2)

def relayFile [Rounding] : FeatureRegistry × FileVerdict :=
  if fileBytes f = 0 then (reg, ⟨none, []⟩)
  else
    let gate := reg.gateInboundThroughFeature roomFile f.msg.sender.text f.now (fileBytes f)
    if !gate.2 && !filePayloadBypassesQuota f.kind then (gate.1, ⟨some gate.2, []⟩)
    else if !st.sfu.isChatSender (frameRoom f.msg) f.msg.sender.text then
      (gate.1, ⟨some gate.2, []⟩)
    else if filePayloadBypassesQuota f.kind then
      (gate.1, ⟨some gate.2, (st.fileTargets f).map fun peer => (peer, true)⟩)
    else
      let out := gateRecipients gate.1 f.now f.raw.utf8ByteSize (st.fileTargets f)
      (out.1, ⟨some gate.2, out.2⟩)

/-- The buckets after one frame. -/
def relayStep [Rounding] (reg : FeatureRegistry) (f : FileFrame) : FeatureRegistry :=
  (st.relayFile reg f).1

end SupernodeState

end ConquerD.Supernode
