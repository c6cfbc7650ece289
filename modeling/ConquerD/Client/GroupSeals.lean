import ConquerD.Client.GroupKey
import ConquerD.Client.MediaSigning

/-!
# Client: what is sealed under a room key

Media frames, chat bodies and file chunks of a conversation are sealed under the key of
its current epoch. The associated data tells the place of what is sealed: the
conversation, the sender and a tail of the codec's own. The cipher is a parameter.
-/

namespace ConquerD.Client

open Lib.Encoding Wire

/-- Length of the nonce of a frame. -/
def voiceNonceLen : Nat := 12

/-- The epoch and the nonce. -/
def voiceHeaderLen : Nat := 1 + voiceNonceLen

/-- The cipher. It seals under a nonce it has drawn. -/
structure Aesgcm where
  encrypt : (key : EpochKey) → (nonce plaintext aad : Bytes) → Option Bytes
  decrypt : (key : EpochKey) → (nonce ciphertext aad : Bytes) → Option Bytes

/-- What the codecs read of the keys. -/
structure GroupKeySource where
  currentEpoch : String → UInt8
  epochKey : String → UInt8 → Option EpochKey

def SenderKeysGroup.source (P : Platform) (g : SenderKeysGroup) : GroupKeySource where
  currentEpoch convId := .ofNat (g.currentEpoch convId)
  epochKey convId epoch := g.epochKey convId P epoch.toNat

/-! ## Media frames -/

def voiceAad (convId sender : String) (sequence : UInt64) : Bytes :=
  lengthPrefixed convId ++ lengthPrefixed sender ++ beBytes 8 sequence.toNat

inductive MediaKind where
  | voice
  | video
  | contentAudio
  deriving DecidableEq, Repr

/-- The associated data of voice is followed by nothing, as it was before there was video. -/
def MediaKind.tag : MediaKind → Bytes
  | .voice => []
  | .video => [0x02]
  | .contentAudio => [0x03]

def mediaAad (kind : MediaKind) (convId sender : String) (sequence : UInt64) : Bytes :=
  voiceAad convId sender sequence ++ kind.tag

variable (A : Aesgcm) (keys : GroupKeySource)

def sealMediaFrame (kind : MediaKind) (convId sender : String) (sequence : UInt64)
    (nonce plaintext : Bytes) : Option Bytes := do
  let epoch := keys.currentEpoch convId
  let key ← keys.epochKey convId epoch
  let ct ← A.encrypt key nonce plaintext (mediaAad kind convId sender sequence)
  return epoch :: nonce ++ ct

def openMediaFrame (kind : MediaKind) (convId sender : String) (sequence : UInt64)
    (frame : Bytes) : Option Bytes :=
  if frame.length < voiceHeaderLen then none
  else do
    let epoch ← frame[0]?
    let nonce := (frame.drop 1).take voiceNonceLen
    let ct := frame.drop voiceHeaderLen
    let key ← keys.epochKey convId epoch
    A.decrypt key nonce ct (mediaAad kind convId sender sequence)

def sealVoiceFrame (convId sender : String) (sequence : UInt64) (nonce opus : Bytes) :
    Option Bytes :=
  sealMediaFrame A keys .voice convId sender sequence nonce opus

def openVoiceFrame (convId sender : String) (sequence : UInt64) (frame : Bytes) : Option Bytes :=
  openMediaFrame A keys .voice convId sender sequence frame

/-! ## Chat bodies and file chunks -/

/-- The nonce and what was sealed, beside the epoch. -/
def sealUnder (convId : String) (aad nonce plaintext : Bytes) : Option (UInt8 × Bytes) := do
  let epoch := keys.currentEpoch convId
  let key ← keys.epochKey convId epoch
  let ct ← A.encrypt key nonce plaintext aad
  return (epoch, nonce ++ ct)

def openUnder (convId : String) (aad : Bytes) (epoch : UInt8) (sealedBytes : Bytes) :
    Option Bytes :=
  if sealedBytes.length < voiceNonceLen then none
  else do
    let nonce := sealedBytes.take voiceNonceLen
    let ct := sealedBytes.drop voiceNonceLen
    let key ← keys.epochKey convId epoch
    A.decrypt key nonce ct aad

def chatAad (convId sender messageId : String) : Bytes :=
  [convId, sender, messageId].flatMap lengthPrefixed

def sealChatBody (convId sender messageId : String) (nonce body : Bytes) :
    Option (UInt8 × Bytes) :=
  sealUnder A keys convId (chatAad convId sender messageId) nonce body

def openChatBody (convId sender messageId : String) (epoch : UInt8) (sealedBody : Bytes) :
    Option Bytes :=
  openUnder A keys convId (chatAad convId sender messageId) epoch sealedBody

def fileChunkAad (convId sender transferId : String) (chunkIndex : UInt64) : Bytes :=
  [convId, sender, transferId].flatMap lengthPrefixed ++ beBytes 8 chunkIndex.toNat

def sealFileChunk (convId sender transferId : String) (chunkIndex : UInt64) (nonce data : Bytes) :
    Option (UInt8 × Bytes) :=
  sealUnder A keys convId (fileChunkAad convId sender transferId chunkIndex) nonce data

def openFileChunk (convId sender transferId : String) (chunkIndex : UInt64) (epoch : UInt8)
    (sealedData : Bytes) : Option Bytes :=
  openUnder A keys convId (fileChunkAad convId sender transferId chunkIndex) epoch sealedData

end ConquerD.Client
