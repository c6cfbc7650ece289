import ConquerD.Wire.Platform

/-!
# Client: what media frames sign

Video and content audio are signed frame by frame with the identity key: the
conversation and the sender with their lengths, the header fields and the hash
of the sealed frame, after a tag of their own.
-/

namespace ConquerD.Client

open Lib.Encoding Wire

def videoSigDomain : String := "conquerd.video.frame.v1"
def contentAudioSigDomain : String := "conquerd.content.audio.frame.v1"

inductive VideoCodec where
  | h264
  | vp8
  | stub
  deriving DecidableEq, Repr

def VideoCodec.asWire : VideoCodec → UInt8
  | .h264 => 0x01
  | .vp8 => 0x02
  | .stub => 0xFF

/-- An unknown byte is no codec. -/
def VideoCodec.fromWire (b : UInt8) : Option VideoCodec :=
  if b = 0x01 then some .h264
  else if b = 0x02 then some .vp8
  else if b = 0xFF then some .stub
  else none

@[simp] theorem VideoCodec.fromWire_asWire (c : VideoCodec) : fromWire c.asWire = some c := by
  cases c <;> rfl

/-- A text after its length, a number of 32 bits. -/
def lengthPrefixed (s : String) : Bytes :=
  beBytes 4 (utf8Bytes s).length ++ utf8Bytes s

variable (P : Platform)

def videoFrameSigningBytes (convId sender : String) (sequence : UInt32) (codec : VideoCodec)
    (ptsUs : UInt64) (sealedFrame : Bytes) : Bytes :=
  utf8Bytes videoSigDomain ++ lengthPrefixed convId ++ lengthPrefixed sender ++
    beBytes 4 sequence.toNat ++ [codec.asWire] ++ beBytes 8 ptsUs.toNat ++ P.sha256 sealedFrame

def contentAudioSigningBytes (convId sender : String) (seq : UInt32) (ptsUs : UInt64)
    (payload : Bytes) : Bytes :=
  utf8Bytes contentAudioSigDomain ++ lengthPrefixed convId ++ lengthPrefixed sender ++
    beBytes 4 seq.toNat ++ beBytes 8 ptsUs.toNat ++ P.sha256 payload

/-- The conversation of two peers: their ids in order. -/
def directConvId (a b : String) : String :=
  if a ≤ b then a ++ "|" ++ b else b ++ "|" ++ a

end ConquerD.Client
