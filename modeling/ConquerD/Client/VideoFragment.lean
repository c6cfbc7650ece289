import ConquerD.Client.Delta
import ConquerD.Client.MediaSigning
import ConquerD.Client.RoomStore
import ConquerD.Lib.Chunks
import ConquerD.Lib.Tally
import Mathlib.Data.List.MinMax

/-!
# Client: video frames in fragments

A frame is cut into fragments that fit a datagram each. The receiver puts the
fragments of a frame together, bounded in time and in memory: it keeps few
senders, few incomplete frames of a sender and few bytes of them. Time is counted
in milliseconds. Among the incomplete frames that wait longest, the first one the
hash map yields is shed.
-/

namespace ConquerD.Client.Video

open Std (ExtTreeMap)
open Lib Lib.Chunks Lib.Encoding

/-! ## Wire format -/

def fragmentVersion : UInt8 := 0x03
def fixedPrefixLen : Nat := 12
def fixedSuffixLen : Nat := 8
def signatureLen : Nat := 64
def maxSenderLen : Nat := 64
def flagKeyframe : UInt8 := 0b01
def flagHasSignature : UInt8 := 0b10

def maxFragsPerFrame : Nat := 128
def maxPartialBytesPerSender : Nat := 512 * 1024
def maxSenders : Nat := 32
def maxInFlightPerSender : Nat := 8
def partialTimeout : Nat := 200
def monotonicLag : UInt32 := 2
def restartBackwardJump : UInt32 := 256

abbrev FrameSignature := { bs : Bytes // bs.length = signatureLen }

structure FragmentHeader where
  keyframe : Bool
  codec : VideoCodec
  ptsUs : UInt64
  sender : String
  frameSeq : UInt32
  fragIdx : Nat
  fragCount : Nat
  signature : Option FrameSignature
  deriving DecidableEq

structure ReassembledFrame where
  sender : String
  frameSeq : UInt32
  keyframe : Bool
  codec : VideoCodec
  ptsUs : UInt64
  signature : FrameSignature
  sealedFrame : Bytes
  deriving DecidableEq

/-- The flags of a fragment. -/
def flagsOf (keyframe isFirst : Bool) : UInt8 :=
  (if keyframe then flagKeyframe else 0) ||| (if isFirst then flagHasSignature else 0)

/-- One fragment; the first carries the signature. -/
def fragmentBytes (sender : String) (frameSeq : UInt32) (keyframe : Bool) (codec : VideoCodec)
    (ptsUs : UInt64) (signature : FrameSignature) (count idx : Nat) (chunk : Bytes) : Bytes :=
  [fragmentVersion, flagsOf keyframe (idx == 0), codec.asWire] ++ beBytes 8 ptsUs.toNat ++
    [UInt8.ofNat (utf8Bytes sender).length] ++ utf8Bytes sender ++ beBytes 4 frameSeq.toNat ++
    beBytes 2 idx ++ beBytes 2 count ++ (if idx == 0 then signature.val else []) ++ chunk

/-- The fragments of a frame, each of at most `maxPayload` bytes. -/
def fragmentFrame (sender : String) (frameSeq : UInt32) (keyframe : Bool) (codec : VideoCodec)
    (ptsUs : UInt64) (signature : FrameSignature) (sealedFrame : Bytes) (maxPayload : Nat) :
    Option (List Bytes) :=
  let senderLen := (utf8Bytes sender).length
  if senderLen = 0 ∨ senderLen > maxSenderLen then none
  else
    let base := fixedPrefixLen + senderLen + fixedSuffixLen
    if maxPayload < base + signatureLen then none
    else
      -- every chunk fits beside the signature of the first
      let chunkCap := maxPayload - (base + signatureLen)
      if chunkCap = 0 then none
      else
        let count := chunkCount chunkCap sealedFrame.length
        if count > maxFragsPerFrame then none
        else
          some ((List.range count).map fun idx =>
            fragmentBytes sender frameSeq keyframe codec ptsUs signature count idx
              (chunk chunkCap sealedFrame idx))

/-- The signature of the first fragment, and no other, and what follows it. -/
def takeSignature (hasSig : Bool) (rest : Bytes) : Option (Option FrameSignature × Bytes) :=
  if hasSig then
    if h : signatureLen ≤ rest.length then
      some (some ⟨rest.take signatureLen, List.length_take_of_le h⟩, rest.drop signatureLen)
    else none
  else some (none, rest)

/-- The header of a fragment and its chunk. -/
def parseFragment (buf : Bytes) : Option (FragmentHeader × Bytes) := do
  guard (fixedPrefixLen ≤ buf.length)
  guard (buf[0]? = some fragmentVersion)
  let flags ← buf[1]?
  let codec ← VideoCodec.fromWire (← buf[2]?)
  let ptsUs := fromBeBytes ((buf.drop 3).take 8)
  let senderLen := (← buf[11]?).toNat
  guard (senderLen ≠ 0 ∧ senderLen ≤ maxSenderLen)
  let senderEnd := fixedPrefixLen + senderLen
  let suffixEnd := senderEnd + fixedSuffixLen
  guard (suffixEnd ≤ buf.length)
  let sender ← fromUtf8 ((buf.drop fixedPrefixLen).take senderLen)
  let frameSeq := fromBeBytes ((buf.drop senderEnd).take 4)
  let fragIdx := fromBeBytes ((buf.drop (senderEnd + 4)).take 2)
  let fragCount := fromBeBytes ((buf.drop (senderEnd + 6)).take 2)
  guard (fragCount ≠ 0 ∧ fragCount ≤ maxFragsPerFrame)
  guard (fragIdx < fragCount)
  let hasSig := flags &&& flagHasSignature != 0
  guard (hasSig = (fragIdx == 0))
  let (signature, chunk) ← takeSignature hasSig (buf.drop suffixEnd)
  return ({
    keyframe := flags &&& flagKeyframe != 0
    codec := codec
    ptsUs := .ofNat ptsUs
    sender := sender
    frameSeq := .ofNat frameSeq
    fragIdx := fragIdx
    fragCount := fragCount
    signature := signature }, chunk)

/-! ## Sequence numbers -/

/-- `a` is newer than `b`, across the wrap. -/
def seqNewer (a b : UInt32) : Bool :=
  a != b && a - b < 0x80000000

/-- A keyframe far behind is the start of a new stream. -/
def isStreamRestart (lastCompleted : UInt32) (hdr : FragmentHeader) : Bool :=
  hdr.keyframe && lastCompleted - hdr.frameSeq > restartBackwardJump

/-- The frame is the last completed one, or too far behind it. -/
def isSuperseded (lastCompleted frameSeq : UInt32) : Bool :=
  seqNewer (lastCompleted - monotonicLag) frameSeq || frameSeq == lastCompleted

/-! ## Partial frames -/

structure PartialFrame where
  keyframe : Bool
  codec : VideoCodec
  ptsUs : UInt64
  signature : Option FrameSignature
  chunks : List (Option Bytes)
  received : Nat
  bytes : Nat
  firstSeen : Nat
  deriving DecidableEq

/-- What comes of a fragment that completes no frame. -/
inductive Dropped where
  | malformed
  | senderTableFull
  | superseded
  | otherCount
  | otherCodec
  | otherPts
  | duplicate
  | overBudget
  | evicted
  | incomplete
  | noSignature
  | missingSlot
  deriving DecidableEq, Repr

abbrev PushResult := Except Dropped ReassembledFrame

namespace PartialFrame

def new (hdr : FragmentHeader) (now : Nat) : PartialFrame where
  keyframe := hdr.keyframe
  codec := hdr.codec
  ptsUs := hdr.ptsUs
  signature := none
  chunks := List.replicate hdr.fragCount none
  received := 0
  bytes := 0
  firstSeen := now

variable (entry : PartialFrame)

/-- The slot of the fragment is filled. -/
def hasChunk (idx : Nat) : Bool :=
  (entry.chunks[idx]?.getD none).isSome

/-- Why a fragment cannot be part of the frame, or is there already. -/
def refuses (hdr : FragmentHeader) : Option Dropped :=
  if entry.chunks.length ≠ hdr.fragCount then some .otherCount
  else if entry.codec ≠ hdr.codec then some .otherCodec
  else if entry.ptsUs ≠ hdr.ptsUs then some .otherPts
  else if entry.hasChunk hdr.fragIdx then some .duplicate
  else none

def store (hdr : FragmentHeader) (chunk : Bytes) : PartialFrame :=
  { entry with
    signature := hdr.signature.or entry.signature
    chunks := entry.chunks.set hdr.fragIdx (some chunk)
    received := entry.received + 1
    bytes := entry.bytes + chunk.length }

end PartialFrame

/-! ## Senders -/

structure SenderState where
  partials : Tally.Map UInt32 PartialFrame := ∅
  bytes : Nat := 0
  lastCompleted : Option UInt32 := none

namespace SenderState

variable (v : VisitOrder) (s : SenderState)

def dropPartial (seq : UInt32) : SenderState :=
  match s.partials.lookup seq with
  | some p => { s with partials := s.partials.erase seq, bytes := s.bytes - p.bytes }
  | none => s

/-- The partial that has been waiting longest. -/
def oldest? : Option UInt32 :=
  ((v.order s.partials.entries).argmin fun e => e.2.firstSeen).map fun e => e.1

def evictOldest : SenderState :=
  match s.oldest? v with
  | some seq => s.dropPartial seq
  | none => s

def evictExpired (now : Nat) : SenderState :=
  let expired := s.partials.entries.filter fun e => partialTimeout ≤ now - e.2.firstSeen
  (expired.map fun e => e.1).foldl dropPartial s

/-- Fragments of superseded frames are ignored, unless the sender has started over:
then all that is buffered belongs to the stream before. -/
def gate (hdr : FragmentHeader) : Option SenderState :=
  match s.lastCompleted with
  | none => some s
  | some last =>
    if isSuperseded last hdr.frameSeq then
      if isStreamRestart last hdr then some {} else none
    else some s

/-- Room for one more partial. -/
def makeRoom (seq : UInt32) : SenderState :=
  if seq ∉ s.partials ∧ maxInFlightPerSender ≤ Tally.size s.partials then s.evictOldest v else s

/-- The partial of the frame, a new one if need be. -/
def openPartial (hdr : FragmentHeader) (now : Nat) : PartialFrame × SenderState :=
  match s.partials.lookup hdr.frameSeq with
  | some entry => (entry, s)
  | none =>
    let entry := PartialFrame.new hdr now
    (entry, { s with partials := s.partials.insert hdr.frameSeq entry })

/-- Sheds the oldest partials until `len` more bytes fit or one partial is left. -/
def shed (len : Nat) : Nat → SenderState → SenderState
  | 0, s => s
  | fuel + 1, s =>
    if maxPartialBytesPerSender < s.bytes + len ∧ 1 < Tally.size s.partials then
      shed len fuel (s.evictOldest v)
    else s

/-- Room for `len` more bytes; without it the frame is dropped. -/
def makeBudget (seq : UInt32) (len : Nat) : SenderState × Bool :=
  if maxPartialBytesPerSender < s.bytes + len then
    let s := shed v len (Tally.size s.partials) s
    if maxPartialBytesPerSender < s.bytes + len then (s.dropPartial seq, false)
    else (s, true)
  else (s, true)

/-- The newest completed frame moves on, and what is too far behind it is dropped. -/
def noteCompleted (seq : UInt32) : SenderState :=
  if s.lastCompleted.all fun last => seqNewer seq last then
    let stale := s.partials.keys.filter fun other => seqNewer (seq - monotonicLag) other
    stale.foldl dropPartial { s with lastCompleted := some seq }
  else s

/-- Hands a frame out, all of whose fragments are there. -/
def complete (hdr : FragmentHeader) (entry : PartialFrame) : SenderState × PushResult :=
  match entry.signature with
  | none => (s, .error .noSignature)
  | some signature =>
    if entry.chunks.all Option.isSome then
      ((s.dropPartial hdr.frameSeq).noteCompleted hdr.frameSeq, .ok {
        sender := hdr.sender
        frameSeq := hdr.frameSeq
        keyframe := entry.keyframe
        codec := entry.codec
        ptsUs := entry.ptsUs
        signature := signature
        sealedFrame := (entry.chunks.filterMap id).flatten })
    else (s, .error .missingSlot)

def storeChunk (hdr : FragmentHeader) (entry : PartialFrame) (chunk : Bytes) : SenderState :=
  { s with
    partials := s.partials.insert hdr.frameSeq (entry.store hdr chunk)
    bytes := s.bytes + chunk.length }

def push (hdr : FragmentHeader) (chunk : Bytes) (now : Nat) : SenderState × PushResult :=
  match s.gate hdr with
  | none => (s, .error .superseded)
  | some s =>
    let (entry, s) := (s.makeRoom v hdr.frameSeq).openPartial hdr now
    match entry.refuses hdr with
    | some why => (s, .error why)
    | none =>
      let (s, fits) := s.makeBudget v hdr.frameSeq chunk.length
      if fits then
        -- the shedding may have removed this very partial
        match s.partials.lookup hdr.frameSeq with
        | none => (s, .error .evicted)
        | some entry =>
          let s := s.storeChunk hdr entry chunk
          let entry := entry.store hdr chunk
          if entry.received < hdr.fragCount then (s, .error .incomplete)
          else s.complete hdr entry
      else (s, .error .overBudget)

end SenderState

/-! ## The reassembler -/

structure Reassembler where
  senders : ExtTreeMap String SenderState := ∅

namespace Reassembler

variable (r : Reassembler)

def trackedSenders : Nat :=
  r.senders.size

def bufferedBytes (sender : String) : Nat :=
  (r.senders[sender]?.map fun s => s.bytes).getD 0

def clear (_ : Reassembler) : Reassembler := {}

/-- A sender without partials and without a completed frame is forgotten. -/
def evictExpired (now : Nat) : Reassembler where
  senders := r.senders.filterMap fun _ s =>
    let s := s.evictExpired now
    if s.partials.entries.isEmpty && s.lastCompleted.isNone then none else some s

def push (v : VisitOrder) (buf : Bytes) (now : Nat) : Reassembler × PushResult :=
  match parseFragment buf with
  | none => (r, .error .malformed)
  | some (hdr, chunk) =>
    let r := r.evictExpired now
    if hdr.sender ∉ r.senders ∧ maxSenders ≤ r.senders.size then (r, .error .senderTableFull)
    else
      let (s, result) := (r.senders[hdr.sender]?.getD {}).push v hdr chunk now
      ({ senders := r.senders.insert hdr.sender s }, result)

end Reassembler

/-! ## Runs -/

/-- A datagram that comes in, at a time and with the order the hash maps are in. -/
structure Arrival where
  order : VisitOrder
  buf : Bytes
  now : Nat

inductive ReassemblerEvent where
  | push (arrival : Arrival)
  | evictExpired (now : Nat)
  | clear

def Reassembler.step (r : Reassembler) : ReassemblerEvent → Reassembler
  | .push a => (r.push a.order a.buf a.now).1
  | .evictExpired now => r.evictExpired now
  | .clear => r.clear

/-- The results of datagrams that come in one after the other. -/
def Reassembler.results : Reassembler → List Arrival → List PushResult
  | _, [] => []
  | r, a :: as => (r.push a.order a.buf a.now).2 :: results (r.push a.order a.buf a.now).1 as

/-!
## Client: video fragments that may panic

Fragments are cut and read once more, with every index and every slice checked where
the program takes it: nothing is left when one is out of bounds, since the program
panics there.
-/

open Lib.Chunks Lib.Encoding Lib.Slice

def fragmentFrameChecked (sender : String) (frameSeq : UInt32) (keyframe : Bool)
    (codec : VideoCodec) (ptsUs : UInt64) (signature : FrameSignature) (sealedFrame : Bytes)
    (maxPayload : Nat) : Option (Option (List Bytes)) :=
  let senderLen := (utf8Bytes sender).length
  if senderLen = 0 ∨ senderLen > maxSenderLen then some none
  else
    let base := fixedPrefixLen + senderLen + fixedSuffixLen
    if maxPayload < base + signatureLen then some none
    else
      let chunkCap := maxPayload - (base + signatureLen)
      if chunkCap = 0 then some none
      else
        let count := chunkCount chunkCap sealedFrame.length
        if count > maxFragsPerFrame then some none
        else do
          let fragments ← (List.range count).mapM fun idx => do
            let start := idx * chunkCap
            let piece ← slice? sealedFrame start (min (start + chunkCap) sealedFrame.length)
            return fragmentBytes sender frameSeq keyframe codec ptsUs signature count idx piece
          return some fragments

/-- The signature where the flags say there is one, and where the chunk starts. -/
def takeSignatureChecked (buf : Bytes) (hasSig : Bool) (suffixEnd : Nat) :
    Option (Option (Option FrameSignature × Nat)) :=
  if hasSig then
    let sigEnd := suffixEnd + signatureLen
    if buf.length < sigEnd then some none
    else do
      let sig ← slice? buf suffixEnd sigEnd
      if h : sig.length = signatureLen then return some (some ⟨sig, h⟩, sigEnd)
      -- `copy_from_slice` panics when the lengths differ
      else none
  else some (some (none, suffixEnd))

/-- What follows the sender. -/
def parseSuffixChecked (buf : Bytes) (flags : UInt8) (codec : VideoCodec) (ptsUs : Nat)
    (sender : String) (senderEnd : Nat) : Option (Option (FragmentHeader × Bytes)) := do
  let suffixEnd := senderEnd + fixedSuffixLen
  let frameSeq := fromBeBytes (← slice? buf senderEnd (senderEnd + 4))
  let fragIdx := fromBeBytes (← slice? buf (senderEnd + 4) (senderEnd + 6))
  let fragCount := fromBeBytes (← slice? buf (senderEnd + 6) suffixEnd)
  if fragCount = 0 ∨ fragCount > maxFragsPerFrame then return none
  else if fragIdx ≥ fragCount then return none
  else
    let hasSig := flags &&& flagHasSignature != 0
    if hasSig ≠ (fragIdx == 0) then return none
    else
      match ← takeSignatureChecked buf hasSig suffixEnd with
      | none => return none
      | some (signature, chunkStart) =>
        let chunk ← slice? buf chunkStart buf.length
        return some ({
          keyframe := flags &&& flagKeyframe != 0
          codec := codec
          ptsUs := .ofNat ptsUs
          sender := sender
          frameSeq := .ofNat frameSeq
          fragIdx := fragIdx
          fragCount := fragCount
          signature := signature }, chunk)

/-- The header of a fragment and its chunk. -/
def parseFragmentChecked (buf : Bytes) : Option (Option (FragmentHeader × Bytes)) :=
  if buf.length < fixedPrefixLen then some none
  else do
    let version ← buf[0]?
    if version ≠ fragmentVersion then return none
    else
      let flags ← buf[1]?
      match VideoCodec.fromWire (← buf[2]?) with
      | none => return none
      | some codec =>
        let ptsUs := fromBeBytes (← slice? buf 3 11)
        let senderLen := (← buf[11]?).toNat
        if senderLen = 0 ∨ senderLen > maxSenderLen then return none
        else
          let senderEnd := fixedPrefixLen + senderLen
          if buf.length < senderEnd + fixedSuffixLen then return none
          else
            match fromUtf8 (← slice? buf fixedPrefixLen senderEnd) with
            | none => return none
            | some sender => parseSuffixChecked buf flags codec ptsUs sender senderEnd

end ConquerD.Client.Video
