import ConquerD.Lib.Encoding
import Mathlib.Algebra.Group.Nat.Defs

/-!
# Client: compression and binary deltas

A file small enough to be held in memory is sent compressed, or as a delta
against an older version of it. A delta is a magic number and a compressed
stream of opcodes: copy a range of the old file, or insert bytes.
-/

namespace ConquerD.Client

open Lib.Encoding

/-- Maximum accepted file size: 250 MiB. -/
def maxTransferSize : Nat := 250 * 1024 * 1024

/-- Minimum input size before compression is attempted. -/
def compressionThreshold : Nat := 1024

/-- `CDv1`. -/
def deltaMagic : Bytes := [0x43, 0x44, 0x76, 0x31]

/-- The compression library. -/
structure Zlib where
  /-- What a level compresses the bytes to. -/
  compress : Bytes → Nat → Except String Bytes
  /-- What reading at most so many bytes from a decoder of the bytes gives. -/
  read : Bytes → Nat → Except String Bytes

variable (Z : Zlib)

/-! ## Compression -/

def zlibCompress (data : Bytes) (level : Nat) : Except String Bytes :=
  Z.compress data level

/-- Decompression, capped so that a crafted stream cannot expand without bound. -/
def zlibDecompress (data : Bytes) : Except String Bytes :=
  match Z.read data (maxTransferSize + 1) with
  | .error e => .error e
  | .ok out =>
    if out.length > maxTransferSize then
      .error s!"decompressed output exceeds {maxTransferSize} bytes"
    else .ok out

/-- Compression where it pays, and whether it did. -/
def compressData (data : Bytes) : Bytes × Bool :=
  if data.length < compressionThreshold then (data, false)
  else
    match zlibCompress Z data 6 with
    | .ok compressed =>
      if compressed.length < data.length * 9 / 10 then (compressed, true) else (data, false)
    | .error _ => (data, false)

/-! ## Opcodes -/

/-- Shortest match that is copied. -/
def window : Nat := 16

/-- A number as four bytes, the highest first, and its low 32 bits only. -/
def toBeBytes (n : Nat) : Bytes :=
  [.ofNat (n / 2 ^ 24), .ofNat (n / 2 ^ 16), .ofNat (n / 2 ^ 8), .ofNat n]

def fromBeBytes (bs : Bytes) : Nat :=
  bs.foldl (fun n b => n * 256 + b.toNat) 0

def writeCopy (buf : Bytes) (src len : Nat) : Bytes :=
  buf ++ 0 :: (toBeBytes src ++ toBeBytes len)

def writeInsert (buf seg : Bytes) : Bytes :=
  if seg.isEmpty then buf else buf ++ 1 :: (toBeBytes seg.length ++ seg)

/-- Length of the common prefix. -/
def commonPrefix : Bytes → Bytes → Nat
  | x :: xs, y :: ys => if x = y then commonPrefix xs ys + 1 else 0
  | _, _ => 0

def extendMatch (old : Bytes) (src : Nat) (new : Bytes) (dst : Nat) : Nat :=
  commonPrefix (old.drop src) (new.drop dst)

/-- Where the window of the new file first occurs in the old one, in 32 bits. -/
def windowIndex (old key : Bytes) : Option Nat :=
  (windowPosition key old).map (· % 2 ^ 32)

/-- The match to copy at a position of the new file: where in the old one, and
how long. -/
def matchAt (old new : Bytes) (j : Nat) : Option (Nat × Nat) :=
  (windowIndex old ((new.drop j).take window)).bind fun src =>
    let len := extendMatch old src new j
    if len ≥ window then some (src, len) else none

/-- The search for matches from position `j` on; what lies between
`pendingStart` and `j` is not written yet. Every turn advances `j`, so as many
turns as there are bytes are enough. -/
def diffLoop (old new : Bytes) : (turns j pendingStart : Nat) → (buf : Bytes) → Nat × Bytes
  | 0, _, pendingStart, buf => (pendingStart, buf)
  | turns + 1, j, pendingStart, buf =>
    if j + window ≤ new.length then
      match matchAt old new j with
      | some (src, len) =>
        let buf :=
          if pendingStart < j then
            writeInsert buf ((new.drop pendingStart).take (j - pendingStart))
          else buf
        diffLoop old new turns (j + len) (j + len) (writeCopy buf src len)
      | none => diffLoop old new turns (j + 1) pendingStart buf
    else (pendingStart, buf)

def diffOpcodes (old new : Bytes) : Bytes :=
  if old = new then writeCopy [] 0 new.length
  else
    let (pendingStart, buf) := diffLoop old new new.length 0 0 []
    if pendingStart < new.length then writeInsert buf (new.drop pendingStart) else buf

/-! ## Deltas -/

/-- A delta, when it is smaller than the compressed new file. -/
def createDelta (old new : Bytes) : Option Bytes :=
  match zlibCompress Z (diffOpcodes old new) 6 with
  | .error _ => none
  | .ok compressed =>
    let delta := deltaMagic ++ compressed
    match zlibCompress Z new 6 with
    | .error _ => none
    | .ok fullCompressed => if delta.length < fullCompressed.length then some delta else none

/-- Runs the opcodes that are left on top of the output so far. Every opcode
takes a byte, so as many turns as there are bytes are enough. -/
def applyOpcodes (old : Bytes) : (turns : Nat) → (raw out : Bytes) → Except String Bytes
  | 0, _, out => .ok out
  | _ + 1, [], out => .ok out
  | turns + 1, tag :: raw, out =>
    if tag = 0 then
      if raw.length < 8 then .error "truncated COPY"
      else
        let src := fromBeBytes (raw.take 4)
        let len := fromBeBytes ((raw.drop 4).take 4)
        if src + len > old.length then .error "COPY out of range"
        else if out.length + len > maxTransferSize then
          .error "delta output exceeds MAX_TRANSFER_SIZE"
        else applyOpcodes old turns (raw.drop 8) (out ++ (old.drop src).take len)
    else if tag = 1 then
      if raw.length < 4 then .error "truncated INSERT"
      else
        let len := fromBeBytes (raw.take 4)
        if 4 + len > raw.length then .error "INSERT past end"
        else if out.length + len > maxTransferSize then
          .error "delta output exceeds MAX_TRANSFER_SIZE"
        else applyOpcodes old turns (raw.drop (4 + len)) (out ++ (raw.drop 4).take len)
    else .error s!"Unknown opcode: {tag}"

def applyDelta (old delta : Bytes) : Except String Bytes :=
  if delta.length < deltaMagic.length ∨ delta.take 4 ≠ deltaMagic then
    .error "Invalid delta magic"
  else
    match zlibDecompress Z (delta.drop 4) with
    | .error e => .error e
    | .ok raw =>
      if raw.isEmpty then .error "Empty delta opcode stream"
      else applyOpcodes old raw.length raw []

end ConquerD.Client
