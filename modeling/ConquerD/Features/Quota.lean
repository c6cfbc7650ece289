import ConquerD.Lib.Bucket
import Mathlib.Data.Int.Log

/-!
# Quotas of features

Every feature and peer has a bucket of bytes and one of datagrams, each holding
a second's worth. A message passes when both have enough, and only then are
they charged. A rate of zero means no bound. Sender and recipient buckets are
kept apart. Clocks are in nanoseconds; rates and tokens are rational numbers,
and every operation on them rounds as it is told to.
-/

namespace ConquerD.Features

/-! ## Rounding -/

/-- How the result of an operation is rounded. -/
class Rounding where
  fl : Rat → Rat

namespace Rounding

/-- Where nothing else is said, numbers are exact. -/
instance (priority := low) exact : Rounding where
  fl q := q

@[simp] theorem fl_exact (q : Rat) : exact.fl q = q := rfl

/-- To the nearest whole number, from the middle to the even one. -/
def halfEven (q : Rat) : Int :=
  if q - ⌊q⌋ < 1 / 2 ∨ (q - ⌊q⌋ = 1 / 2 ∧ ⌊q⌋ % 2 = 0) then ⌊q⌋ else ⌊q⌋ + 1

/-- Double precision: 53 binary digits, whatever the exponent. -/
@[reducible] def binary64 : Rounding where
  fl q := halfEven (q / 2 ^ (Int.log 2 |q| - 52)) * 2 ^ (Int.log 2 |q| - 52)

end Rounding

open Rounding (fl)

/-! ## Buckets -/

/-- Rates of a feature. Reading them from a descriptor leaves none below zero. -/
structure QuotaParams where
  bytesPerSec : Rat
  datagramsPerSec : Rat
  bytes_nonneg : 0 ≤ bytesPerSec
  datagrams_nonneg : 0 ≤ datagramsPerSec

namespace QuotaParams

def defaultBytesPerSec : Rat := 64 * 1024

def defaultDatagramsPerSec : Rat := 256

/-- Zero means no bound; anything else is at least one. -/
def clamp (raw : Rat) : Rat :=
  if raw = 0 then 0 else max raw 1

theorem clamp_nonneg (raw : Rat) : 0 ≤ clamp raw := by
  unfold clamp
  split
  · exact le_rfl
  · exact le_trans zero_le_one (le_max_right raw 1)

def read (bytes datagrams : Option Rat) (defaultBytes defaultDatagrams : Rat) : QuotaParams where
  bytesPerSec := clamp (bytes.getD defaultBytes)
  datagramsPerSec := clamp (datagrams.getD defaultDatagrams)
  bytes_nonneg := clamp_nonneg _
  datagrams_nonneg := clamp_nonneg _

def isUnbounded (p : QuotaParams) : Bool :=
  p.bytesPerSec == 0 && p.datagramsPerSec == 0

end QuotaParams

/-- The numbers a descriptor may give. -/
structure DescriptorParams where
  quotaBytesPerSec : Option Rat
  quotaDatagramsPerSec : Option Rat
  quotaBytesPerSecOutbound : Option Rat
  quotaDatagramsPerSecOutbound : Option Rat

namespace DescriptorParams

variable (d : DescriptorParams)

def inbound : QuotaParams :=
  .read d.quotaBytesPerSec d.quotaDatagramsPerSec QuotaParams.defaultBytesPerSec
    QuotaParams.defaultDatagramsPerSec

/-- What is not said of the outbound direction is as inbound. -/
def outbound : QuotaParams :=
  .read d.quotaBytesPerSecOutbound d.quotaDatagramsPerSecOutbound d.inbound.bytesPerSec
    d.inbound.datagramsPerSec

def roomFileV1 : DescriptorParams where
  quotaBytesPerSec := some (8 * 1024 * 1024)
  quotaDatagramsPerSec := some 4096
  quotaBytesPerSecOutbound := none
  quotaDatagramsPerSecOutbound := none

end DescriptorParams

structure QuotaState where
  bytesTokens : Rat
  datagramTokens : Rat
  lastRefill : Nat
  params : QuotaParams

namespace QuotaState

/-- A full bucket. -/
def new (params : QuotaParams) (now : Nat) : QuotaState where
  bytesTokens := params.bytesPerSec
  datagramTokens := params.datagramsPerSec
  lastRefill := now
  params := params

section Arithmetic

variable [Rounding] (s : QuotaState)

/-- The seconds of a duration and its nanoseconds, added up. -/
def elapsed (now : Nat) : Rat :=
  let duration := now - s.lastRefill
  fl (fl (duration / 1000000000 : Nat) + fl ((duration % 1000000000 : Nat) / 1000000000))

/-- The tokens after some seconds, at a rate that is also the most there may be. -/
def topUp (rate tokens elapsed : Rat) : Rat :=
  min (fl (tokens + fl (rate * elapsed))) rate

def refill (now : Nat) : QuotaState :=
  { s with
    lastRefill := now
    bytesTokens :=
      if s.params.bytesPerSec > 0 then topUp s.params.bytesPerSec s.bytesTokens (s.elapsed now)
      else s.bytesTokens
    datagramTokens :=
      if s.params.datagramsPerSec > 0 then
        topUp s.params.datagramsPerSec s.datagramTokens (s.elapsed now)
      else s.datagramTokens }

/-- Both buckets have enough. -/
def allows (byteCount : Nat) : Bool :=
  (s.params.bytesPerSec == 0 || decide (s.bytesTokens ≥ fl byteCount)) &&
    (s.params.datagramsPerSec == 0 || decide (s.datagramTokens ≥ 1))

def charge (byteCount : Nat) : QuotaState :=
  { s with
    bytesTokens :=
      if s.params.bytesPerSec > 0 then fl (s.bytesTokens - fl byteCount) else s.bytesTokens
    datagramTokens :=
      if s.params.datagramsPerSec > 0 then fl (s.datagramTokens - 1) else s.datagramTokens }

/-- Refills, then charges when both buckets have enough. -/
def tryConsume (now byteCount : Nat) : QuotaState × Bool :=
  if s.params.isUnbounded then (s, true)
  else if (s.refill now).allows byteCount then ((s.refill now).charge byteCount, true)
  else (s.refill now, false)

/-- Refills, then charges a datagram of a size that is not known yet. -/
def tryConsumeDatagram (now : Nat) : QuotaState × Bool :=
  if s.params.datagramsPerSec == 0 then (s, true)
  else
    let refilled := s.refill now
    if refilled.datagramTokens ≥ 1 then
      ({ refilled with datagramTokens := fl (refilled.datagramTokens - 1) }, true)
    else (refilled, false)

end Arithmetic

end QuotaState

/-- Buckets by feature and peer. -/
structure QuotaRegistry where
  states : String → String → Option QuotaState

namespace QuotaRegistry

def new : QuotaRegistry where
  states _ _ := none

variable (reg : QuotaRegistry)

def set (featureId peerId : String) (s : QuotaState) : QuotaRegistry where
  states f p := if f = featureId ∧ p = peerId then some s else reg.states f p

def tryConsume [Rounding] (featureId peerId : String) (now byteCount : Nat) (params : QuotaParams) :
    QuotaRegistry × Bool :=
  let state := (reg.states featureId peerId).getD (.new params now)
  (reg.set featureId peerId (state.tryConsume now byteCount).1,
    (state.tryConsume now byteCount).2)

def tryConsumeDatagram [Rounding] (featureId peerId : String) (now : Nat) (params : QuotaParams) :
    QuotaRegistry × Bool :=
  let state := (reg.states featureId peerId).getD (.new params now)
  (reg.set featureId peerId (state.tryConsumeDatagram now).1, (state.tryConsumeDatagram now).2)

def clearPeer (peerId : String) : QuotaRegistry where
  states f p := if p = peerId then none else reg.states f p

end QuotaRegistry

/-! ## Calls -/

/-- A call on the buckets. -/
inductive QuotaCall where
  | tryConsume (featureId peerId : String) (byteCount : Nat) (params : QuotaParams)
  | tryConsumeDatagram (featureId peerId : String) (params : QuotaParams)
  | clearPeer (peerId : String)

/-- The buckets after a call at a time, and what it was answered. -/
def QuotaRegistry.call [Rounding] (reg : QuotaRegistry) (now : Nat) :
    QuotaCall → QuotaRegistry × Bool
  | .tryConsume f p byteCount params => reg.tryConsume f p now byteCount params
  | .tryConsumeDatagram f p params => reg.tryConsumeDatagram f p now params
  | .clearPeer p => (reg.clearPeer p, true)

/-! ## Gates -/

/-- Registered descriptors, and the buckets of senders and of recipients. -/
structure FeatureRegistry where
  inner : String → Option DescriptorParams
  quotas : QuotaRegistry
  outboundQuotas : QuotaRegistry

namespace FeatureRegistry

variable [Rounding] (reg : FeatureRegistry)

/-- A feature nobody registered is not gated. -/
def gateInboundThroughFeature (featureId peerId : String) (now byteCount : Nat) :
    FeatureRegistry × Bool :=
  match reg.inner featureId with
  | none => (reg, true)
  | some d =>
    let r := reg.quotas.tryConsume featureId peerId now byteCount d.inbound
    ({ reg with quotas := r.1 }, r.2)

def gateThroughFeature (featureId peerId : String) (now byteCount : Nat) :
    FeatureRegistry × Bool :=
  match reg.inner featureId with
  | none => (reg, true)
  | some d =>
    let r := reg.outboundQuotas.tryConsume featureId peerId now byteCount d.outbound
    ({ reg with outboundQuotas := r.1 }, r.2)

end FeatureRegistry

end ConquerD.Features
