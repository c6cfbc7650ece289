import ConquerD.Features.Quota
import ConquerD.Lib.Words

/-!
# The registry of features

Features are registered under their descriptors, with or without a module, and a
descriptor can be replaced while the program runs. The gates look up the descriptor and
ask the peer's bucket. Of a descriptor's parameters only the rates are kept.
-/

namespace ConquerD.Features

open Lib.Words

structure CapabilityDescriptor where
  id : String
  version : String
  params : DescriptorParams

inductive FeatureError where
  | invalidId (reason : String)
  | invalidVersion (reason : String)
  | duplicate (id : String)
  deriving DecidableEq

def CapabilityDescriptor.validate (cap : CapabilityDescriptor) : Except FeatureError Unit :=
  if cap.id = "" then .error (.invalidId "empty id")
  else if cap.id.toList.any isWhite then .error (.invalidId "id must not contain whitespace")
  else if '.' ∉ cap.id.toList then
    .error (.invalidId "id must use reverse-DNS form (namespace.subname)")
  else if cap.version = "" then .error (.invalidVersion "empty version")
  else .ok ()

namespace FeatureRegistry

variable (reg : FeatureRegistry)

/-- The bucket of a fan-out is the inbound one, at the outbound rate. -/
def gateInboundFanoutThroughFeature (featureId peerId : String) (now byteCount : Nat) :
    FeatureRegistry × Bool :=
  match reg.inner featureId with
  | none => (reg, true)
  | some d =>
    let r := reg.quotas.tryConsume featureId peerId now byteCount d.outbound
    ({ reg with quotas := r.1 }, r.2)

/-- The descriptor under its id, in place of any other. -/
def insert (cap : CapabilityDescriptor) : FeatureRegistry :=
  { reg with inner := fun id => if id = cap.id then some cap.params else reg.inner id }

end FeatureRegistry

/-- The registry, with the features that have a module. -/
structure ModuleRegistry where
  features : FeatureRegistry
  modules : String → Bool

namespace ModuleRegistry

def new : ModuleRegistry where
  features := ⟨fun _ => none, .new, .new⟩
  modules _ := false

variable (reg : ModuleRegistry)

/-! ## Registration -/

def bindTo (id : String) (bound : Bool) : ModuleRegistry :=
  { reg with modules := fun f => if f = id then bound else reg.modules f }

def register (cap : CapabilityDescriptor) : ModuleRegistry × Except FeatureError Unit :=
  match cap.validate with
  | .error e => (reg, .error e)
  | .ok () =>
    if (reg.features.inner cap.id).isSome then (reg, .error (.duplicate cap.id))
    else ({ reg with features := reg.features.insert cap }.bindTo cap.id false, .ok ())

def registerModule (cap : CapabilityDescriptor) : ModuleRegistry × Except FeatureError Unit :=
  match cap.validate with
  | .error e => (reg, .error e)
  | .ok () =>
    if (reg.features.inner cap.id).isSome then (reg, .error (.duplicate cap.id))
    else ({ reg with features := reg.features.insert cap }.bindTo cap.id true, .ok ())

def bindModule (id : String) : ModuleRegistry × Bool :=
  if (reg.features.inner id).isSome then (reg.bindTo id true, true) else (reg, false)

/-- Replaces or inserts a descriptor. A module stays bound, and the buckets stay as they
are. -/
def upsert (cap : CapabilityDescriptor) : ModuleRegistry × Except FeatureError Unit :=
  match cap.validate with
  | .error e => (reg, .error e)
  | .ok () => ({ reg with features := reg.features.insert cap }, .ok ())

/-! ## Gates -/

def gateInboundThroughFeature (featureId peerId : String) (now byteCount : Nat) :
    ModuleRegistry × Bool :=
  let r := reg.features.gateInboundThroughFeature featureId peerId now byteCount
  ({ reg with features := r.1 }, r.2)

def gateInboundFanoutThroughFeature (featureId peerId : String) (now byteCount : Nat) :
    ModuleRegistry × Bool :=
  let r := reg.features.gateInboundFanoutThroughFeature featureId peerId now byteCount
  ({ reg with features := r.1 }, r.2)

def gateThroughFeature (featureId peerId : String) (now byteCount : Nat) :
    ModuleRegistry × Bool :=
  let r := reg.features.gateThroughFeature featureId peerId now byteCount
  ({ reg with features := r.1 }, r.2)

/-- A message goes to the module bound to the feature, if the sender's quota lets it. -/
def dispatchMessage (id source : String) (now payloadLen : Nat) : ModuleRegistry × Bool :=
  match reg.features.inner id with
  | none => (reg, false)
  | some d =>
    if reg.modules id then
      let r := reg.features.quotas.tryConsume id source now payloadLen d.inbound
      ({ reg with features.quotas := r.1 }, r.2)
    else (reg, false)

def clearPeerQuotas (peerId : String) : ModuleRegistry :=
  { reg with features.quotas := reg.features.quotas.clearPeer peerId }

def clearPeerOutboundQuotas (peerId : String) : ModuleRegistry :=
  { reg with features.outboundQuotas := reg.features.outboundQuotas.clearPeer peerId }

end ModuleRegistry

/-! ## Calls -/

inductive RegistryCall where
  | register (cap : CapabilityDescriptor)
  | registerModule (cap : CapabilityDescriptor)
  | bindModule (id : String)
  | upsert (cap : CapabilityDescriptor)
  | gateInbound (featureId peerId : String) (now byteCount : Nat)
  | gateInboundFanout (featureId peerId : String) (now byteCount : Nat)
  | gateOutbound (featureId peerId : String) (now byteCount : Nat)
  | dispatchMessage (id source : String) (now payloadLen : Nat)
  | clearPeerQuotas (peerId : String)
  | clearPeerOutboundQuotas (peerId : String)

inductive RegistryAnswer where
  | registered (result : Except FeatureError Unit)
  | verdict (ok : Bool)
  | done

/-- The registry after a call, and what the call returns. -/
def ModuleRegistry.call (reg : ModuleRegistry) : RegistryCall → ModuleRegistry × RegistryAnswer
  | .register cap => ((reg.register cap).1, .registered (reg.register cap).2)
  | .registerModule cap => ((reg.registerModule cap).1, .registered (reg.registerModule cap).2)
  | .bindModule id => ((reg.bindModule id).1, .verdict (reg.bindModule id).2)
  | .upsert cap => ((reg.upsert cap).1, .registered (reg.upsert cap).2)
  | .gateInbound f p now n =>
    let r := reg.gateInboundThroughFeature f p now n
    (r.1, .verdict r.2)
  | .gateInboundFanout f p now n =>
    let r := reg.gateInboundFanoutThroughFeature f p now n
    (r.1, .verdict r.2)
  | .gateOutbound f p now n =>
    let r := reg.gateThroughFeature f p now n
    (r.1, .verdict r.2)
  | .dispatchMessage id source now n =>
    let r := reg.dispatchMessage id source now n
    (r.1, .verdict r.2)
  | .clearPeerQuotas p => (reg.clearPeerQuotas p, .done)
  | .clearPeerOutboundQuotas p => (reg.clearPeerOutboundQuotas p, .done)

end ConquerD.Features
