import Std.Data.ExtTreeMap
import Std.Data.ExtTreeSet
import ConquerD.Features.Registry
import ConquerD.Lib.Encoding
import ConquerD.Wire.Json

/-!
# Channel tags of datagram features

On one connection every datagram starts with the tag of its feature. A session gives
tags out of a fixed range, the lowest free one or the one that the peer has chosen, and
takes them back. An invocation of a datagram feature binds a tag first, and releases it
when the module rejects.
-/

namespace ConquerD.Features

open Lib.Encoding Wire
open Std (ExtTreeMap ExtTreeSet)

def dynamicTagStart : UInt8 := 0x10
def dynamicTagEnd : UInt8 := 0xEF

inductive ChannelTagError where
  | exhausted
  | alreadyBound (featureId : String)
  | notBound (featureId : String)
  | outOfRange (tag : UInt8)
  | tagInUse (tag : UInt8)
  deriving DecidableEq

/-- A tag in two digits. -/
def tagText (tag : UInt8) : String :=
  "0x" ++ (hexEncode [tag]).toUpper

def ChannelTagError.text : ChannelTagError → String
  | exhausted => "channel tag space exhausted (256 tags max per session)"
  | alreadyBound id => "feature `" ++ id ++ "` already has a channel tag bound"
  | notBound id => "no channel tag bound for feature `" ++ id ++ "`"
  | outOfRange tag =>
    "channel tag " ++ tagText tag ++ " is outside the dynamic range (0x10..=0xEF)"
  | tagInUse tag => "channel tag " ++ tagText tag ++ " is already bound to another feature"

structure ChannelTagRegistry where
  byFeature : ExtTreeMap String UInt8
  byTag : ExtTreeMap UInt8 String
  inUse : ExtTreeSet UInt8

/-- The dynamic range in order. -/
def dynamicTags : List UInt8 :=
  (List.range' 0x10 224).map UInt8.ofNat

namespace ChannelTagRegistry

def new : ChannelTagRegistry where
  byFeature := ∅
  byTag := ∅
  inUse := ∅

variable (tags : ChannelTagRegistry)

/-- The entry in all three tables. -/
def insert (featureId : String) (tag : UInt8) : ChannelTagRegistry where
  byFeature := tags.byFeature.insert featureId tag
  byTag := tags.byTag.insert tag featureId
  inUse := tags.inUse.insert tag

/-- The lowest free tag. -/
def bind (featureId : String) : ChannelTagRegistry × Except ChannelTagError UInt8 :=
  if tags.byFeature.contains featureId then (tags, .error (.alreadyBound featureId))
  else
    match dynamicTags.find? (fun t => !tags.inUse.contains t) with
    | none => (tags, .error .exhausted)
    | some tag => (tags.insert featureId tag, .ok tag)

/-- The tag the peer has chosen. -/
def bindTo (featureId : String) (tag : UInt8) :
    ChannelTagRegistry × Except ChannelTagError Unit :=
  if ¬ (dynamicTagStart ≤ tag ∧ tag ≤ dynamicTagEnd) then (tags, .error (.outOfRange tag))
  else if tags.byFeature.contains featureId then (tags, .error (.alreadyBound featureId))
  else if tags.inUse.contains tag then (tags, .error (.tagInUse tag))
  else (tags.insert featureId tag, .ok ())

def release (featureId : String) : ChannelTagRegistry × Except ChannelTagError UInt8 :=
  match tags.byFeature[featureId]? with
  | none => (tags, .error (.notBound featureId))
  | some tag =>
    ({ byFeature := tags.byFeature.erase featureId
       byTag := tags.byTag.erase tag
       inUse := tags.inUse.erase tag }, .ok tag)

def tagFor (featureId : String) : Option UInt8 :=
  tags.byFeature[featureId]?

def featureFor (tag : UInt8) : Option String :=
  tags.byTag[tag]?

def boundCount : Nat :=
  tags.byFeature.size

end ChannelTagRegistry

/-! ## Invocations -/

inductive ChannelKind where
  | datagram
  | stream
  | request
  deriving DecidableEq

def ChannelKind.text : ChannelKind → String
  | datagram => "Datagram"
  | stream => "Stream"
  | request => "Request"

inductive ModuleError where
  | permissionDenied (reason : String)
  | invalidParams (reason : String)
  | internal (reason : String)
  deriving DecidableEq

structure InvocationContext where
  peer : String
  params : Json
  channelTag : Option UInt8

/-- What the descriptors and the modules behind a registry say. -/
structure FeatureModules where
  kind : String → ChannelKind
  onInvoke : String → InvocationContext → Except ModuleError Unit

namespace ModuleRegistry

variable (M : FeatureModules) (reg : ModuleRegistry)

def dispatchInvoke (id : String) (ctx : InvocationContext) : Except ModuleError Unit :=
  if reg.modules id then M.onInvoke id ctx
  else .error (.internal ("no module bound to '" ++ id ++ "'"))

/-- Binds a tag, hands it to the module and returns it. The quota is asked before a tag
is bound, and a tag is released when the module rejects. -/
def dispatchInvokeDatagram (id peer : String) (params : Json) (now : Nat)
    (tags : ChannelTagRegistry) :
    ModuleRegistry × ChannelTagRegistry × Except ModuleError UInt8 :=
  match reg.features.inner id with
  | none => (reg, tags, .error (.internal ("no feature registered for `" ++ id ++ "`")))
  | some d =>
    if M.kind id ≠ .datagram then
      (reg, tags, .error (.invalidParams
        ("`" ++ id ++ "` is a " ++ (M.kind id).text ++ " feature, not Datagram")))
    else
      let (quotas, ok) := reg.features.quotas.tryConsumeDatagram id peer now d.inbound
      let reg := { reg with features.quotas := quotas }
      if !ok then
        (reg, tags, .error (.internal
          ("datagram quota exceeded for '" ++ id ++ "' from peer '" ++ peer ++ "'")))
      else
        match tags.bind id with
        | (tags, .error e) => (reg, tags, .error (.internal ("tag allocation failed: " ++ e.text)))
        | (tags, .ok tag) =>
          match reg.dispatchInvoke M id { peer, params, channelTag := some tag } with
          | .ok () => (reg, tags, .ok tag)
          | .error e => (reg, (tags.release id).1, .error e)

end ModuleRegistry

/-! ## Calls -/

/-- A call on the tags of a session. An invocation comes with the registry and the
modules as they are then. -/
inductive TagCall where
  | bind (featureId : String)
  | bindTo (featureId : String) (tag : UInt8)
  | release (featureId : String)
  | dispatchInvokeDatagram (M : FeatureModules) (reg : ModuleRegistry) (id peer : String)
      (params : Json) (now : Nat)

def ChannelTagRegistry.step (tags : ChannelTagRegistry) : TagCall → ChannelTagRegistry
  | .bind featureId => (tags.bind featureId).1
  | .bindTo featureId tag => (tags.bindTo featureId tag).1
  | .release featureId => (tags.release featureId).1
  | .dispatchInvokeDatagram M reg id peer params now =>
    (reg.dispatchInvokeDatagram M id peer params now tags).2.1

end ConquerD.Features
