import ConquerD.Features.Registry
import ConquerD.Features.Verify.Quota
import ConquerD.Lib.Run

/-!
# Gates and the rates they go by

Each gate derives a rate from the descriptor that is registered. A bucket has the rate
of the gate that asked it first since it was cleared, from the descriptor of that time,
and keeps it. The gates decide by their own rates exactly as long as the two agree.
-/

namespace ConquerD.Features

open Lib.Run

/-- A gate: the side whose bucket it asks, for whom, and the rate it derives. -/
structure Gate where
  outbound : Bool
  featureId : String
  peerId : String
  now : Nat
  byteCount : Nat
  rate : DescriptorParams → QuotaParams
  needsModule : Bool

def RegistryCall.gate? : RegistryCall → Option Gate
  | .gateInbound f p now n => some ⟨false, f, p, now, n, DescriptorParams.inbound, false⟩
  | .gateInboundFanout f p now n => some ⟨false, f, p, now, n, DescriptorParams.outbound, false⟩
  | .gateOutbound f p now n => some ⟨true, f, p, now, n, DescriptorParams.outbound, false⟩
  | .dispatchMessage id source now n =>
    some ⟨false, id, source, now, n, DescriptorParams.inbound, true⟩
  | _ => none

namespace ModuleRegistry

variable (reg : ModuleRegistry)

/-- The buckets of a side. -/
def buckets (outbound : Bool) : QuotaRegistry :=
  if outbound then reg.features.outboundQuotas else reg.features.quotas

def withBuckets (outbound : Bool) (quotas : QuotaRegistry) : ModuleRegistry :=
  if outbound then { reg with features.outboundQuotas := quotas }
  else { reg with features.quotas := quotas }

/-- The bucket a gate asks. -/
def bucket (g : Gate) : Option QuotaState :=
  (reg.buckets g.outbound).states g.featureId g.peerId

def setBucket (g : Gate) (s : QuotaState) : ModuleRegistry :=
  reg.withBuckets g.outbound ((reg.buckets g.outbound).set g.featureId g.peerId s)

/-- The rate a gate derives from the descriptor that is registered, if it gets so far. -/
def ownRate (g : Gate) : Option QuotaParams :=
  match reg.features.inner g.featureId with
  | none => none
  | some d => if g.needsModule && !reg.modules g.featureId then none else some (g.rate d)

/-- The bucket a gate asks, metered at the given rate. -/
def metered (g : Gate) (rate : QuotaParams) : ModuleRegistry :=
  match reg.bucket g with
  | none => reg
  | some s => reg.setBucket g { s with params := rate }

/-- The call as it would be if a gate looked up its rate each time. -/
def idealCall (c : RegistryCall) : ModuleRegistry × RegistryAnswer :=
  match c.gate? with
  | none => reg.call c
  | some g =>
    match reg.ownRate g with
    | none => reg.call c
    | some rate => (reg.metered g rate).call c

variable {reg} {g : Gate} {c : RegistryCall} {rate : QuotaParams} {s : QuotaState}

@[simp] theorem buckets_withBuckets (outbound side : Bool) (quotas : QuotaRegistry) :
    (reg.withBuckets outbound quotas).buckets side =
      if outbound = side then quotas else reg.buckets side := by
  cases outbound
  · cases side <;> rfl
  · cases side <;> rfl

theorem bucket_setBucket : (reg.setBucket g s).bucket g = some s := by
  unfold bucket setBucket
  rw [buckets_withBuckets, if_pos rfl]
  exact if_pos ⟨rfl, rfl⟩

theorem set_set (quotas : QuotaRegistry) (f p : String) (s s' : QuotaState) :
    (quotas.set f p s).set f p s' = quotas.set f p s' := by
  unfold QuotaRegistry.set
  congr 1
  funext f' p'
  dsimp only
  split
  · rfl
  · rfl

theorem setBucket_setBucket (s' : QuotaState) :
    (reg.setBucket g s).setBucket g s' = reg.setBucket g s' := by
  unfold setBucket
  rw [buckets_withBuckets, if_pos rfl, set_set]
  unfold withBuckets
  cases g.outbound
  · rfl
  · rfl

theorem ownRate_setBucket : (reg.setBucket g s).ownRate g = reg.ownRate g := by
  unfold setBucket withBuckets
  cases g.outbound
  · rfl
  · rfl

theorem ownRate_eq_some_iff :
    reg.ownRate g = some rate ↔ ∃ d, reg.features.inner g.featureId = some d ∧
      (g.needsModule = true → reg.modules g.featureId = true) ∧ g.rate d = rate := by
  unfold ownRate
  cases hd : reg.features.inner g.featureId with
  | none => simp
  | some d => cases g.needsModule <;> cases reg.modules g.featureId <;> simp

theorem ownRate_eq_none_iff :
    reg.ownRate g = none ↔ reg.features.inner g.featureId = none ∨
      (g.needsModule = true ∧ reg.modules g.featureId = false) := by
  unfold ownRate
  cases hd : reg.features.inner g.featureId with
  | none => simp
  | some d => cases g.needsModule <;> cases reg.modules g.featureId <;> simp

theorem call_of_gate (hgate : c.gate? = some g) (hrate : reg.ownRate g = some rate) :
    let asked := ((reg.bucket g).getD (.new rate g.now)).tryConsume g.now g.byteCount
    reg.call c = (reg.setBucket g asked.1, .verdict asked.2) := by
  obtain ⟨d, hd, hmodule, rfl⟩ := ownRate_eq_some_iff.mp hrate
  cases c with
  | gateInbound f p now n =>
    cases hgate
    simp only [call, gateInboundThroughFeature, FeatureRegistry.gateInboundThroughFeature, hd]
    rfl
  | gateInboundFanout f p now n =>
    cases hgate
    simp only [call, gateInboundFanoutThroughFeature,
      FeatureRegistry.gateInboundFanoutThroughFeature, hd]
    rfl
  | gateOutbound f p now n =>
    cases hgate
    simp only [call, gateThroughFeature, FeatureRegistry.gateThroughFeature, hd]
    rfl
  | dispatchMessage id source now n =>
    cases hgate
    have hbound : reg.modules id = true := hmodule rfl
    simp only [call, dispatchMessage, hd, hbound, if_true]
    rfl
  | _ => cases hgate

theorem call_of_no_rate (hgate : c.gate? = some g) (hrate : reg.ownRate g = none) :
    (reg.call c).1 = reg := by
  cases hd : reg.features.inner g.featureId with
  | none =>
    cases c with
    | gateInbound f p now n =>
      cases hgate
      simp only [call, gateInboundThroughFeature, FeatureRegistry.gateInboundThroughFeature, hd]
    | gateInboundFanout f p now n =>
      cases hgate
      simp only [call, gateInboundFanoutThroughFeature,
        FeatureRegistry.gateInboundFanoutThroughFeature, hd]
    | gateOutbound f p now n =>
      cases hgate
      simp only [call, gateThroughFeature, FeatureRegistry.gateThroughFeature, hd]
    | dispatchMessage id source now n =>
      cases hgate
      simp only [call, dispatchMessage, hd]
    | _ => cases hgate
  | some d =>
    -- only a module that is not bound is left
    obtain ⟨hneeds, hbound⟩ := (ownRate_eq_none_iff.mp hrate).resolve_left (by simp [hd])
    cases c with
    | dispatchMessage id source now n =>
      cases hgate
      simp only at hd hbound
      simp only [call, dispatchMessage, hd, hbound, Bool.false_eq_true, if_false]
    | gateInbound => cases hgate; cases hneeds
    | gateInboundFanout => cases hgate; cases hneeds
    | gateOutbound => cases hgate; cases hneeds
    | _ => cases hgate

theorem call_eq_idealCall_iff (hgate : c.gate? = some g) (hrate : reg.ownRate g = some rate) :
    reg.call c = reg.idealCall c ↔ ∀ s, reg.bucket g = some s → s.params = rate := by
  unfold idealCall
  rw [hgate]
  dsimp only
  rw [hrate]
  dsimp only
  unfold metered
  cases hbucket : reg.bucket g with
  | none => simp
  | some s =>
    have hideal : (reg.setBucket g { s with params := rate }).ownRate g = some rate :=
      ownRate_setBucket.trans hrate
    rw [call_of_gate hgate hrate, call_of_gate hgate hideal]
    simp only [hbucket, bucket_setBucket, setBucket_setBucket, Option.getD_some,
      Option.some.injEq, forall_eq']
    constructor
    · intro hsame
      have hbuckets := congrArg (fun r : ModuleRegistry × RegistryAnswer => r.1.bucket g) hsame
      simp only [bucket_setBucket, Option.some.injEq] at hbuckets
      have hparams := congrArg QuotaState.params hbuckets
      rwa [QuotaState.tryConsume_params, QuotaState.tryConsume_params] at hparams
    · rintro rfl
      rfl

end ModuleRegistry

/-! ## First uses -/

/-- A registry, and for each bucket the rate its first gate derived since it was
cleared. -/
structure MeteredRegistry where
  registry : ModuleRegistry
  first : Bool → String → String → Option QuotaParams

namespace MeteredRegistry

def start : MeteredRegistry where
  registry := .new
  first _ _ _ := none

/-- The first gate counts until the peer is cleared. -/
def track (s : MeteredRegistry) (c : RegistryCall) : Bool → String → String → Option QuotaParams :=
  match c.gate? with
  | some g => fun outbound f p =>
    if outbound = g.outbound ∧ f = g.featureId ∧ p = g.peerId then
      (s.first outbound f p).orElse fun _ => s.registry.ownRate g
    else s.first outbound f p
  | none =>
    match c with
    | .clearPeerQuotas peerId => fun outbound f p =>
      if outbound = false ∧ p = peerId then none else s.first outbound f p
    | .clearPeerOutboundQuotas peerId => fun outbound f p =>
      if outbound = true ∧ p = peerId then none else s.first outbound f p
    | _ => s.first

def step (s : MeteredRegistry) (c : RegistryCall) : MeteredRegistry where
  registry := (s.registry.call c).1
  first := s.track c

/-- The gate that asked the bucket first derived the rate this one derives now. -/
def FirstRateIsOwn (s : MeteredRegistry) (c : RegistryCall) : Prop :=
  ∀ g rate first, c.gate? = some g → s.registry.ownRate g = some rate →
    s.first g.outbound g.featureId g.peerId = some first → first = rate

/-- The bucket has the rate of its first gate. -/
def Captured (s : MeteredRegistry) : Prop :=
  ∀ outbound f p, s.first outbound f p =
    ((s.registry.buckets outbound).states f p).map QuotaState.params

variable {s : MeteredRegistry} {c : RegistryCall}

theorem captured_start : start.Captured := by
  intro outbound f p
  cases outbound
  · rfl
  · rfl

theorem captured_gate (h : s.Captured) {g : Gate} (hgate : c.gate? = some g) :
    (s.step c).Captured := by
  intro outbound f p
  simp only [step, track, hgate]
  cases hrate : s.registry.ownRate g with
  | none =>
    rw [ModuleRegistry.call_of_no_rate hgate hrate, h]
    split
    · cases ((s.registry.buckets outbound).states f p).map QuotaState.params with
      | none => rfl
      | some rate => rfl
    · rfl
  | some rate =>
    rw [ModuleRegistry.call_of_gate hgate hrate]
    dsimp only
    unfold ModuleRegistry.setBucket
    rw [ModuleRegistry.buckets_withBuckets]
    by_cases hkey : outbound = g.outbound ∧ f = g.featureId ∧ p = g.peerId
    · obtain ⟨rfl, rfl, rfl⟩ := hkey
      rw [if_pos ⟨rfl, rfl, rfl⟩, if_pos rfl, h]
      have hset : ∀ quotas : QuotaRegistry, ∀ new : QuotaState,
          (quotas.set g.featureId g.peerId new).states g.featureId g.peerId = some new :=
        fun _ _ => if_pos ⟨rfl, rfl⟩
      rw [hset, Option.map_some, QuotaState.tryConsume_params]
      unfold ModuleRegistry.bucket
      cases (s.registry.buckets g.outbound).states g.featureId g.peerId with
      | none => rfl
      | some old => rfl
    · rw [if_neg hkey, h]
      split
      · next hside =>
        have hother : ¬ (f = g.featureId ∧ p = g.peerId) := fun heq => hkey ⟨hside.symm, heq⟩
        rw [← hside]
        exact congrArg _ (if_neg hother).symm
      · rfl

theorem captured_step (h : s.Captured) (c : RegistryCall) : (s.step c).Captured := by
  -- registering and replacing a descriptor leave every bucket
  have hsame : c.gate? = none → s.track c = s.first →
      (∀ outbound, (s.registry.call c).1.buckets outbound = s.registry.buckets outbound) →
      (s.step c).Captured := by
    intro _ htrack hbuckets outbound f p
    simp only [step, htrack, hbuckets]
    exact h outbound f p
  cases hgate : c.gate? with
  | some g => exact captured_gate h hgate
  | none =>
    cases c with
    | register cap =>
      refine hsame rfl rfl fun outbound => ?_
      simp only [ModuleRegistry.call, ModuleRegistry.register]
      split
      · rfl
      · split
        · rfl
        · rfl
    | registerModule cap =>
      refine hsame rfl rfl fun outbound => ?_
      simp only [ModuleRegistry.call, ModuleRegistry.registerModule]
      split
      · rfl
      · split
        · rfl
        · rfl
    | bindModule id =>
      refine hsame rfl rfl fun outbound => ?_
      simp only [ModuleRegistry.call, ModuleRegistry.bindModule]
      split
      · rfl
      · rfl
    | upsert cap =>
      refine hsame rfl rfl fun outbound => ?_
      simp only [ModuleRegistry.call, ModuleRegistry.upsert]
      split
      · rfl
      · rfl
    | clearPeerQuotas peerId =>
      intro outbound f p
      cases outbound with
      | true => exact h true f p
      | false =>
        have hold : s.first false f p =
            (s.registry.features.quotas.states f p).map QuotaState.params := h false f p
        show (if _ then _ else _) = Option.map _ (if _ then _ else _)
        by_cases hp : p = peerId
        · simp [hp]
        · simpa [hp] using hold
    | clearPeerOutboundQuotas peerId =>
      intro outbound f p
      cases outbound with
      | false => exact h false f p
      | true =>
        have hold : s.first true f p =
            (s.registry.features.outboundQuotas.states f p).map QuotaState.params := h true f p
        show (if _ then _ else _) = Option.map _ (if _ then _ else _)
        by_cases hp : p = peerId
        · simp [hp]
        · simpa [hp] using hold
    | _ => cases hgate

theorem call_eq_idealCall_iff (h : s.Captured) (c : RegistryCall) :
    s.registry.call c = s.registry.idealCall c ↔ s.FirstRateIsOwn c := by
  cases hgate : c.gate? with
  | none =>
    have hideal : s.registry.idealCall c = s.registry.call c := by
      unfold ModuleRegistry.idealCall
      rw [hgate]
    refine ⟨fun _ g rate first hg => ?_, fun _ => hideal.symm⟩
    cases hgate.symm.trans hg
  | some g =>
    cases hrate : s.registry.ownRate g with
    | none =>
      have hideal : s.registry.idealCall c = s.registry.call c := by
        unfold ModuleRegistry.idealCall
        rw [hgate]
        dsimp only
        rw [hrate]
      refine ⟨fun _ g' rate first hg hr => ?_, fun _ => hideal.symm⟩
      obtain rfl := Option.some.inj (hgate.symm.trans hg)
      cases hrate.symm.trans hr
    | some rate =>
      rw [ModuleRegistry.call_eq_idealCall_iff hgate hrate]
      have hfirst : s.first g.outbound g.featureId g.peerId =
          (s.registry.bucket g).map QuotaState.params := h _ _ _
      constructor
      · intro hparams g' rate' first hg hr hf
        obtain rfl := Option.some.inj (hgate.symm.trans hg)
        obtain rfl := Option.some.inj (hrate.symm.trans hr)
        rw [hfirst] at hf
        obtain ⟨state, hstate, rfl⟩ := Option.map_eq_some_iff.mp hf
        exact hparams state hstate
      · intro hown state hstate
        refine hown g rate state.params hgate hrate ?_
        rw [hfirst, hstate, Option.map_some]

/-- Along a run every gate decides as if it looked up its own rate exactly when each
time the gate that asked the bucket first since it was cleared derived the same. -/
theorem gates_use_own_rate_iff (cs : List RegistryCall) :
    Along step (fun s c => s.registry.call c = s.registry.idealCall c) start cs ↔
      Along step FirstRateIsOwn start cs :=
  along_congr_inv Captured captured_start (fun _ c h => captured_step h c)
    fun _ c h => call_eq_idealCall_iff h c

/-- Room video, at one rate from a sender and at four times that to a watcher. -/
def roomVideo : CapabilityDescriptor where
  id := "room.video.sfu"
  version := "1.0"
  params := ⟨some 1024, some 16, some 4096, some 64⟩

/-- A plain gate comes first, and a fan-out that has room is refused. -/
theorem fanout_is_metered_as_a_sender :
    ¬ ∀ cs, Along step (fun s c => s.registry.call c = s.registry.idealCall c) start cs := by
  intro h
  have hrun := h [.register roomVideo, .gateInbound "room.video.sfu" "node" 0 100,
    .gateInboundFanout "room.video.sfu" "node" 0 2000]
  have hcaptured := captured_step (captured_step captured_start (.register roomVideo))
    (.gateInbound "room.video.sfu" "node" 0 100)
  have hown := (call_eq_idealCall_iff hcaptured _).mp hrun.2.2.1
  have hrates : roomVideo.params.inbound = roomVideo.params.outbound :=
    hown ⟨false, "room.video.sfu", "node", 0, 2000, DescriptorParams.outbound, false⟩ _ _ rfl rfl rfl
  have hbytes := congrArg QuotaParams.bytesPerSec hrates
  norm_num [roomVideo, DescriptorParams.inbound, DescriptorParams.outbound, QuotaParams.read,
    QuotaParams.clamp] at hbytes

end MeteredRegistry

end ConquerD.Features
