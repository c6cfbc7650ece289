import ConquerD.Features.Verify.Quota
import ConquerD.Supernode.Ingress
import ConquerD.Supernode.Verify.Replication

/-!
# File payload and file control

Offers, requests and revokes share their sender's bucket with chunks and
completes. Payload is never refused, but it is charged whenever the bucket has
room for it, and control frames that follow find less. Where no payload frame
is charged or leaves its bucket rounded otherwise, control frames fare as if there
were none, however numbers are rounded.
-/

namespace ConquerD.Supernode

open ConquerD.Features Lib.Run Wire

namespace SupernodeState

variable {st : SupernodeState} {reg reg' : FeatureRegistry} {f : FileFrame} {n : Nat}
  {peer : String} {peers : List String}

/-! ## The two runs -/

/-- Frames in the order of their arrival, none before a moment. -/
def Chronological : Nat → List FileFrame → Prop
  | _, [] => True
  | t, f :: fs => t ≤ f.now ∧ Chronological f.now fs

/-- The run without its payload. -/
def withoutPayload (fs : List FileFrame) : List FileFrame :=
  fs.filter fun f => !filePayloadBypassesQuota f.kind

section Rounded

variable [Rounding]

/-- What the gates said of the control frames of a run. -/
def controlVerdicts (st : SupernodeState) : FeatureRegistry → List FileFrame → List FileVerdict
  | _, [] => []
  | reg, f :: fs =>
    if filePayloadBypassesQuota f.kind then controlVerdicts st (st.relayStep reg f) fs
    else (st.relayFile reg f).2 :: controlVerdicts st (st.relayStep reg f) fs

/-- Payload of a member goes to everyone it is for. -/
def PayloadRelayed (st : SupernodeState) (reg : FeatureRegistry) (f : FileFrame) : Prop :=
  filePayloadBypassesQuota f.kind = true → fileBytes f ≠ 0 →
    st.sfu.isChatSender (frameRoom f.msg) f.msg.sender.text = true →
    (st.relayFile reg f).2.outbound = (st.fileTargets f).map fun peer => (peer, true)

/-- Control frames fare as if there were no payload, and no payload is dropped. -/
structure ControlUnstarved (st : SupernodeState) (reg : FeatureRegistry) (fs : List FileFrame) :
    Prop where
  control : controlVerdicts st reg fs = controlVerdicts st reg (withoutPayload fs)
  payload : Along st.relayStep (PayloadRelayed st) reg fs

/-- The sender's bucket has no bound, or refuses the payload frame and shows no later
refill that it was asked. -/
def PayloadUncharged (reg : FeatureRegistry) (f : FileFrame) : Prop :=
  filePayloadBypassesQuota f.kind = true → fileBytes f ≠ 0 →
    ∀ d, reg.inner roomFile = some d →
    ((reg.quotas.states roomFile f.msg.sender.text).getD
        (.new d.inbound f.now)).params.isUnbounded = true ∨
      ((reg.gateInboundThroughFeature roomFile f.msg.sender.text f.now (fileBytes f)).2 = false ∧
        QuotaState.Unnoticed d.inbound f.now (reg.quotas.states roomFile f.msg.sender.text))

/-- Two registries give the same verdicts on room files from a moment on. -/
structure Matches (t : Nat) (reg reg' : FeatureRegistry) : Prop where
  inner : reg'.inner = reg.inner
  inbound : ∀ d, reg.inner roomFile = some d → ∀ p, QuotaState.Alike d.inbound t
    (reg.quotas.states roomFile p) (reg'.quotas.states roomFile p)
  outbound : ∀ d, reg.inner roomFile = some d → ∀ p, QuotaState.Alike d.outbound t
    (reg.outboundQuotas.states roomFile p) (reg'.outboundQuotas.states roomFile p)

variable {t t' : Nat}

theorem Matches.later (h : Matches t reg reg') (hle : t ≤ t') : Matches t' reg reg' where
  inner := h.inner
  inbound d hd p := (h.inbound d hd p).later hle
  outbound d hd p := (h.outbound d hd p).later hle

theorem Matches.gateInbound (h : Matches t reg reg') :
    (reg.gateInboundThroughFeature roomFile peer t n).2 =
        (reg'.gateInboundThroughFeature roomFile peer t n).2 ∧
      Matches t (reg.gateInboundThroughFeature roomFile peer t n).1
        (reg'.gateInboundThroughFeature roomFile peer t n).1 := by
  unfold FeatureRegistry.gateInboundThroughFeature
  cases hd : reg.inner roomFile with
  | none =>
    simp only [h.inner, hd]
    exact ⟨trivial, h⟩
  | some d =>
    have hd' : reg'.inner roomFile = some d := by rw [h.inner, hd]
    simp only [hd']
    obtain ⟨hverdict, halike⟩ := QuotaRegistry.alike_tryConsume peer n (h.inbound d hd)
    refine ⟨hverdict, h.inner, ?_, h.outbound⟩
    intro d' hd'
    obtain rfl : d' = d := Option.some.inj (hd'.symm.trans hd)
    exact halike

theorem Matches.gateInbound_uncharged (h : Matches t reg reg')
    (hfree : ∀ d, reg.inner roomFile = some d →
      ((reg.quotas.states roomFile peer).getD (.new d.inbound t)).params.isUnbounded = true ∨
        ((reg.gateInboundThroughFeature roomFile peer t n).2 = false ∧
          QuotaState.Unnoticed d.inbound t (reg.quotas.states roomFile peer))) :
    Matches t (reg.gateInboundThroughFeature roomFile peer t n).1 reg' := by
  unfold FeatureRegistry.gateInboundThroughFeature at hfree ⊢
  cases hd : reg.inner roomFile with
  | none => exact h
  | some d =>
    have hcharge := hfree d hd
    simp only [hd] at hcharge
    have halike := QuotaState.alike_of_uncharged hcharge
    refine ⟨h.inner, ?_, h.outbound⟩
    intro d' hd' p
    have heq : d' = d := Option.some.inj (hd'.symm.trans hd)
    subst heq
    simp only [QuotaRegistry.tryConsume, QuotaRegistry.set, true_and]
    split
    · rename_i hp
      rw [hp]
      exact fun u hu => (halike u hu).trans (h.inbound d' hd peer u hu)
    · exact h.inbound d' hd p

theorem Matches.gateThrough (h : Matches t reg reg') :
    (reg.gateThroughFeature roomFile peer t n).2 =
        (reg'.gateThroughFeature roomFile peer t n).2 ∧
      Matches t (reg.gateThroughFeature roomFile peer t n).1
        (reg'.gateThroughFeature roomFile peer t n).1 := by
  unfold FeatureRegistry.gateThroughFeature
  cases hd : reg.inner roomFile with
  | none =>
    simp only [h.inner, hd]
    exact ⟨trivial, h⟩
  | some d =>
    have hd' : reg'.inner roomFile = some d := by rw [h.inner, hd]
    simp only [hd']
    obtain ⟨hverdict, halike⟩ := QuotaRegistry.alike_tryConsume peer n (h.outbound d hd)
    refine ⟨hverdict, h.inner, h.inbound, ?_⟩
    intro d' hd'
    obtain rfl : d' = d := Option.some.inj (hd'.symm.trans hd)
    exact halike

theorem Matches.gateRecipients (h : Matches t reg reg') :
    (gateRecipients reg t n peers).2 = (gateRecipients reg' t n peers).2 ∧
      Matches t (gateRecipients reg t n peers).1 (gateRecipients reg' t n peers).1 := by
  induction peers generalizing reg reg' with
  | nil => exact ⟨rfl, h⟩
  | cons peer peers ih =>
    obtain ⟨hverdict, hnext⟩ := @Matches.gateThrough _ _ n peer _ t h
    obtain ⟨hrest, hend⟩ := ih hnext
    simp only [SupernodeState.gateRecipients]
    exact ⟨by rw [hverdict, hrest], hend⟩

theorem Matches.control (h : Matches f.now reg reg')
    (hcontrol : filePayloadBypassesQuota f.kind = false) :
    (st.relayFile reg f).2 = (st.relayFile reg' f).2 ∧
      Matches f.now (st.relayStep reg f) (st.relayStep reg' f) := by
  obtain ⟨hverdict, hnext⟩ := @Matches.gateInbound _ _ (fileBytes f) f.msg.sender.text _ _ h
  obtain ⟨hout, hend⟩ :=
    @Matches.gateRecipients _ _ f.raw.utf8ByteSize (st.fileTargets f) _ _ hnext
  unfold relayStep relayFile
  simp only [hcontrol, hverdict]
  split
  · exact ⟨rfl, h⟩
  · split
    · exact ⟨rfl, hnext⟩
    · split
      · exact ⟨rfl, hnext⟩
      · exact ⟨by rw [← hout]; rfl, hend⟩

theorem relayStep_of_payload (hpayload : filePayloadBypassesQuota f.kind = true) :
    st.relayStep reg f = if fileBytes f = 0 then reg else
      (reg.gateInboundThroughFeature roomFile f.msg.sender.text f.now (fileBytes f)).1 := by
  unfold relayStep relayFile
  simp only [hpayload, Bool.not_true, Bool.and_false, Bool.false_eq_true, if_false, if_true]
  split
  · rfl
  · split
    · rfl
    · rfl

theorem Matches.payload (h : Matches f.now reg reg')
    (hpayload : filePayloadBypassesQuota f.kind = true) (hfree : PayloadUncharged reg f) :
    Matches f.now (st.relayStep reg f) reg' := by
  rw [relayStep_of_payload hpayload]
  split
  · exact h
  · rename_i hbytes
    exact h.gateInbound_uncharged fun d hd => hfree hpayload hbytes d hd

theorem Matches.controlVerdicts {fs : List FileFrame} (h : Matches t reg reg')
    (hchron : Chronological t fs) (hfree : Along st.relayStep PayloadUncharged reg fs) :
    controlVerdicts st reg fs = SupernodeState.controlVerdicts st reg' (withoutPayload fs) := by
  induction fs generalizing t reg reg' with
  | nil => rfl
  | cons f fs ih =>
    have hnow := h.later hchron.1
    by_cases hpayload : filePayloadBypassesQuota f.kind = true
    · simp only [withoutPayload, SupernodeState.controlVerdicts, hpayload, if_true,
        Bool.not_true, Bool.false_eq_true, not_false_eq_true, List.filter_cons_of_neg]
      exact ih (hnow.payload hpayload hfree.1) hchron.2 hfree.2
    · have hcontrol : filePayloadBypassesQuota f.kind = false := by simpa using hpayload
      obtain ⟨hverdict, hnext⟩ := hnow.control hcontrol
      simp only [withoutPayload, SupernodeState.controlVerdicts, hcontrol, Bool.not_false,
        List.filter_cons_of_pos, Bool.false_eq_true, if_false]
      rw [hverdict, ih hnext hchron.2 hfree.2]
      rfl

theorem relayFile_inbound (hbytes : fileBytes f ≠ 0) : (st.relayFile reg f).2.inbound =
    some (reg.gateInboundThroughFeature roomFile f.msg.sender.text f.now (fileBytes f)).2 := by
  unfold relayFile
  rw [if_neg hbytes]
  simp only
  split
  · rfl
  · split
    · rfl
    · split
      · rfl
      · rfl

theorem controlVerdicts_payload_append {ps fs : List FileFrame}
    (hps : ∀ f ∈ ps, filePayloadBypassesQuota f.kind = true) :
    controlVerdicts st reg (ps ++ fs) = controlVerdicts st (run st.relayStep reg ps) fs := by
  induction ps generalizing reg with
  | nil => rfl
  | cons f ps ih =>
    rw [List.cons_append, controlVerdicts, if_pos (hps f List.mem_cons_self), run_cons]
    exact ih fun f' hf' => hps f' (List.mem_cons_of_mem _ hf')

theorem payloadRelayed : PayloadRelayed st reg f := by
  intro hpayload hbytes hmember
  simp [relayFile, hpayload, hbytes, hmember]

end Rounded

end SupernodeState

/-! ## Alice's files -/

open SupernodeState QuotaState

/-- A frame of Alice's about a file, in the default room. -/
def alicesFile (kind : FileMessage) (data : String) : FileFrame where
  now := 0
  msg := { msgType := .sfuFile kind, sender := alice, payload := .obj [("data", .str data)],
           signature := none }
  raw := ""
  kind := kind

/-- Nobody has sent anything yet. -/
def unused (d : DescriptorParams) : FeatureRegistry where
  inner _ := some d
  quotas := .new
  outboundQuotas := .new

/-- Alice's bucket after some completes at one moment. -/
def afterCompletes (n : Nat) : QuotaState :=
  whole DescriptorParams.roomFileV1.inbound 0 (8388608 - 64 * n) (4096 - n)

theorem roomFileV1_inbound : DescriptorParams.roomFileV1.inbound.bytesPerSec = 8388608 ∧
    DescriptorParams.roomFileV1.inbound.datagramsPerSec = 4096 := by
  constructor
  · norm_num [DescriptorParams.inbound, QuotaParams.read, DescriptorParams.roomFileV1,
      QuotaParams.clamp]
  · norm_num [DescriptorParams.inbound, QuotaParams.read, DescriptorParams.roomFileV1,
      QuotaParams.clamp]

theorem afterCompletes_zero :
    QuotaState.new DescriptorParams.roomFileV1.inbound 0 = afterCompletes 0 := by
  simp [QuotaState.new, afterCompletes, whole, roomFileV1_inbound]

theorem afterCompletes_le (n : Nat) :
    ((8388608 - 64 * n : Nat) : Rat) ≤ DescriptorParams.roomFileV1.inbound.bytesPerSec ∧
      ((4096 - n : Nat) : Rat) ≤ DescriptorParams.roomFileV1.inbound.datagramsPerSec := by
  obtain ⟨hbytes, hdatagrams⟩ := roomFileV1_inbound
  rw [hbytes, hdatagrams]
  constructor
  · exact_mod_cast Nat.sub_le 8388608 (64 * n)
  · exact_mod_cast Nat.sub_le 4096 n

section Whole

variable [R : Rounding] {n : Nat}

theorem afterCompletes_tryConsume (hR : R.KeepsWhole) (hn : n < 4096) :
    (afterCompletes n).tryConsume 0 64 = (afterCompletes (n + 1), true) := by
  obtain ⟨hbytes, hdatagrams⟩ := afterCompletes_le n
  have hpos : 0 < DescriptorParams.roomFileV1.inbound.bytesPerSec := by
    norm_num [roomFileV1_inbound]
  have htake := tryConsume_whole (t := 0) (n := 64) hR (by omega) (by omega) hbytes hdatagrams
    hpos (by omega) (by omega)
  rw [afterCompletes, htake, afterCompletes]
  congr 2

theorem afterCompletes_empty (hR : R.KeepsWhole) :
    ((afterCompletes 4096).tryConsume 0 64).2 = false := by
  obtain ⟨hbytes, hdatagrams⟩ := afterCompletes_le 4096
  have hpos : 0 < DescriptorParams.roomFileV1.inbound.bytesPerSec := by
    norm_num [roomFileV1_inbound]
  have hpos' : 0 < DescriptorParams.roomFileV1.inbound.datagramsPerSec := by
    norm_num [roomFileV1_inbound]
  exact tryConsume_whole_refused hR (by omega) (by omega) hbytes hdatagrams hpos (by omega)
    (.inr ⟨by omega, hpos'⟩)

theorem gate_after_completes {reg : FeatureRegistry}
    (hbucket : (reg.quotas.states roomFile alice.text).getD
      (.new DescriptorParams.roomFileV1.inbound 0) = afterCompletes n)
    (hinner : reg.inner = fun _ => some .roomFileV1) :
    (reg.gateInboundThroughFeature roomFile alice.text 0 64).2 =
      ((afterCompletes n).tryConsume 0 64).2 := by
  simp only [FeatureRegistry.gateInboundThroughFeature, hinner, QuotaRegistry.tryConsume, hbucket]

theorem states_after_completes {st : SupernodeState} (hR : R.KeepsWhole) (hn : n ≤ 4096) :
    ((run st.relayStep (unused .roomFileV1)
        (List.replicate n (alicesFile .complete ""))).quotas.states roomFile alice.text).getD
      (.new DescriptorParams.roomFileV1.inbound 0) = afterCompletes n ∧
    (run st.relayStep (unused .roomFileV1) (List.replicate n (alicesFile .complete ""))).inner =
      fun _ => some .roomFileV1 := by
  induction n with
  | zero => exact ⟨afterCompletes_zero, rfl⟩
  | succ n ih =>
    obtain ⟨hbucket, hinner⟩ := ih (Nat.le_of_succ_le hn)
    rw [List.replicate_succ', run_append]
    simp only [run_cons, run_nil]
    rw [relayStep_of_payload rfl, if_neg (by decide)]
    refine ⟨?_, by rw [FeatureRegistry.gateInbound_inner, hinner]⟩
    have hsender : (alicesFile .complete "").msg.sender.text = alice.text := rfl
    have hstep := afterCompletes_tryConsume hR hn
    rw [← hbucket] at hstep
    simp only [FeatureRegistry.gateInboundThroughFeature, hinner, QuotaRegistry.tryConsume,
      QuotaRegistry.set, hsender, and_self, if_true, Option.getD_some]
    exact congrArg Prod.fst hstep

theorem offer_inbound {reg : FeatureRegistry} :
    (controlVerdicts openNode reg [alicesFile .offer ""]).map FileVerdict.inbound =
      [some (reg.gateInboundThroughFeature roomFile alice.text 0 64).2] :=
  congrArg (fun v => [v]) (relayFile_inbound (by decide))

end Whole

/-- A second's worth of completes, and an offer right after. -/
def completesThenOffer : List FileFrame :=
  List.replicate 4096 (alicesFile .complete "") ++ [alicesFile .offer ""]

/-! ## A chunk that is refused -/

/-- A hundred bytes and ten datagrams a second. -/
def hundred : DescriptorParams where
  quotaBytesPerSec := some 100
  quotaDatagramsPerSec := some 10
  quotaBytesPerSecOutbound := none
  quotaDatagramsPerSecOutbound := none

theorem hundred_inbound :
    hundred.inbound.bytesPerSec = 100 ∧ hundred.inbound.datagramsPerSec = 10 := by
  constructor
  · norm_num [DescriptorParams.inbound, QuotaParams.read, hundred, QuotaParams.clamp]
  · norm_num [DescriptorParams.inbound, QuotaParams.read, hundred, QuotaParams.clamp]

/-- More than the bucket ever holds. -/
def bigChunk : FileFrame :=
  alicesFile .chunk (String.ofList (List.replicate 200 'x'))

theorem fileBytes_bigChunk : fileBytes bigChunk = 200 := by
  decide +kernel

section Whole

variable [R : Rounding] {n : Nat}

theorem completes_starve (hR : R.KeepsWhole) :
    ¬ ControlUnstarved openNode (unused .roomFileV1) completesThenOffer := by
  intro h
  have hps : ∀ f ∈ List.replicate 4096 (alicesFile .complete ""),
      filePayloadBypassesQuota f.kind = true := by
    intro f hf
    rw [List.eq_of_mem_replicate hf]
    rfl
  have hcontrol := h.control
  have hwithout : withoutPayload completesThenOffer = [alicesFile .offer ""] := by
    rw [completesThenOffer, withoutPayload, List.filter_append, List.filter_eq_nil_iff.mpr]
    · rfl
    · intro f hf
      simp [hps f hf]
  rw [hwithout, completesThenOffer, controlVerdicts_payload_append hps] at hcontrol
  obtain ⟨hbucket, hinner⟩ := @states_after_completes R 4096 openNode hR le_rfl
  have hinbound := congrArg (fun vs => vs.map FileVerdict.inbound) hcontrol
  rw [offer_inbound, offer_inbound, gate_after_completes hbucket hinner,
    @gate_after_completes R 0 (unused .roomFileV1) afterCompletes_zero rfl,
    afterCompletes_empty hR, afterCompletes_tryConsume hR (by decide)] at hinbound
  simp at hinbound

theorem gate_unused : ((unused hundred).gateInboundThroughFeature roomFile alice.text 0 n).2 =
    ((whole hundred.inbound 0 100 10).tryConsume 0 n).2 := by
  have hnew : QuotaState.new hundred.inbound 0 = whole hundred.inbound 0 100 10 := by
    simp [QuotaState.new, whole, hundred_inbound]
  rw [← hnew]
  rfl

theorem bigChunk_uncharged (hR : R.KeepsWhole) : PayloadUncharged (unused hundred) bigChunk := by
  obtain ⟨hbytes, hdatagrams⟩ := hundred_inbound
  intro _ _ d hd
  obtain rfl : hundred = d := Option.some.inj hd
  have hpos : 0 < hundred.inbound.bytesPerSec := by norm_num [hundred_inbound]
  have hrefused : ((whole hundred.inbound 0 100 10).tryConsume 0 200).2 = false :=
    tryConsume_whole_refused hR (by norm_num) (by norm_num) (by simp [hbytes])
      (by simp [hdatagrams]) hpos (by norm_num) (.inl (by norm_num))
  have hquiet : Unnoticed hundred.inbound 0 none :=
    @unnoticed_new hundred.inbound 0 R 100 10 hR (by norm_num) (by norm_num) (by simp [hbytes])
      (by simp [hdatagrams])
  refine .inr ⟨?_, hquiet⟩
  rw [fileBytes_bigChunk]
  exact gate_unused.trans hrefused

theorem offer_let_through (hR : R.KeepsWhole)
    (h : ControlUnstarved openNode (unused hundred) [bigChunk, alicesFile .offer ""]) :
    (controlVerdicts openNode (unused hundred) [bigChunk, alicesFile .offer ""]).map
      FileVerdict.inbound = [some true] := by
  obtain ⟨hbytes, hdatagrams⟩ := hundred_inbound
  have hpos : 0 < hundred.inbound.bytesPerSec := by norm_num [hundred_inbound]
  have hwithout : withoutPayload [bigChunk, alicesFile .offer ""] = [alicesFile .offer ""] := rfl
  rw [h.control, hwithout, offer_inbound, gate_unused,
    tryConsume_whole hR (by norm_num) (by norm_num) (by simp [hbytes]) (by simp [hdatagrams])
      hpos (by norm_num) (by norm_num)]

end Whole

end ConquerD.Supernode
