import ConquerD.Features.Verify.Replay
import ConquerD.Lib.Run
import ConquerD.Supernode.Ingress
import ConquerD.Supernode.Verify.Measure

/-!
# Verify: limits and the spelling of a sender

A key may sign as any of its spellings. Its buckets, replay windows and speaker
slots go by the spelling, so they bound what a key gets through only as long as
all of its frames use one.
-/

namespace ConquerD.Supernode

open ConquerD.Features Lib.Bucket Lib.Encoding Lib.Run Lib.Window Wire

/-! ## What one key gets through -/

namespace IngressLog

/-- What the quota of a feature let pass of a key in a stretch of time. -/
def taken (L : IngressLog) (m : Measure) (feature key : String) (t0 t1 : Nat) : Rat :=
  ((L.admitted.filter fun a => a.feature = feature ∧ bare a.frame.sender = key ∧
    t0 ≤ a.frame.now ∧ a.frame.now ≤ t1).map fun a => m.cost a.bytes).sum

end IngressLog

/-- What holds of a key that has one bucket, one replay window and one name: a
second's worth more than its rate at most, a full window at most, and frames of
one type are taken for the same member. -/
structure LimitsFollowIdentity (L : IngressLog) (key : String) : Prop where
  quota : ∀ m feature d t0 t1, L.ingress.features.inner feature = some d →
    0 < Measure.rate m d.inbound →
      L.taken m feature key t0 t1 ≤ m.rate d.inbound * (1 + secs (t1 - t0))
  replay : ∀ spellings : List String, spellings.Nodup → (∀ s ∈ spellings, bare s = key) →
    (spellings.map fun s => (L.ingress.replayGuard.seen s).length).sum ≤ maxEntriesPerSender
  attribution : ∀ a ∈ L.admitted, ∀ b ∈ L.admitted, bare a.frame.sender = key →
    bare b.frame.sender = key → a.frame.msg.msgType = b.frame.msg.msgType →
      participant a.frame.msg = participant b.frame.msg

/-- A frame of the key spells it so. -/
def OneSpelling (spelling : String) (f : IngressFrame) : Prop :=
  bare f.sender = bare spelling → f.sender = spelling

/-- The invariant of a run in which a key has one spelling. -/
structure IngressLog.Sound (L : IngressLog) (inner : String → Option DescriptorParams)
    (spelling : String) (clock : Nat) : Prop where
  inner_eq : L.ingress.features.inner = inner
  spelled : ∀ a ∈ L.admitted, OneSpelling spelling a.frame
  buckets : ∀ m feature d t0 t1, inner feature = some d → 0 < Measure.rate m d.inbound →
    BucketSound m d.inbound t0 t1 clock (L.ingress.features.quotas.states feature spelling)
      (L.taken m feature (bare spelling) t0 t1)
  windows : ∀ s, (L.ingress.replayGuard.seen s).length ≤ maxEntriesPerSender
  unused : ∀ s, bare s = bare spelling → s ≠ spelling → L.ingress.replayGuard.seen s = []

namespace IngressLog

variable {P : Platform} {L : IngressLog} {inner : String → Option DescriptorParams}
  {spelling : String} {clock : Nat} {f : IngressFrame}

theorem seen_start (inner : String → Option DescriptorParams) (s : String) :
    (start inner).ingress.replayGuard.seen s = [] := by
  simp [start, Ingress.start, ReplayGuard.new, ReplayGuard.seen]

theorem taken_start (inner : String → Option DescriptorParams) (m : Measure)
    (feature key : String) (t0 t1 : Nat) : (start inner).taken m feature key t0 t1 = 0 :=
  List.sum_nil

theorem sound_start (inner : String → Option DescriptorParams) (spelling : String) (clock : Nat) :
    (start inner).Sound inner spelling clock := by
  refine ⟨rfl, fun a ha => absurd ha List.not_mem_nil, ?_, ?_, ?_⟩
  · intro m feature d t0 t1 _ _
    exact taken_start inner m feature (bare spelling) t0 t1
  · intro s
    rw [seen_start]
    exact Nat.zero_le maxEntriesPerSender
  · intro s _ _
    exact seen_start inner s

theorem seen_checkAndRecordAt (g : ReplayGuard) (sender : String) (signature : Bytes) (now : Rat)
    (hwindow : (g.seen sender).length ≤ maxEntriesPerSender) :
    ((g.checkAndRecordAt sender signature now).2.seen sender).length ≤ maxEntriesPerSender ∧
      ∀ other, sender ≠ other →
        (g.checkAndRecordAt sender signature now).2.seen other = g.seen other := by
  have hprune : (prune g.window now (g.seen sender)).length ≤ maxEntriesPerSender :=
    (List.length_filter_le _ _).trans hwindow
  unfold ReplayGuard.checkAndRecordAt
  dsimp only
  split
  · exact ⟨hwindow, fun _ _ => rfl⟩
  · split
    · refine ⟨?_, fun other hne => ReplayGuard.seen_setSeen_of_ne hne _⟩
      rw [ReplayGuard.seen_setSeen_self]
      exact hprune
    · split
      · refine ⟨?_, fun other hne => ReplayGuard.seen_setSeen_of_ne hne _⟩
        rw [ReplayGuard.seen_setSeen_self]
        exact hprune
      · next hroom =>
        refine ⟨?_, fun other hne => ReplayGuard.seen_setSeen_of_ne hne _⟩
        rw [ReplayGuard.seen_setSeen_self, List.length_cons]
        omega

theorem seen_checkReplay (s : Ingress) (f : IngressFrame)
    (hwindow : (s.replayGuard.seen f.sender).length ≤ maxEntriesPerSender) :
    ((s.checkReplay f).2.seen f.sender).length ≤ maxEntriesPerSender ∧
      ∀ other, f.sender ≠ other → (s.checkReplay f).2.seen other = s.replayGuard.seen other := by
  unfold Ingress.checkReplay
  split
  · exact ⟨hwindow, fun _ _ => rfl⟩
  · cases f.msg.signature with
    | none => exact ⟨hwindow, fun _ _ => rfl⟩
    | some sig => exact seen_checkAndRecordAt _ _ _ _ hwindow

theorem receive_cases (L : IngressLog) (f : IngressFrame) :
    (L.receive P f).ingress.replayGuard = (L.ingress.checkReplay f).2 ∧
      (((L.receive P f).ingress.features = L.ingress.features ∧
          (L.receive P f).admitted = L.admitted) ∨
        ∃ feature bytes,
          (L.receive P f).ingress.features =
              (L.ingress.features.gateInboundThroughFeature feature f.sender f.now bytes).1 ∧
            (L.receive P f).admitted =
              if (L.ingress.features.gateInboundThroughFeature feature f.sender f.now bytes).2 then
                ⟨f, feature, bytes⟩ :: L.admitted
              else L.admitted) := by
  unfold receive Ingress.receive
  dsimp only
  split
  · exact ⟨rfl, .inl ⟨rfl, rfl⟩⟩
  · split
    · exact ⟨rfl, .inl ⟨rfl, rfl⟩⟩
    · next feature bytes _ =>
      split
      · exact ⟨rfl, .inl ⟨rfl, rfl⟩⟩
      · refine ⟨rfl, .inr ⟨feature, bytes, rfl, ?_⟩⟩
        split <;> rfl

theorem taken_cons {L L' : IngressLog} {a : Admission} (h : L'.admitted = a :: L.admitted)
    (m : Measure) (feature key : String) (t0 t1 : Nat) :
    L'.taken m feature key t0 t1 =
      L.taken m feature key t0 t1 +
        if a.feature = feature ∧ bare a.frame.sender = key ∧ t0 ≤ a.frame.now ∧ a.frame.now ≤ t1 then
          m.cost a.bytes
        else 0 := by
  unfold taken
  rw [h, List.filter_cons]
  split
  · next h =>
    have hall := of_decide_eq_true h
    rw [if_pos hall, List.map_cons, List.sum_cons, add_comm]
  · next h =>
    have hnot := of_decide_eq_false (Bool.not_eq_true _ ▸ h)
    rw [if_neg hnot, add_zero]

theorem taken_congr {L L' : IngressLog} (h : L'.admitted = L.admitted) (m : Measure)
    (feature key : String) (t0 t1 : Nat) :
    L'.taken m feature key t0 t1 = L.taken m feature key t0 t1 := by
  unfold taken
  rw [h]

theorem gateInbound_states {reg : FeatureRegistry} {feature sender : String} {now n : Nat}
    {d : DescriptorParams} (hd : reg.inner feature = some d) (g p : String) :
    (reg.gateInboundThroughFeature feature sender now n).1.quotas.states g p =
      if g = feature ∧ p = sender then
        some (((reg.quotas.states feature sender).getD (.new d.inbound now)).tryConsume now n).1
      else reg.quotas.states g p := by
  unfold FeatureRegistry.gateInboundThroughFeature
  rw [hd]
  rfl

theorem gateInbound_verdict {reg : FeatureRegistry} {feature sender : String} {now n : Nat}
    {d : DescriptorParams} (hd : reg.inner feature = some d) :
    (reg.gateInboundThroughFeature feature sender now n).2 =
      (((reg.quotas.states feature sender).getD (.new d.inbound now)).tryConsume now n).2 := by
  unfold FeatureRegistry.gateInboundThroughFeature
  rw [hd]
  rfl

theorem gateInbound_states_other {reg : FeatureRegistry} {feature sender g p : String} {now n : Nat}
    (hne : ¬ (g = feature ∧ p = sender)) :
    (reg.gateInboundThroughFeature feature sender now n).1.quotas.states g p =
      reg.quotas.states g p := by
  rcases Option.eq_none_or_eq_some (reg.inner feature) with hnone | ⟨d, hd⟩
  · unfold FeatureRegistry.gateInboundThroughFeature
    rw [hnone]
  · rw [gateInbound_states hd, if_neg hne]

theorem Sound.receive (h : L.Sound inner spelling clock) (hle : clock ≤ f.now)
    (hone : OneSpelling spelling f) : (L.receive P f).Sound inner spelling f.now := by
  obtain ⟨hguard, hcases⟩ := receive_cases (P := P) L f
  obtain ⟨hself, hothers⟩ := seen_checkReplay L.ingress f (h.windows f.sender)
  have hwindows : ∀ s, ((L.receive P f).ingress.replayGuard.seen s).length ≤
      maxEntriesPerSender := by
    intro s
    rw [hguard]
    by_cases hs : f.sender = s
    · rw [← hs]
      exact hself
    · rw [hothers s hs]
      exact h.windows s
  have hunused : ∀ s, bare s = bare spelling → s ≠ spelling →
      (L.receive P f).ingress.replayGuard.seen s = [] := by
    intro s hbare hne
    have hs : f.sender ≠ s := by
      rintro rfl
      exact hne (hone hbare)
    rw [hguard, hothers s hs]
    exact h.unused s hbare hne
  rcases hcases with ⟨hfeatures, hadmitted⟩ | ⟨feature, bytes, hfeatures, hadmitted⟩
  · refine ⟨by rw [hfeatures, h.inner_eq], by rw [hadmitted]; exact h.spelled, ?_, hwindows, hunused⟩
    intro m g d t0 t1 hd hrate
    rw [hfeatures, taken_congr hadmitted]
    exact (h.buckets m g d t0 t1 hd hrate).later hle
  · refine ⟨by rw [hfeatures, FeatureRegistry.gateInbound_inner, h.inner_eq], ?_, ?_, hwindows,
      hunused⟩
    · rw [hadmitted]
      split
      · exact List.forall_mem_cons.mpr ⟨hone, h.spelled⟩
      · exact h.spelled
    · intro m g d t0 t1 hd hrate
      have hbucket := h.buckets m g d t0 t1 hd hrate
      rw [hfeatures]
      by_cases hsame : g = feature ∧ spelling = f.sender
      · obtain ⟨rfl, hsender⟩ := hsame
        have hinner : L.ingress.features.inner g = some d := by
          rw [h.inner_eq]
          exact hd
        have hasked := (hbucket.getD hrate hle).tryConsume (n := bytes) hrate
        rw [hsender, ← gateInbound_verdict hinner] at hasked
        rw [hsender, gateInbound_states hinner, if_pos ⟨rfl, rfl⟩]
        have htaken : (L.receive P f).taken m g (bare f.sender) t0 t1 =
            L.taken m g (bare f.sender) t0 t1 +
              if (L.ingress.features.gateInboundThroughFeature g f.sender f.now bytes).2 = true ∧
                  t0 ≤ f.now ∧ f.now ≤ t1 then m.cost bytes else 0 := by
          split at hadmitted
          · next hpass =>
            rw [taken_cons hadmitted]
            simp [hpass]
          · next hpass =>
            rw [taken_congr hadmitted, if_neg (fun hall => hpass hall.1), add_zero]
        rw [htaken]
        exact hasked
      · have htaken : (L.receive P f).taken m g (bare spelling) t0 t1 =
            L.taken m g (bare spelling) t0 t1 := by
          split at hadmitted
          · rw [taken_cons hadmitted, if_neg ?_, add_zero]
            rintro ⟨hg, hbare, -⟩
            exact hsame ⟨hg.symm, (hone hbare).symm⟩
          · exact taken_congr hadmitted _ _ _ _ _
        rw [htaken, gateInbound_states_other hsame]
        exact hbucket.later hle

theorem Sound.run {fs : List IngressFrame} (h : L.Sound inner spelling clock)
    (htime : (clock :: fs.map IngressFrame.now).Pairwise (· ≤ ·))
    (hone : ∀ f ∈ fs, OneSpelling spelling f) :
    ∃ clock', (run (IngressLog.receive P) L fs).Sound inner spelling clock' := by
  induction fs generalizing L clock with
  | nil => exact ⟨clock, h⟩
  | cons f fs ih =>
    obtain ⟨hfirst, hrest⟩ := List.pairwise_cons.mp htime
    obtain ⟨hf, hfs⟩ := List.forall_mem_cons.mp hone
    exact ih (h.receive (hfirst _ List.mem_cons_self) hf) hrest hfs

theorem Sound.participant_eq (h : L.Sound inner spelling clock) {a b : Admission}
    (ha : a ∈ L.admitted) (hb : b ∈ L.admitted) (hkey : bare a.frame.sender = bare spelling)
    (hkey' : bare b.frame.sender = bare spelling)
    (htype : a.frame.msg.msgType = b.frame.msg.msgType) :
    participant a.frame.msg = participant b.frame.msg := by
  have htext : a.frame.msg.sender.text = b.frame.msg.sender.text :=
    (h.spelled a ha hkey).trans (h.spelled b hb hkey').symm
  unfold participant
  rw [htype, htext]

/-- The windows of all spellings together hold what the one in use holds. -/
theorem Sound.sum_windows (h : L.Sound inner spelling clock) {spellings : List String}
    (hnodup : spellings.Nodup) (hkey : ∀ s ∈ spellings, bare s = bare spelling) :
    (spellings.map fun s => (L.ingress.replayGuard.seen s).length).sum ≤ maxEntriesPerSender := by
  induction spellings with
  | nil => exact Nat.zero_le _
  | cons s rest ih =>
    obtain ⟨hs, hrest⟩ := List.nodup_cons.mp hnodup
    obtain ⟨hkeyS, hkeyRest⟩ := List.forall_mem_cons.mp hkey
    rw [List.map_cons, List.sum_cons]
    by_cases heq : s = spelling
    · -- the others were never used
      have hzero : (rest.map fun s => (L.ingress.replayGuard.seen s).length).sum = 0 := by
        refine List.sum_eq_zero_iff_forall_eq_nat.mpr ?_
        intro n hn
        obtain ⟨other, hother, rfl⟩ := List.mem_map.mp hn
        have hne : other ≠ spelling := by
          rintro rfl
          exact hs (heq ▸ hother)
        rw [h.unused other (hkeyRest other hother) hne, List.length_nil]
      rw [hzero, add_zero]
      exact h.windows s
    · rw [h.unused s hkeyS heq, List.length_nil, zero_add]
      exact ih hrest hkeyRest

variable (P)

/-- A key with one spelling gets through what one identity may. -/
theorem limits_follow_identity (inner : String → Option DescriptorParams) (spelling : String)
    (fs : List IngressFrame) (htime : (fs.map IngressFrame.now).Pairwise (· ≤ ·))
    (hone : ∀ f ∈ fs, OneSpelling spelling f) :
    LimitsFollowIdentity (run (IngressLog.receive P) (start inner) fs) (bare spelling) := by
  have htime' : (0 :: fs.map IngressFrame.now).Pairwise (· ≤ ·) :=
    List.pairwise_cons.mpr ⟨fun _ _ => Nat.zero_le _, htime⟩
  obtain ⟨clock, hsound⟩ := (sound_start inner spelling 0).run (P := P) htime' hone
  refine ⟨?_, ?_, ?_⟩
  · intro m feature d t0 t1 hd hrate
    rw [hsound.inner_eq] at hd
    exact (hsound.buckets m feature d t0 t1 hd hrate).bounded hrate
  · intro spellings hnodup hkey
    exact hsound.sum_windows hnodup hkey
  · intro a ha b hb hkey hkey' htype
    exact hsound.participant_eq ha hb hkey hkey' htype

end IngressLog

/-! ## Two spellings -/

/-- The id of alice without its padding. -/
def aliceBare : PublicId where
  text := bare alice.text
  valid := by decide

def chatFrame (sender : PublicId) (signature : String) : IngressFrame where
  now := 0
  msg :=
    { msgType := .sfuChat
      sender := sender
      payload := .obj [("body", .str "0123456789012345678901234567890123456789")]
      signature := some signature }
  peerFileData := false

/-- A node that lets 64 bytes of chat pass in a second. -/
def smallChatQuota (feature : String) : Option DescriptorParams :=
  if feature = "room.chat.v1" then some ⟨some 64, some 16, none, none⟩ else none

/-- In one spelling, the second frame is refused. -/
theorem one_spelling_is_bounded :
    LimitsFollowIdentity
      (run (IngressLog.receive Platform.symbolic) (.start smallChatQuota)
        [chatFrame alice "s1", chatFrame alice "s2"]) (bare alice.text) := by
  refine IngressLog.limits_follow_identity Platform.symbolic smallChatQuota alice.text _ (by decide) ?_
  intro f hf _
  rcases List.mem_cons.mp hf with rfl | hf
  · rfl
  · obtain rfl := List.mem_singleton.mp hf
    rfl

/-- In two spellings, one key gets 80 bytes through at once. -/
theorem two_spellings_are_not_bounded :
    ¬ LimitsFollowIdentity
      (run (IngressLog.receive Platform.symbolic) (.start smallChatQuota)
        [chatFrame alice "s1", chatFrame aliceBare "s2"]) (bare alice.text) := by
  intro h
  have hquota := h.quota .bytes "room.chat.v1" ⟨some 64, some 16, none, none⟩ 0 0 (by rfl)
    (by decide +kernel)
  revert hquota
  decide +kernel

end ConquerD.Supernode
