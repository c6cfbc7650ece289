import ConquerD.Supernode.Verify.Membership

/-!
# Who room frames come from and go to

Chat, file and video-state frames are forwarded for members only, to members
only, and never back to their author. The two audio paths do not ask whether
the sender is a member, the WebSocket one leaves out the sender's own spelling
only, and a keyframe request goes to whatever member it names. A run fans out
from members only exactly when its audio and keyframe requests stay clear of
that.
-/

namespace ConquerD.Supernode

open Std (ExtTreeMap)
open Lib.Run Wire

/-! ## Members -/

section Members

variable {mgr : SFURoomManager} {r p : String}

theorem isChatSender_iff :
    mgr.isChatSender r p = true ↔ ∃ room, mgr.getRoom r = some room ∧
      (normalizePublicId p ∈ room.participants ∨ normalizePublicId p ∈ room.subscribers) := by
  unfold SFURoomManager.isChatSender
  cases mgr.getRoom r with
  | none => simp
  | some room => simp

theorem isChatSender_of_isParticipant (hwf : SfuWf mgr) (h : IsParticipant mgr r p) :
    mgr.isChatSender r p = true := by
  obtain ⟨room, hroom, hp⟩ := h
  have hcanon := (hwf r room hroom).participantCanon p hp
  exact isChatSender_iff.mpr ⟨room, hroom, .inl (hcanon.symm ▸ hp)⟩

theorem isChatSender_of_chatRecipient (hwf : SfuWf mgr) (h : p ∈ mgr.getChatRecipients r) :
    mgr.isChatSender r p = true := by
  unfold SFURoomManager.getChatRecipients at h
  cases hroom : mgr.getRoom r with
  | none => simp [hroom] at h
  | some room =>
    simp only [hroom, SFURoom.chatRecipientIds, List.mem_append, ExtTreeMap.mem_keys,
      Std.ExtTreeSet.mem_toList] at h
    have hroomWf := hwf r room hroom
    refine isChatSender_iff.mpr ⟨room, hroom, ?_⟩
    rcases h with hp | hp
    · exact .inl ((hroomWf.participantCanon p hp).symm ▸ hp)
    · exact .inr ((hroomWf.subscriberCanon p hp).symm ▸ hp)

theorem normalized_mem_chatRecipients (h : mgr.isChatSender r p = true) :
    normalizePublicId p ∈ mgr.getChatRecipients r := by
  obtain ⟨room, hroom, hp⟩ := isChatSender_iff.mp h
  simpa [SFURoomManager.getChatRecipients, hroom, SFURoom.chatRecipientIds] using hp

theorem noteAudioShouldForward_participants {decay : Rat → Rat} {room : SFURoom} {now : Rat} :
    (room.noteAudioShouldForward decay p now).1.participants = room.participants := by
  unfold SFURoom.noteAudioShouldForward
  simp only
  repeat' split
  all_goals rfl

theorem mem_audioForwardTargets {decay : Rat → Rat} {now : Rat} {targets : List String}
    {q : String} (h : (mgr.audioForwardTargets decay r p now).2 = some targets) :
    q ∈ targets ↔ IsParticipant mgr r q := by
  unfold SFURoomManager.audioForwardTargets at h
  unfold IsParticipant
  cases hroom : mgr.getRoom r with
  | none => simp [hroom] at h
  | some room =>
    simp only [hroom] at h
    split at h
    · cases h
      simp [SFURoom.participantIds, noteAudioShouldForward_participants]
    · cases h

end Members

theorem PublicId.text_ne_empty (p : PublicId) : p.text ≠ "" := by
  intro h
  have hsize := p.valid.size
  rw [h] at hsize
  revert hsize
  decide

theorem isRoomFrameAuthor_iff {recipient : String} {sender : PublicId} :
    isRoomFrameAuthor recipient sender.text = true ↔ bare recipient = bare sender.text := by
  have hne := PublicId.text_ne_empty sender
  simp only [isRoomFrameAuthor, Bool.and_eq_true, bne_iff_ne, ne_eq, hne, not_false_eq_true,
    true_and, beq_iff_eq]
  rw [eq_comm, normalizePublicId_eq_iff sender.valid, eq_comm]

/-! ## The property -/

def MessageType.isRoomFrame : MessageType → Bool
  | .sfuChat | .sfuAudio | .sfuFile _ | .sfuVideoState | .sfuVideoKeyframeRequest => true
  | _ => false

/-- The room-scoped frame an event submits: its authenticated sender and its
room. A datagram's room is the one its payload names, or else the one its relay
connection is in. -/
def submittedFrame (st : SupernodeState) : Event → Option (String × String)
  | .message _ msg _ =>
    if msg.msgType.isRoomFrame then some (msg.sender.text, SupernodeState.frameRoom msg) else none
  | .roomAudioDatagram _ fromPeer _ _ payloadRoom _ =>
    (payloadRoom.orElse fun _ => st.relay.peers[fromPeer]?.bind (·.roomId)).map (fromPeer, ·)
  | _ => none

/-- The peer something is sent to; nothing for what goes to the cluster. -/
def Outgoing.recipient : Outgoing → Option String
  | .signed target _ => some target
  | .frame target _ => some target
  | .datagram target _ => some target
  | .gameDatagram target _ => some target
  | _ => none

/-- Whatever a frame's event sends: the frame's sender is a member of the room,
and so is every recipient, who is not the sender under any spelling. -/
def FansOutFromMembers (P : Platform) (st : SupernodeState) (e : Event) : Prop :=
  ∀ sender room, submittedFrame st e = some (sender, room) →
    ∀ o ∈ (st.handle P e).2, st.sfu.isChatSender room sender = true ∧
      ∀ target, o.recipient = some target →
        st.sfu.isChatSender room target = true ∧ bare target ≠ bare sender

/-! ## The condition -/

section Condition

variable (P : Platform) (env : Env) (st : SupernodeState)

/-- The active-speaker gate lets the frame through. -/
def SpeakerGatePasses (roomId sender : String) : Prop :=
  (st.sfu.audioForwardTargets P.decay roomId sender env.now).2.isSome = true

/-- An audio message that passes quota and speaker gate: when a sibling node or a
participant other than the sender's own spelling is there to take it, its sender
is a member; and a participant with outbound quota left spells its id in the
canonical way. -/
def AudioMessageSafe (msg : SignalingMessage) (raw : String) : Prop :=
  sfuAudioOpusByteCount P msg.payload ≠ 0 →
  env.gateInbound "room.audio.sfu" msg.sender.text (sfuAudioOpusByteCount P msg.payload) = true →
  SpeakerGatePasses P env st (SupernodeState.frameRoom msg) msg.sender.text →
    (st.config.clustered = true ∨
        (∃ p, IsParticipant st.sfu (SupernodeState.frameRoom msg) p ∧ p ≠ msg.sender.text ∧
          env.gateOutbound "room.audio.sfu" p raw.utf8ByteSize = true) →
      st.sfu.isChatSender (SupernodeState.frameRoom msg) msg.sender.text = true) ∧
    (IsParticipant st.sfu (SupernodeState.frameRoom msg) (normalizePublicId msg.sender.text) →
      env.gateOutbound "room.audio.sfu" (normalizePublicId msg.sender.text)
        raw.utf8ByteSize = true →
      msg.sender.text = normalizePublicId msg.sender.text)

/-- The bridge has a way to send the participant a frame of this size. -/
def BridgeReaches (size : Nat) (p : String) : Prop :=
  if st.relay.peers.contains (bare p) && env.relayOpen (bare p) then
    env.gateOutbound "room.audio.sfu" (bare p) (size + 2) = true
  else env.gateOutbound "room.audio.sfu" p size = true

/-- An audio datagram that passes quota and speaker gate: when a sibling node or
another participant is there to take it, its sender is a member. -/
def AudioDatagramSafe (fromPeer raw : String) (quotaBytes : Nat) (payloadRoom : Option String)
    (parsed : Option SignalingMessage) : Prop :=
  ∀ from_ roomId, st.relay.peers[fromPeer]? = some from_ →
    (quotaBytes > 0 → env.gateInbound "room.audio.sfu" fromPeer quotaBytes = true) →
    (payloadRoom.orElse fun _ => from_.roomId) = some roomId →
    SpeakerGatePasses P env st roomId (padBase64url fromPeer) →
    ((st.config.clustered = true ∧ parsed.isSome = true) ∨
      ∃ p, IsParticipant st.sfu roomId p ∧ p ≠ padBase64url fromPeer ∧
        BridgeReaches env st raw.utf8ByteSize p) →
    st.sfu.isChatSender roomId fromPeer = true

/-- A member's keyframe request names another peer. -/
def KeyframeRequestSafe (msg : SignalingMessage) : Prop :=
  ∀ target, msg.payload.nonemptyStr? "target_peer" = some target →
    st.sfu.isChatSender (SupernodeState.frameRoom msg) msg.sender.text = true →
    bare target ≠ bare msg.sender.text

/-- The frame stays clear of what the forwarding paths do not check. -/
def FanOutSafe : Event → Prop
  | .message env msg raw =>
    match msg.msgType with
    | .sfuAudio => AudioMessageSafe P env st msg raw
    | .sfuVideoKeyframeRequest => KeyframeRequestSafe st msg
    | _ => True
  | .roomAudioDatagram env fromPeer raw quotaBytes payloadRoom parsed =>
    AudioDatagramSafe P env st fromPeer raw quotaBytes payloadRoom parsed
  | _ => True

end Condition

/-! ## The paths that check -/

/-- What is true of everything one frame's event sends. -/
def SentForMember (st : SupernodeState) (sender room : String) (out : List Outgoing) : Prop :=
  ∀ o ∈ out, st.sfu.isChatSender room sender = true ∧
    ∀ target, o.recipient = some target →
      st.sfu.isChatSender room target = true ∧ bare target ≠ bare sender

namespace SupernodeState

variable {P : Platform} {env : Env} {st : SupernodeState} {msg : SignalingMessage} {raw : String}

theorem sentForMember_frames {room : String} {targets : List String} (hwf : SfuWf st.sfu)
    (hsender : st.sfu.isChatSender room msg.sender.text = true)
    (htargets : ∀ p ∈ targets, p ∈ st.sfu.getChatRecipients room ∧
      isRoomFrameAuthor p msg.sender.text = false) :
    SentForMember st msg.sender.text room (targets.map (.frame · raw)) := by
  intro o ho
  obtain ⟨p, hp, rfl⟩ := List.mem_map.mp ho
  refine ⟨hsender, ?_⟩
  intro target ht
  cases ht
  obtain ⟨hmem, hauthor⟩ := htargets p hp
  refine ⟨isChatSender_of_chatRecipient hwf hmem, ?_⟩
  intro hbare
  rw [isRoomFrameAuthor_iff.mpr hbare] at hauthor
  cases hauthor

theorem handleSfuChatBroadcast_sent (hwf : SfuWf st.sfu) :
    SentForMember st msg.sender.text (frameRoom msg) (st.handleSfuChatBroadcast env msg raw).2 := by
  unfold handleSfuChatBroadcast
  simp only
  split
  · exact fun _ ho => absurd ho List.not_mem_nil
  · split
    · exact fun _ ho => absurd ho List.not_mem_nil
    · split
      · exact fun _ ho => absurd ho List.not_mem_nil
      · rename_i hmember
        have hsender : st.sfu.isChatSender (frameRoom msg) msg.sender.text = true := by
          simpa using hmember
        intro o ho
        rcases List.mem_append.mp ho with ho | ho
        · refine sentForMember_frames hwf hsender ?_ o ho
          intro p hp
          obtain ⟨hp, hkeep⟩ := List.mem_filter.mp hp
          simp only [Bool.and_eq_true, Bool.not_eq_eq_eq_not, Bool.not_true] at hkeep
          exact ⟨hp, hkeep.1⟩
        · unfold replicateRoomChat at ho
          split at ho
          · cases List.mem_singleton.mp ho
            exact ⟨hsender, fun target ht => by cases ht⟩
          · cases ho

theorem mem_fileFrameRecipients {recipients : List String} {sender p : String}
    {target : Option String} (h : p ∈ fileFrameRecipients recipients sender target) :
    p ∈ recipients ∧ isRoomFrameAuthor p sender = false := by
  unfold fileFrameRecipients at h
  cases target with
  | none => simpa using h
  | some target =>
    have hfilter := List.mem_filter.mp (List.mem_of_mem_take h)
    simp only [Bool.and_eq_true, Bool.not_eq_eq_eq_not, Bool.not_true] at hfilter
    exact ⟨hfilter.1, hfilter.2.2⟩

theorem handleSfuBroadcast_sent {kind : FileMessage} (hwf : SfuWf st.sfu) :
    SentForMember st msg.sender.text (frameRoom msg) (st.handleSfuBroadcast env msg raw kind).2 := by
  unfold handleSfuBroadcast
  simp only
  split
  · exact fun _ ho => absurd ho List.not_mem_nil
  · split
    · exact fun _ ho => absurd ho List.not_mem_nil
    · split
      · exact fun _ ho => absurd ho List.not_mem_nil
      · rename_i hmember
        refine sentForMember_frames hwf (by simpa using hmember) ?_
        intro p hp
        exact mem_fileFrameRecipients (List.mem_filter.mp hp).1

theorem handleSfuVideoState_sent (hwf : SfuWf st.sfu) :
    SentForMember st msg.sender.text (frameRoom msg) (st.handleSfuVideoState msg raw).2 := by
  unfold handleSfuVideoState
  simp only
  split
  · exact fun _ ho => absurd ho List.not_mem_nil
  · rename_i hmember
    refine sentForMember_frames hwf (by simpa using hmember) ?_
    intro p hp
    simpa using hp

/-! ## The paths that do not -/

theorem handleSfuVideoKeyframeRequest_sent_iff (hwf : SfuWf st.sfu) :
    SentForMember st msg.sender.text (frameRoom msg) (st.handleSfuVideoKeyframeRequest msg raw).2 ↔
      KeyframeRequestSafe st msg := by
  unfold handleSfuVideoKeyframeRequest KeyframeRequestSafe
  cases htarget : msg.payload.nonemptyStr? "target_peer" with
  | none => simp [SentForMember]
  | some target =>
    cases hmember : st.sfu.isChatSender (frameRoom msg) msg.sender.text with
    | false => simp [hmember, SentForMember]
    | true =>
      have hne : target ≠ "" := by
        have := (Option.filter_eq_some_iff.mp htarget).2
        simpa using this
      simp only [hmember, Bool.not_true, Bool.false_eq_true, if_false, Option.some.injEq,
        forall_eq', forall_const]
      have hauthor : ∀ p, isRoomFrameAuthor p target = true ↔
          normalizePublicId p = normalizePublicId target := by
        simp [isRoomFrameAuthor, hne]
      constructor
      · -- a member that names itself is found among the recipients
        intro hsent hself
        have hmem := normalized_mem_chatRecipients hmember
        have hfind : ((st.sfu.getChatRecipients (frameRoom msg)).find? fun peer =>
            isRoomFrameAuthor peer target).isSome = true := by
          rw [List.find?_isSome]
          refine ⟨_, hmem, (hauthor _).mpr ?_⟩
          rw [normalizePublicId_idem]
          exact (normalizePublicId_eq_iff msg.sender.valid).mpr hself.symm
        obtain ⟨peer, hpeer⟩ := Option.isSome_iff_exists.mp hfind
        have hbare : bare peer = bare target :=
          bare_eq_of_normalizePublicId_eq ((hauthor peer).mp (by simpa using List.find?_some hpeer))
        rw [hpeer] at hsent
        exact ((hsent _ List.mem_cons_self).2 peer rfl).2 (hbare.trans hself)
      · intro hother
        split
        · exact fun _ ho => absurd ho List.not_mem_nil
        · rename_i peer hpeer
          have hbare : bare peer = bare target :=
            bare_eq_of_normalizePublicId_eq
              ((hauthor peer).mp (by simpa using List.find?_some hpeer))
          intro o ho
          cases List.mem_singleton.mp ho
          refine ⟨hmember, ?_⟩
          intro t ht
          cases ht
          refine ⟨isChatSender_of_chatRecipient hwf (List.mem_of_find?_eq_some hpeer), ?_⟩
          rw [hbare]
          exact hother

theorem handleSfuAudioBroadcast_sent_iff (hwf : SfuWf st.sfu) :
    SentForMember st msg.sender.text (frameRoom msg)
        (st.handleSfuAudioBroadcast P env msg raw).2 ↔ AudioMessageSafe P env st msg raw := by
  unfold handleSfuAudioBroadcast AudioMessageSafe SpeakerGatePasses
  simp only
  by_cases hopus : sfuAudioOpusByteCount P msg.payload = 0
  · rw [if_pos hopus]
    exact ⟨fun _ hne => absurd hopus hne, fun _ _ ho => absurd ho List.not_mem_nil⟩
  rw [if_neg hopus]
  cases hgate : env.gateInbound "room.audio.sfu" msg.sender.text
      (sfuAudioOpusByteCount P msg.payload) with
  | false => simp [SentForMember]
  | true =>
    cases htargets : (st.sfu.audioForwardTargets P.decay (frameRoom msg) msg.sender.text
        env.now).2 with
    | none => simp [SentForMember]
    | some targets =>
      have hmem : ∀ p, p ∈ targets ↔ IsParticipant st.sfu (frameRoom msg) p :=
        fun p => mem_audioForwardTargets htargets
      simp only [Bool.not_true, Bool.false_eq_true, if_false, Option.isSome_some,
        forall_const, ne_eq, hopus, not_false_eq_true]
      constructor
      · intro hsent
        refine ⟨?_, ?_⟩
        · rintro (hcluster | ⟨p, hp, hne, hout⟩)
          · refine (hsent (.replicate (frameRoom msg) (audioReplicationId msg) raw) ?_).1
            refine List.mem_append_right _ ?_
            simp [replicateRoomAudio, hcluster]
          · refine (hsent (.frame p raw) ?_).1
            refine List.mem_append_left _ (List.mem_map.mpr ⟨p, ?_, rfl⟩)
            simp [(hmem p).mpr hp, hne, hout]
        · intro hself hout
          by_contra hne
          have hsentSelf := hsent (.frame (normalizePublicId msg.sender.text) raw) (by
            refine List.mem_append_left _ (List.mem_map.mpr ⟨_, ?_, rfl⟩)
            simp [(hmem _).mpr hself, Ne.symm hne, hout])
          exact (hsentSelf.2 _ rfl).2 (bare_normalizePublicId _)
      · rintro ⟨hmember, hspelling⟩ o ho
        rcases List.mem_append.mp ho with ho | ho
        · obtain ⟨p, hp, rfl⟩ := List.mem_map.mp ho
          obtain ⟨hp, hkeep⟩ := List.mem_filter.mp hp
          simp only [Bool.and_eq_true, bne_iff_ne] at hkeep
          have hpart := (hmem p).mp hp
          refine ⟨hmember (.inr ⟨p, hpart, hkeep.1, hkeep.2⟩), ?_⟩
          intro target ht
          cases ht
          refine ⟨isChatSender_of_isParticipant hwf hpart, ?_⟩
          -- a participant that is the sender is the sender's canonical spelling
          intro hbare
          obtain ⟨room, hroom, hin⟩ := hpart
          have hcanon : p = normalizePublicId msg.sender.text := by
            rw [← (hwf _ room hroom).participantCanon p hin]
            exact ((normalizePublicId_eq_iff msg.sender.valid).mpr hbare.symm).symm
          subst hcanon
          exact hkeep.1 (hspelling ⟨room, hroom, hin⟩ hkeep.2).symm
        · unfold replicateRoomAudio at ho
          split at ho
          · rename_i hcluster
            cases List.mem_singleton.mp ho
            exact ⟨hmember (.inl hcluster), fun target ht => by cases ht⟩
          · cases ho

/-- The padded spelling of a relay id of the length of a key is the canonical one. -/
theorem padBase64url_of_bare {fromPeer : String} (hbare : bare fromPeer = fromPeer)
    (hvalid : IsPublicId fromPeer) : padBase64url fromPeer = normalizePublicId fromPeer := by
  have hsize : fromPeer.utf8ByteSize = 43 := by
    have := hvalid.size
    rwa [hbare] at this
  rw [normalizePublicId_of_valid hvalid, hbare]
  unfold padBase64url
  rw [hsize]
  rw [← String.toList_inj]
  simp

theorem roomAudioBridge_sent_iff {fromPeer roomId : String} {parsed : Option SignalingMessage}
    (hwf : SfuWf st.sfu) (hbare : bare fromPeer = fromPeer) :
    SentForMember st fromPeer roomId (st.roomAudioBridge P env fromPeer roomId raw parsed).2 ↔
      (SpeakerGatePasses P env st roomId (padBase64url fromPeer) →
        ((st.config.clustered = true ∧ parsed.isSome = true) ∨
          ∃ p, IsParticipant st.sfu roomId p ∧ p ≠ padBase64url fromPeer ∧
            BridgeReaches env st raw.utf8ByteSize p) →
        st.sfu.isChatSender roomId fromPeer = true) := by
  unfold roomAudioBridge SpeakerGatePasses
  simp only
  cases htargets : (st.sfu.audioForwardTargets P.decay roomId (padBase64url fromPeer) env.now).2 with
  | none => simp [SentForMember]
  | some targets =>
    have hmem : ∀ p, p ∈ targets ↔ IsParticipant st.sfu roomId p :=
      fun p => mem_audioForwardTargets htargets
    simp only [Option.isSome_some, forall_const]
    constructor
    · intro hsent
      rintro (⟨hcluster, hparsed⟩ | ⟨p, hp, hne, hreach⟩)
      · obtain ⟨msg, rfl⟩ := Option.isSome_iff_exists.mp hparsed
        refine (hsent (.replicate roomId (audioReplicationId msg) raw) ?_).1
        refine List.mem_append_right _ ?_
        simp [replicateRoomAudio, hcluster]
      · unfold BridgeReaches at hreach
        split at hreach
        · rename_i hrelay
          refine (hsent (.datagram p raw) ?_).1
          refine List.mem_append_left _ (List.mem_filterMap.mpr ⟨p, ?_, ?_⟩)
          · simp [(hmem p).mpr hp, hne]
          · rw [if_pos hrelay, if_pos hreach]
        · rename_i hrelay
          refine (hsent (.frame p raw) ?_).1
          refine List.mem_append_left _ (List.mem_filterMap.mpr ⟨p, ?_, ?_⟩)
          · simp [(hmem p).mpr hp, hne]
          · rw [if_neg hrelay, if_pos hreach]
    · intro hmember o ho
      rcases List.mem_append.mp ho with ho | ho
      · obtain ⟨p, hp, hsend⟩ := List.mem_filterMap.mp ho
        obtain ⟨hp, hne⟩ := List.mem_filter.mp hp
        have hpart := (hmem p).mp hp
        have hne : p ≠ padBase64url fromPeer := by simpa using hne
        -- whichever transport is taken, it is there and the target is the participant
        have hsent : BridgeReaches env st raw.utf8ByteSize p ∧ o.recipient = some p := by
          unfold BridgeReaches
          split at hsend
          · rename_i hrelay
            rw [if_pos hrelay]
            split at hsend
            · cases hsend
              exact ⟨‹_›, rfl⟩
            · cases hsend
          · rename_i hrelay
            rw [if_neg hrelay]
            split at hsend
            · cases hsend
              exact ⟨‹_›, rfl⟩
            · cases hsend
        refine ⟨hmember (.inr ⟨p, hpart, hne, hsent.1⟩), ?_⟩
        intro target ht
        cases hsent.2.symm.trans ht
        refine ⟨isChatSender_of_isParticipant hwf hpart, ?_⟩
        intro hsame
        obtain ⟨room, hroom, hin⟩ := hpart
        have hroomWf := hwf roomId room hroom
        have hvalid : IsPublicId fromPeer := (hroomWf.participantValid p hin).of_bare_eq hsame
        refine hne ?_
        rw [padBase64url_of_bare hbare hvalid, ← hroomWf.participantCanon p hin]
        exact (normalizePublicId_eq_iff (hroomWf.participantValid p hin)).mpr hsame
      · cases parsed with
        | none => cases ho
        | some msg =>
          simp only [replicateRoomAudio] at ho
          split at ho
          · rename_i hcluster
            cases List.mem_singleton.mp ho
            exact ⟨hmember (.inl ⟨hcluster, rfl⟩), fun target ht => by cases ht⟩
          · cases ho

theorem handleRoomAudioDatagram_of_some {fromPeer : String} {quotaBytes : Nat}
    {payloadRoom : Option String} {parsed : Option SignalingMessage} {from_ : RelayPeer}
    {roomId : String} (hfrom : st.relay.peers[fromPeer]? = some from_)
    (hquota : quotaBytes > 0 → env.gateInbound "room.audio.sfu" fromPeer quotaBytes = true)
    (hroom : (payloadRoom.orElse fun _ => from_.roomId) = some roomId) :
    st.handleRoomAudioDatagram P env fromPeer raw quotaBytes payloadRoom parsed =
      (st.healRoom fromPeer from_ payloadRoom).roomAudioBridge P env fromPeer roomId raw parsed := by
  unfold handleRoomAudioDatagram
  rw [if_neg (by simpa using hquota), hfrom]
  simp only [hroom]

theorem healRoom_bridge_sent_iff {fromPeer roomId : String} {from_ : RelayPeer}
    {payloadRoom : Option String} {parsed : Option SignalingMessage} (hwf : SfuWf st.sfu)
    (hkeys : ∀ k, k ∈ st.relay.peers → bare k = k)
    (hfrom : st.relay.peers[fromPeer]? = some from_) :
    SentForMember st fromPeer roomId ((st.healRoom fromPeer from_ payloadRoom).roomAudioBridge P env
        fromPeer roomId raw parsed).2 ↔
      (SpeakerGatePasses P env st roomId (padBase64url fromPeer) →
        ((st.config.clustered = true ∧ parsed.isSome = true) ∨
          ∃ p, IsParticipant st.sfu roomId p ∧ p ≠ padBase64url fromPeer ∧
            BridgeReaches env st raw.utf8ByteSize p) →
        st.sfu.isChatSender roomId fromPeer = true) := by
  have hbare : bare fromPeer = fromPeer := by
    refine hkeys fromPeer ?_
    rw [ExtTreeMap.mem_iff_isSome_getElem?, hfrom]
    rfl
  obtain ⟨hsfu, hconfig, -, hcontains⟩ := @healRoom_same st fromPeer from_ payloadRoom hfrom
  have hiff := @roomAudioBridge_sent_iff P env (st.healRoom fromPeer from_ payloadRoom) raw fromPeer
    roomId parsed (hsfu.symm ▸ hwf) hbare
  unfold SentForMember SpeakerGatePasses BridgeReaches at hiff ⊢
  simp only [hsfu, hconfig, hcontains] at hiff
  exact hiff

theorem handleRoomAudioDatagram_sent_iff {fromPeer : String} {quotaBytes : Nat}
    {payloadRoom : Option String} {parsed : Option SignalingMessage} (hwf : SfuWf st.sfu)
    (hkeys : ∀ k, k ∈ st.relay.peers → bare k = k) :
    FansOutFromMembers P st
        (.roomAudioDatagram env fromPeer raw quotaBytes payloadRoom parsed) ↔
      AudioDatagramSafe P env st fromPeer raw quotaBytes payloadRoom parsed := by
  constructor
  · intro h from_ roomId hfrom hquota hroom
    have hsub : submittedFrame st
        (.roomAudioDatagram env fromPeer raw quotaBytes payloadRoom parsed) =
          some (fromPeer, roomId) := by
      simp only [submittedFrame, hfrom, Option.bind_some, hroom, Option.map_some]
    have hsent := h fromPeer roomId hsub
    simp only [handle, handleRoomAudioDatagram_of_some hfrom hquota hroom] at hsent
    exact (healRoom_bridge_sent_iff hwf hkeys hfrom).mp hsent
  · intro h sender room hsub
    simp only [submittedFrame, handle] at hsub ⊢
    have hnone : ∀ o ∈ ([] : List Outgoing), st.sfu.isChatSender room sender = true ∧
        ∀ target, o.recipient = some target →
          st.sfu.isChatSender room target = true ∧ bare target ≠ bare sender :=
      fun _ ho => absurd ho List.not_mem_nil
    cases hfrom : st.relay.peers[fromPeer]? with
    | none =>
      unfold handleRoomAudioDatagram
      split
      · exact hnone
      · rw [hfrom]
        exact hnone
    | some from_ =>
      rw [hfrom, Option.bind_some, Option.map_eq_some_iff] at hsub
      obtain ⟨roomId, hroom, heq⟩ := hsub
      cases heq
      by_cases hquota : quotaBytes > 0 →
          env.gateInbound "room.audio.sfu" fromPeer quotaBytes = true
      · rw [handleRoomAudioDatagram_of_some hfrom hquota hroom]
        exact (healRoom_bridge_sent_iff hwf hkeys hfrom).mpr (h from_ room hfrom hquota hroom)
      · unfold handleRoomAudioDatagram
        rw [if_pos (by simpa using hquota)]
        exact hnone

end SupernodeState

/-! ## Relay connections are filed under bare ids -/

theorem RelayState.mem_peers_handleConnection {rs : RelayState} {certs : List (List UInt8)}
    {connection : Nat} {order : List String} {k : String}
    (h : k ∈ (rs.handleConnection certs connection order).1.peers) :
    k ∈ rs.peers ∨ bare k = k := by
  unfold handleConnection at h
  cases hid : extractPeerId certs with
  | error e => exact .inl (by simpa [hid] using h)
  | ok peerId =>
    have hbare : bare peerId = peerId := by
      obtain ⟨key, rfl⟩ : ∃ key, peerId = Lib.Encoding.b64UrlEncode key := by
        cases certs with
        | nil => cases hid
        | cons cert rest =>
          obtain ⟨key, -, heq⟩ := extractPeerId_ok_iff.mp hid
          exact ⟨key, heq⟩
      exact Lib.Text.trimEndMatches_of_notMem (Lib.Encoding.pad_notMem_b64UrlEncode key)
    have hsoft : ∀ k, k ∈ (rs.softReplace peerId).peers → k ∈ rs.peers := by
      intro k hk
      unfold softReplace at hk
      split at hk
      · exact hk
      · exact (ExtTreeMap.mem_erase.mp hk).2
    simp only [hid] at h
    split at h
    · exact .inl h
    · split at h
      · exact .inl h
      · split at h
        · exact .inl (hsoft k h)
        · rename_i idx rs' halloc
          have hpeers : rs'.peers = (rs.softReplace peerId).peers := by
            unfold allocateIndex at halloc
            split at halloc
            · cases halloc
            · cases halloc
              rfl
          simp only [ExtTreeMap.mem_insert, Std.compare_eq_iff_eq] at h
          rcases h with rfl | h
          · exact .inr hbare
          · rw [hpeers] at h
            exact .inl (hsoft k h)

theorem RelayState.mem_peers_connectionClosed {rs : RelayState} {p k : String} {connection : Nat}
    (h : k ∈ (rs.connectionClosed p connection).peers) : k ∈ rs.peers := by
  unfold connectionClosed at h
  split at h
  · split at h
    · rename_i peer hpeer _
      have hpeers : (rs.removePeer p).peers = rs.peers.erase p := by
        unfold removePeer
        simp only [hpeer]
        split <;> rfl
      rw [hpeers] at h
      exact (ExtTreeMap.mem_erase.mp h).2
    · exact h
  · exact h

theorem RelayState.mem_peers_joinRoom {rs : RelayState} {p r k : String}
    (h : k ∈ (rs.joinRoom p r).peers) : k ∈ rs.peers := by
  unfold joinRoom at h
  exact ExtTreeMap.mem_modify.mp h

theorem RelayState.mem_peers_leaveRoom {rs : RelayState} {p k : String}
    (h : k ∈ (rs.leaveRoom p).peers) : k ∈ rs.peers := by
  unfold leaveRoom at h
  simp only at h
  cases hpeer : rs.peers[bare p]? with
  | none => simpa [hpeer] using h
  | some peer =>
    simp only [hpeer] at h
    split at h
    · exact h
    · simp only [ExtTreeMap.mem_insert, Std.compare_eq_iff_eq] at h
      rcases h with rfl | h
      · rw [ExtTreeMap.mem_iff_isSome_getElem?, hpeer]
        rfl
      · exact h

namespace SupernodeState

variable {P : Platform} {env : Env} {st : SupernodeState} {msg : SignalingMessage} {raw : String}

theorem handleSfuJoin_relayPeers {k : String}
    (h : k ∈ (st.handleSfuJoin P env msg).1.relay.peers) : k ∈ st.relay.peers := by
  have hadm : (st.admittedForJoin P env msg).relay = st.relay := by
    unfold admittedForJoin
    split <;> exact trySpaceAdmission_frame.1
  rw [handleSfuJoin_state] at h
  simp only at h
  split at h
  · rw [ensureRelayForRoomGuest_same.relayPeers, hadm] at h
    exact RelayState.mem_peers_joinRoom h
  · rwa [hadm] at h

/-- Of all messages only joins and leaves touch the relay's connections, and they
add none. -/
theorem onMessage_relayPeers {k : String} (h : k ∈ (st.onMessage P env msg raw).1.relay.peers) :
    k ∈ st.relay.peers := by
  have hsame : ∀ st' : SupernodeState, st'.relay.peers = st.relay.peers →
      k ∈ st'.relay.peers → k ∈ st.relay.peers := by
    intro st' heq hk
    rwa [heq] at hk
  unfold onMessage at h
  split at h
  · exact hsame _ handleHandshakeInit_same.relayPeers h
  · exact hsame _ handleRelayRequest_same.relayPeers h
  · exact handleSfuJoin_relayPeers h
  · exact RelayState.mem_peers_leaveRoom h
  · exact h
  · exact hsame _ (congrArg (·.relay.peers) handleSfuChatBroadcast_state) h
  · refine hsame _ ?_ h
    unfold handleSfuAudioBroadcast
    simp only
    repeat' split
    all_goals rfl
  · exact hsame _ (congrArg (·.relay.peers) handleSfuBroadcast_state) h
  · exact hsame _ (congrArg (·.relay.peers) handleSfuVideoState_state) h
  · exact hsame _ (congrArg (·.relay.peers) handleSfuVideoKeyframeRequest_state) h
  · refine hsame _ ?_ h
    unfold handleSfuVideoSubscribe
    simp only
    repeat' split
    all_goals rfl
  · refine hsame _ ?_ h
    unfold handleSfuSubscribe
    split <;> rfl
  · refine hsame _ ?_ h
    unfold handleSfuUnsubscribe
    split <;> rfl
  · refine hsame _ ?_ h
    unfold handleSfuRoomCreate admitOnCreate
    simp only
    repeat' split
    all_goals rfl
  · refine hsame _ ?_ h
    rw [handleSfuRoomInvite_state]
    have hadm : (st.admittedForInvite P env msg).1.relay = st.relay := by
      unfold admittedForInvite
      simp only
      split <;> exact trySpaceAdmission_frame.1
    simp only
    split
    · rw [ensureRelayForRoomGuest_same.relayPeers, hadm]
    · rw [hadm]
  · refine hsame _ ?_ h
    unfold handleSfuInviteGenerate
    simp only
    repeat' split
    all_goals rfl
  · refine hsame _ ?_ h
    unfold handleSpaceRootAnnounce
    repeat' split
    all_goals rfl
  · refine hsame _ ?_ h
    unfold handleGameRelayJoin RelayState.joinGameSession
    simp only
    repeat' split
    all_goals rfl
  · refine hsame _ ?_ h
    simp only
    unfold RelayState.leaveGameSession
    simp only
    split <;> rfl
  · exact h
  · exact h

/-- What every event keeps: a well-formed room table, and relay connections
filed under bare ids. -/
structure NodeWf (st : SupernodeState) : Prop where
  sfu : SfuWf st.sfu
  relayBare : ∀ k, k ∈ st.relay.peers → bare k = k

theorem NodeWf.start (config : Config) (peers : PeerStore) (handshake : HandshakeManager) :
    NodeWf (.start config peers handshake) := by
  have hgrants : ∀ (ids : List String) (rs : RelayState),
      (ids.foldl RelayState.allowPeer rs).peers = rs.peers := by
    intro ids
    induction ids with
    | nil => exact fun rs => rfl
    | cons id ids ih => exact fun rs => ih (rs.allowPeer id)
  refine ⟨SfuWf.new, ?_⟩
  intro k hk
  simp only [SupernodeState.start] at hk
  rw [hgrants] at hk
  simp [RelayState.new] at hk

theorem NodeWf.step (h : NodeWf st) (e : Event) : NodeWf (st.step P e) := by
  refine ⟨step_wf h.sfu e, ?_⟩
  have hsame : ∀ st' : SupernodeState, st'.relay.peers = st.relay.peers →
      ∀ k, k ∈ st'.relay.peers → bare k = k := by
    intro st' heq k hk
    rw [heq] at hk
    exact h.relayBare k hk
  unfold SupernodeState.step handle
  cases e with
  | message env msg raw => exact fun k hk => h.relayBare k (onMessage_relayPeers hk)
  | peerConnected env peer => exact hsame _ onPeerConnected_same.relayPeers
  | peerDisconnected env peer =>
    refine hsame _ ?_
    unfold onPeerDisconnected
    simp only
    split <;> rfl
  | relayConnected certs connection order =>
    intro k hk
    rcases RelayState.mem_peers_handleConnection hk with hk | hk
    · exact h.relayBare k hk
    · exact hk
  | relayClosed peerId connection =>
    exact fun k hk => h.relayBare k (RelayState.mem_peers_connectionClosed hk)
  | roomAudioDatagram env fromPeer raw quotaBytes payloadRoom parsed =>
    intro k hk
    rcases @handleRoomAudioDatagram_state P env st raw fromPeer quotaBytes payloadRoom parsed with
      heq | ⟨from_, hfrom, heq | ⟨roomId, heq⟩⟩
    · rw [heq] at hk
      exact h.relayBare k hk
    all_goals
      rw [heq, ExtTreeMap.mem_iff_contains] at hk
      rw [(healRoom_same hfrom).2.2.2] at hk
      exact h.relayBare k (ExtTreeMap.mem_iff_contains.mpr hk)
  | gameDatagram sessionId fromPeer payload =>
    refine hsame _ ?_
    simp only
    unfold replicateGameDatagram
    split <;> rfl
  | replicated env roomId messageId raw =>
    refine hsame _ ?_
    simp only
    unfold deliverReplicatedRoomFrame deliverReplicatedGameDatagram deliverReplicatedAudio
      deliverReplicatedChat
    simp only
    repeat' split
    all_goals rfl
  | peerAuth env identityPub handle directInvite => exact hsame _ applyPeerAuth_same.relayPeers
  | roomRoster env desc => exact h.relayBare
  | spaceRoot root => exact h.relayBare
  | gcIdleRooms now idleSecs => exact h.relayBare

theorem fansOutFromMembers_iff (h : NodeWf st) (e : Event) :
    FansOutFromMembers P st e ↔ FanOutSafe P st e := by
  have hvacuous : ∀ e, submittedFrame st e = none → FansOutFromMembers P st e := by
    intro e hnone sender room hsub
    rw [hnone] at hsub
    cases hsub
  -- a frame's message sends what its handler sends
  have hframe : ∀ env msg raw out, msg.msgType.isRoomFrame = true →
      (st.handle P (.message env msg raw)).2 = out →
      (FansOutFromMembers P st (.message env msg raw) ↔
        SentForMember st msg.sender.text (frameRoom msg) out) := by
    intro env msg raw out hty hout
    unfold FansOutFromMembers SentForMember
    simp only [submittedFrame, hty, if_true, Option.some.injEq, Prod.mk.injEq, hout]
    constructor
    · exact fun hsent => hsent _ _ ⟨rfl, rfl⟩
    · rintro hsent sender room ⟨rfl, rfl⟩
      exact hsent
  cases e with
  | message env msg raw =>
    unfold FanOutSafe
    cases hty : msg.msgType with
    | sfuChat =>
      rw [hframe env msg raw _ (by simp [hty, MessageType.isRoomFrame]) rfl]
      simp only [handle, onMessage, hty, iff_true]
      exact handleSfuChatBroadcast_sent h.sfu
    | sfuAudio =>
      rw [hframe env msg raw _ (by simp [hty, MessageType.isRoomFrame]) rfl]
      simp only [handle, onMessage, hty]
      exact handleSfuAudioBroadcast_sent_iff h.sfu
    | sfuFile kind =>
      rw [hframe env msg raw _ (by simp [hty, MessageType.isRoomFrame]) rfl]
      simp only [handle, onMessage, hty, iff_true]
      exact handleSfuBroadcast_sent h.sfu
    | sfuVideoState =>
      rw [hframe env msg raw _ (by simp [hty, MessageType.isRoomFrame]) rfl]
      simp only [handle, onMessage, hty, iff_true]
      exact handleSfuVideoState_sent h.sfu
    | sfuVideoKeyframeRequest =>
      rw [hframe env msg raw _ (by simp [hty, MessageType.isRoomFrame]) rfl]
      simp only [handle, onMessage, hty]
      exact handleSfuVideoKeyframeRequest_sent_iff h.sfu
    | _ =>
      simp only [hty, iff_true]
      refine hvacuous _ ?_
      simp [submittedFrame, hty, MessageType.isRoomFrame]
  | roomAudioDatagram env fromPeer raw quotaBytes payloadRoom parsed =>
    exact handleRoomAudioDatagram_sent_iff h.sfu h.relayBare
  | _ =>
    simp only [FanOutSafe, iff_true]
    exact hvacuous _ rfl

/-- Along every run of a node, room frames are fanned out from members to other
members exactly when every frame of the run is safe. -/
theorem fanOut_from_members_iff (config : Config) (peers : PeerStore)
    (handshake : HandshakeManager) (es : List Event) :
    Along (SupernodeState.step P) (FansOutFromMembers P) (.start config peers handshake) es ↔
      Along (SupernodeState.step P) (FanOutSafe P) (.start config peers handshake) es :=
  along_congr_inv NodeWf (.start config peers handshake) (fun _ e hs => hs.step e)
    fun _ e hs => fansOutFromMembers_iff hs e

end SupernodeState

/-! ## A concrete run -/

/-- Alice has joined the built-in room. -/
def roomOfAlice : List Event :=
  [.message .permissive
    { msgType := .sfuJoin, sender := alice, payload := .obj [("room_id", .str "default")],
      signature := none } ""]

/-- An audio frame from Bob, who is in no room. -/
def bobsAudio : Event :=
  .message .permissive
    { msgType := .sfuAudio, sender := bob,
      payload := .obj [("room_id", .str "default"), ("audio", .str "AAAA")],
      signature := none } "audio of bob"

/-- Bob's audio reaches Alice although Bob is no member of the room. -/
theorem audio_of_outsider_delivered :
    ¬ Along (SupernodeState.step .symbolic) (FansOutFromMembers .symbolic)
      (.start { publicId := "", openMode := true, sfuRoomPolicy := ⟨true, true⟩, clustered := false }
        ⟨∅⟩ ⟨"", ∅⟩) (roomOfAlice ++ [bobsAudio]) := by
  rw [along_append]
  rintro ⟨-, hbob, -⟩
  have hmember := (hbob bob.text "default" (by decide) (.frame alice.text "audio of bob")
    (by decide +kernel)).1
  revert hmember
  decide +kernel

end ConquerD.Supernode
