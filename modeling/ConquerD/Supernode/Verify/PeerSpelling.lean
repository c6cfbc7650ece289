import ConquerD.Lib.Trace
import ConquerD.Supernode.Verify.SamePeer
import ConquerD.Supernode.Verify.SfuCalls
import ConquerD.Wire.Space

/-!
# Supernode: rooms and the spelling of a peer

Rooms know a peer by its canonical spelling, and most calls bring an id into it
first. Four do not: a room without an id takes it from the creator as spelled, a
mint compares and records the requester as spelled, an adopted owner is kept as
spelled, and a speaker is tracked as spelled. Two runs that differ in spellings
only are alike exactly when these four calls find nothing to go by.
-/

namespace ConquerD.Supernode

open Lib.Run Lib.Trace Wire
open Std (ExtTreeMap ExtTreeSet)

/-! ## Calls by another spelling -/

namespace SfuCall

/-- The peer a call is about. -/
def peer : SfuCall → Option String
  | .createRoomWithPolicy _ _ _ creatorId _ _ => some creatorId
  | .gcIdleRooms _ _ => none
  | .joinRoom peerId _ => some peerId
  | .leaveRoom peerId _ _ => some peerId
  | .removePeerFromAll peerId _ => some peerId
  | .audioForwardTargets _ sender _ => some sender
  | .isChatSender _ peerId => some peerId
  | .isRoomAuthorizedPeer peerId => some peerId
  | .subscribe peerId _ => some peerId
  | .unsubscribe peerId _ _ => some peerId
  | .validateRoomInvite _ _ peerId => some peerId
  | .allowPeer _ peerId => some peerId
  | .adoptCreatorIfEmpty _ ownerPub => some ownerPub
  | .generateInviteTokenChecked _ requester _ => some requester

/-- The call about another peer. -/
def withPeer (p : String) : SfuCall → SfuCall
  | .createRoomWithPolicy roomId roomName roomType _ invitePolicy now =>
    .createRoomWithPolicy roomId roomName roomType p invitePolicy now
  | .gcIdleRooms now idleSecs => .gcIdleRooms now idleSecs
  | .joinRoom _ roomId => .joinRoom p roomId
  | .leaveRoom _ roomId now => .leaveRoom p roomId now
  | .removePeerFromAll _ now => .removePeerFromAll p now
  | .audioForwardTargets roomId _ now => .audioForwardTargets roomId p now
  | .isChatSender roomId _ => .isChatSender roomId p
  | .isRoomAuthorizedPeer _ => .isRoomAuthorizedPeer p
  | .subscribe _ roomId => .subscribe p roomId
  | .unsubscribe _ roomId now => .unsubscribe p roomId now
  | .validateRoomInvite roomId token _ => .validateRoomInvite roomId token p
  | .allowPeer roomId _ => .allowPeer roomId p
  | .adoptCreatorIfEmpty roomId _ => .adoptCreatorIfEmpty roomId p
  | .generateInviteTokenChecked roomId _ nonce => .generateInviteTokenChecked roomId p nonce

/-- The same call, with the peer spelled otherwise or not. -/
def Respelled (c c' : SfuCall) : Prop :=
  c' = c ∨ ∃ p p', c.peer = some p ∧ SamePeer p p' ∧ c' = c.withPeer p'

end SfuCall

namespace SFURoomManager

variable (P : Platform)

/-- The call does not go by the spelling of its peer. -/
def SpellingFree (mgr : SFURoomManager) : SfuCall → Prop
  | .createRoomWithPolicy none roomName _ creatorId _ _ =>
    ∀ creatorId', SamePeer creatorId creatorId' →
      P.deriveRoomId creatorId' roomName = P.deriveRoomId creatorId roomName
  | .audioForwardTargets roomId sender _ => IsKeyText sender → mgr.getRoom roomId = none
  | .adoptCreatorIfEmpty roomId ownerPub =>
    IsKeyText ownerPub → ∀ room, mgr.getRoom roomId = some room → room.creatorId ≠ ""
  | .generateInviteTokenChecked roomId requester _ =>
    IsKeyText requester → ∀ room, mgr.getRoom roomId = some room → room.creatorId ≠ "" →
      ¬ SamePeer requester room.creatorId ∧
      ¬ (room.invitePolicy = .members ∧ room.isInviteEligibleMember requester)
  | _ => True

variable {P} {mgr : SFURoomManager} {p p' : String}

theorem indifferent_iff {c : SfuCall} (hpeer : c.peer = some p) :
    Indifferent (call P) SfuCall.Respelled mgr c ↔
      ∀ p', SamePeer p p' → mgr.call P (c.withPeer p') = mgr.call P c := by
  constructor
  · exact fun h p' hp' => h _ (.inr ⟨p, p', hpeer, hp', rfl⟩)
  · rintro h c' (rfl | ⟨q, p', hq, hp', rfl⟩)
    · rfl
    · obtain rfl := Option.some.inj (hpeer.symm.trans hq)
      exact h p' hp'

/-! ## Calls that go by the canonical spelling -/

section Canonical

variable (h : normalizePublicId p' = normalizePublicId p)
include h

theorem isPeerAllowed_respelled (room : SFURoom) :
    room.isPeerAllowed p' = room.isPeerAllowed p := by
  unfold SFURoom.isPeerAllowed
  rw [h]

theorem isInviteEligibleMember_respelled (room : SFURoom) :
    room.isInviteEligibleMember p' = room.isInviteEligibleMember p := by
  unfold SFURoom.isInviteEligibleMember
  rw [h]

theorem createRoomWithPolicy_respelled (r name : String) (ty : RoomType) (policy : String)
    (now : Rat) : mgr.createRoomWithPolicy r name ty p' policy now =
      mgr.createRoomWithPolicy r name ty p policy now := by
  unfold createRoomWithPolicy SFURoom.new
  rw [h]

theorem joinRoom_respelled (r : String) : mgr.joinRoom p' r = mgr.joinRoom p r := by
  unfold joinRoom
  rw [h]

theorem leaveRoom_respelled (r : String) (now : Rat) :
    mgr.leaveRoom p' r now = mgr.leaveRoom p r now := by
  unfold leaveRoom SFURoom.removeParticipant
  rw [h]

theorem removePeerFromAll_respelled (now : Rat) :
    mgr.removePeerFromAll p' now = mgr.removePeerFromAll p now := by
  unfold removePeerFromAll
  rw [h]

theorem isRoomAuthorizedPeer_respelled :
    mgr.isRoomAuthorizedPeer p' = mgr.isRoomAuthorizedPeer p := by
  unfold isRoomAuthorizedPeer
  simp only [isInviteEligibleMember_respelled h]

theorem isChatSender_of_canonical (r : String) : mgr.isChatSender r p' = mgr.isChatSender r p := by
  unfold isChatSender
  rw [h]

theorem subscribe_respelled (r : String) : mgr.subscribe p' r = mgr.subscribe p r := by
  unfold subscribe SFURoom.subscribe
  simp only [isPeerAllowed_respelled h, h]

theorem unsubscribe_respelled (r : String) (now : Rat) :
    mgr.unsubscribe p' r now = mgr.unsubscribe p r now := by
  unfold unsubscribe SFURoom.unsubscribe
  rw [h]

theorem validateRoomInvite_respelled (r token : String) :
    mgr.validateRoomInvite r token p' = mgr.validateRoomInvite r token p := by
  unfold validateRoomInvite SFURoom.validateAndConsumeToken
  rw [h]

theorem allowPeer_respelled (r : String) : mgr.allowPeer r p' = mgr.allowPeer r p := by
  unfold allowPeer SFURoom.allowPeer
  rw [h]

end Canonical

/-! ## Calls that go by the spelling -/

theorem setRoom_inj {r : String} {room room' : SFURoom}
    (h : mgr.setRoom r room = mgr.setRoom r room') : room = room' := by
  have hroom := congrArg (getRoom · r) h
  simpa using hroom

/-- The room a create call answers with is filed under the id that was asked for. -/
theorem roomId_createRoomWithPolicy (h : AllRooms (fun key room => room.roomId = key) mgr)
    (r name : String) (ty : RoomType) (creator policy : String) (now : Rat) :
    (mgr.createRoomWithPolicy r name ty creator policy now).2.1.roomId = r := by
  cases hr : mgr.getRoom r with
  | some room =>
    rw [createRoomWithPolicy_of_some hr]
    exact h r room hr
  | none =>
    rw [createRoomWithPolicy_of_none hr]
    exact freshRoom_roomId

theorem indifferent_createRoomWithPolicy (h : AllRooms (fun key room => room.roomId = key) mgr)
    (roomId : Option String) (name : String) (ty : RoomType) (creator policy : String)
    (now : Rat) :
    Indifferent (call P) SfuCall.Respelled mgr
        (.createRoomWithPolicy roomId name ty creator policy now) ↔
      SpellingFree P mgr (.createRoomWithPolicy roomId name ty creator policy now) := by
  rw [indifferent_iff rfl]
  cases roomId with
  | some r =>
    refine ⟨fun _ => trivial, fun _ p' hp' => ?_⟩
    simp only [SfuCall.withPeer, call, roomIdOr, Option.getD_some,
      createRoomWithPolicy_respelled (samePeer_iff.mp hp')]
  | none =>
    refine forall₂_congr fun p' hp' => ?_
    constructor
    · intro hsame
      have hroom : (mgr.createRoomWithPolicy (P.deriveRoomId p' name) name ty p' policy now).2.1 =
          (mgr.createRoomWithPolicy (P.deriveRoomId creator name) name ty creator policy
            now).2.1 := by
        have hanswer := congrArg Prod.snd hsame
        simp only [SfuCall.withPeer, call, roomIdOr, Option.getD_none,
          SfuAnswer.room.injEq] at hanswer
        exact hanswer.1
      have hid := congrArg SFURoom.roomId hroom
      rwa [roomId_createRoomWithPolicy h, roomId_createRoomWithPolicy h] at hid
    · intro hid
      simp only [SfuCall.withPeer, call, roomIdOr, Option.getD_none, hid,
        createRoomWithPolicy_respelled (samePeer_iff.mp hp')]

/-- A frame leaves its sender among the speakers, as spelled, and nobody new beside. -/
theorem mem_speakerScores_noteAudio {decay : Rat → Rat} {room : SFURoom} {sender other : String}
    {now : Rat} (hnew : other ∉ room.speakerScores) :
    other ∈ (room.noteAudioShouldForward decay sender now).1.speakerScores ↔ other = sender := by
  have hscores : ∃ entry : SpeakerScore, entry.lastActive = now ∧
      (room.noteAudioShouldForward decay sender now).1.speakerScores =
        (room.speakerScores.insert sender entry).filter fun _ s =>
          now - s.lastActive ≤ speakerSilenceSecs := by
    unfold SFURoom.noteAudioShouldForward
    simp only
    split
    · exact ⟨_, rfl, rfl⟩
    · split
      · exact ⟨_, rfl, rfl⟩
      · split
        · split
          · exact ⟨_, rfl, rfl⟩
          · exact ⟨_, rfl, rfl⟩
        · exact ⟨_, rfl, rfl⟩
  obtain ⟨entry, hentry, hscores⟩ := hscores
  rw [hscores, ExtTreeMap.mem_iff_isSome_getElem?, ExtTreeMap.getElem?_filter',
    ExtTreeMap.getElem?_insert]
  by_cases hsender : other = sender
  · have hrecent : now - entry.lastActive ≤ speakerSilenceSecs := by
      rw [hentry, sub_self]
      decide +kernel
    simpa [hsender] using hrecent
  · have hne : ¬ sender = other := fun heq => hsender heq.symm
    have hnone : room.speakerScores[other]? = none := ExtTreeMap.getElem?_eq_none hnew
    simp [hsender, hne, hnone]

theorem indifferent_audioForwardTargets (r sender : String) (now : Rat) :
    Indifferent (call P) SfuCall.Respelled mgr (.audioForwardTargets r sender now) ↔
      SpellingFree P mgr (.audioForwardTargets r sender now) := by
  rw [indifferent_iff rfl]
  constructor
  · intro h hkey
    cases hr : mgr.getRoom r with
    | none => rfl
    | some room =>
      obtain ⟨p', hp', hfresh⟩ :=
        exists_spelling_notMem hkey (insert sender room.speakerScores.keys.toFinset)
      simp only [Finset.mem_insert, List.mem_toFinset, ExtTreeMap.mem_keys, not_or] at hfresh
      have hstate := congrArg Prod.fst (h p' hp')
      simp only [SfuCall.withPeer, call, audioForwardTargets, hr] at hstate
      have hrooms := setRoom_inj hstate
      have hmem : p' ∈ (room.noteAudioShouldForward P.decay p' now).1.speakerScores :=
        (mem_speakerScores_noteAudio hfresh.2).mpr rfl
      rw [hrooms, mem_speakerScores_noteAudio hfresh.2] at hmem
      exact absurd hmem hfresh.1
  · intro h p' hp'
    by_cases hkey : IsKeyText sender
    · simp only [SfuCall.withPeer, call, audioForwardTargets, h hkey]
    · obtain rfl := hp'.eq hkey
      rfl

theorem indifferent_adoptCreatorIfEmpty (r owner : String) :
    Indifferent (call P) SfuCall.Respelled mgr (.adoptCreatorIfEmpty r owner) ↔
      SpellingFree P mgr (.adoptCreatorIfEmpty r owner) := by
  have hne : ∀ p, IsKeyText p → p ≠ "" := by
    rintro p hkey rfl
    have hsize : (bare "").utf8ByteSize = 43 := hkey
    exact absurd hsize (by decide)
  rw [indifferent_iff rfl]
  constructor
  · intro h hkey room hr howner
    obtain ⟨p', hp', hfresh⟩ := exists_spelling_notMem hkey {owner}
    have hkey' := hp'.isKeyText hkey
    have hstate := congrArg Prod.fst (h p' hp')
    simp only [SfuCall.withPeer, call, adoptCreatorIfEmpty, hr, howner, if_true,
      if_neg (hne p' hkey'), if_neg (hne owner hkey)] at hstate
    have hcreator := congrArg SFURoom.creatorId (setRoom_inj hstate)
    exact hfresh (Finset.mem_singleton.mpr hcreator)
  · intro h p' hp'
    by_cases hkey : IsKeyText owner
    · have hkept : ∀ p, IsKeyText p → mgr.adoptCreatorIfEmpty r p = mgr := by
        intro p hp
        unfold adoptCreatorIfEmpty
        rw [if_neg (hne p hp)]
        cases hr : mgr.getRoom r with
        | none => rfl
        | some room => exact if_neg (h hkey room hr)
      have hkey' := hp'.isKeyText hkey
      have hsome : (p' != "") = (owner != "") := by
        rw [bne_iff_ne.mpr (hne p' hkey'), bne_iff_ne.mpr (hne owner hkey)]
      simp only [SfuCall.withPeer, call, hkept p' hkey', hkept owner hkey, hsome]
    · obtain rfl := hp'.eq hkey
      rfl

/-- What a mint asks of whoever has a room with an owner. -/
def MayMint (room : SFURoom) (requester : String) : Prop :=
  room.creatorId = requester ∨
    (room.invitePolicy = .members ∧ room.isInviteEligibleMember requester)

theorem mint_of_mayMint {r nonce : String} {room : SFURoom} (hr : mgr.getRoom r = some room)
    (howner : room.creatorId ≠ "") (h : MayMint room p) :
    mgr.generateInviteTokenChecked r p nonce =
      (mgr.setRoom r (room.generateInviteToken p 1 nonce).1, .ok nonce) := by
  unfold generateInviteTokenChecked
  simp only [hr, if_neg howner]
  exact if_pos h

theorem mint_of_not_mayMint {r nonce : String} {room : SFURoom} (hr : mgr.getRoom r = some room)
    (h : room.creatorId ≠ "" → ¬ MayMint room p) :
    mgr.generateInviteTokenChecked r p nonce = (mgr, .notAuthorized) := by
  unfold generateInviteTokenChecked
  simp only [hr]
  by_cases howner : room.creatorId = ""
  · exact if_pos howner
  · rw [if_neg howner]
    exact if_neg (h howner)

/-- A spelling that may mint is told from every other one: by the verdict, or by the
name on the token. -/
theorem mint_ne {r nonce : String} {room : SFURoom} (hr : mgr.getRoom r = some room)
    (howner : room.creatorId ≠ "") (hmay : MayMint room p) (hne : p' ≠ p) :
    mgr.generateInviteTokenChecked r p' nonce ≠ mgr.generateInviteTokenChecked r p nonce := by
  rw [mint_of_mayMint hr howner hmay]
  intro hsame
  by_cases hmay' : MayMint room p'
  · rw [mint_of_mayMint hr howner hmay'] at hsame
    have hrooms := setRoom_inj (congrArg Prod.fst hsame)
    have htokens := congrArg (fun room : SFURoom => room.inviteTokens[nonce]?) hrooms
    simp only [SFURoom.generateInviteToken, ExtTreeMap.getElem?_insert_self, Option.some.injEq,
      InviteToken.mk.injEq] at htokens
    exact hne htokens.1
  · rw [mint_of_not_mayMint hr fun _ => hmay'] at hsame
    exact absurd (congrArg Prod.snd hsame) (by simp)

theorem indifferent_generateInviteTokenChecked (r requester nonce : String) :
    Indifferent (call P) SfuCall.Respelled mgr
        (.generateInviteTokenChecked r requester nonce) ↔
      SpellingFree P mgr (.generateInviteTokenChecked r requester nonce) := by
  have hcall : ∀ p, mgr.call P (.generateInviteTokenChecked r p nonce) =
      ((mgr.generateInviteTokenChecked r p nonce).1,
        .mint (mgr.generateInviteTokenChecked r p nonce).2) := fun _ => rfl
  rw [indifferent_iff rfl]
  constructor
  · intro h hkey room hr howner
    -- every spelling is answered as the requester's own is
    have hsame : ∀ p', SamePeer requester p' → mgr.generateInviteTokenChecked r p' nonce =
        mgr.generateInviteTokenChecked r requester nonce := by
      intro p' hp'
      have hcalls := h p' hp'
      simp only [SfuCall.withPeer, hcall, Prod.mk.injEq, SfuAnswer.mint.injEq] at hcalls
      exact Prod.ext hcalls.1 hcalls.2
    have hnone : ∀ p, SamePeer requester p → ¬ MayMint room p := by
      intro p hp hmay
      obtain ⟨p', hp', hfresh⟩ := exists_spelling_notMem hkey {p}
      have hne : p' ≠ p := fun heq => hfresh (Finset.mem_singleton.mpr heq)
      exact mint_ne hr howner hmay hne ((hsame p' hp').trans (hsame p hp).symm)
    constructor
    · exact fun hcreator => hnone room.creatorId hcreator (.inl rfl)
    · exact fun hmember => hnone requester (.inl rfl) (.inr hmember)
  · intro h p' hp'
    by_cases hkey : IsKeyText requester
    · suffices hsame : ∀ p, SamePeer requester p → mgr.generateInviteTokenChecked r p nonce =
          (mgr.getRoom r).elim (mgr, .roomNotFound) fun _ => (mgr, .notAuthorized) by
        simp only [SfuCall.withPeer, hcall, hsame p' hp', hsame requester (.inl rfl)]
      intro p hp
      cases hr : mgr.getRoom r with
      | none =>
        unfold generateInviteTokenChecked
        rw [hr]
        rfl
      | some room =>
        refine mint_of_not_mayMint hr fun howner hmay => ?_
        obtain ⟨hcreator, hmember⟩ := h hkey room hr howner
        rcases hmay with rfl | ⟨hpolicy, heligible⟩
        · exact hcreator hp
        · rw [isInviteEligibleMember_respelled (samePeer_iff.mp hp)] at heligible
          exact hmember ⟨hpolicy, heligible⟩
    · obtain rfl := hp'.eq hkey
      rfl

/-! ## Runs -/

/-- At a table whose rooms are under their own ids, a call gives away no spelling exactly
when it has nothing to go by. -/
theorem indifferent_iff_spellingFree (h : AllRooms (fun key room => room.roomId = key) mgr)
    (c : SfuCall) : Indifferent (call P) SfuCall.Respelled mgr c ↔ SpellingFree P mgr c := by
  cases c with
  | createRoomWithPolicy => exact indifferent_createRoomWithPolicy h ..
  | audioForwardTargets roomId sender now =>
    exact indifferent_audioForwardTargets roomId sender now
  | adoptCreatorIfEmpty roomId ownerPub => exact indifferent_adoptCreatorIfEmpty roomId ownerPub
  | generateInviteTokenChecked roomId requester nonce =>
    exact indifferent_generateInviteTokenChecked roomId requester nonce
  | gcIdleRooms now idleSecs =>
    refine ⟨fun _ => trivial, ?_⟩
    rintro - c' (rfl | ⟨p, p', hp, -, -⟩)
    · rfl
    · cases hp
  | joinRoom peerId roomId =>
    refine ⟨fun _ => trivial, fun _ => (indifferent_iff rfl).mpr fun p' hp' => ?_⟩
    simp only [SfuCall.withPeer, call, joinRoom_respelled (samePeer_iff.mp hp')]
  | leaveRoom peerId roomId now =>
    refine ⟨fun _ => trivial, fun _ => (indifferent_iff rfl).mpr fun p' hp' => ?_⟩
    simp only [SfuCall.withPeer, call, leaveRoom_respelled (samePeer_iff.mp hp')]
  | removePeerFromAll peerId now =>
    refine ⟨fun _ => trivial, fun _ => (indifferent_iff rfl).mpr fun p' hp' => ?_⟩
    simp only [SfuCall.withPeer, call, removePeerFromAll_respelled (samePeer_iff.mp hp')]
  | isChatSender roomId peerId =>
    refine ⟨fun _ => trivial, fun _ => (indifferent_iff rfl).mpr fun p' hp' => ?_⟩
    simp only [SfuCall.withPeer, call, isChatSender_of_canonical (samePeer_iff.mp hp')]
  | isRoomAuthorizedPeer peerId =>
    refine ⟨fun _ => trivial, fun _ => (indifferent_iff rfl).mpr fun p' hp' => ?_⟩
    simp only [SfuCall.withPeer, call, isRoomAuthorizedPeer_respelled (samePeer_iff.mp hp')]
  | subscribe peerId roomId =>
    refine ⟨fun _ => trivial, fun _ => (indifferent_iff rfl).mpr fun p' hp' => ?_⟩
    simp only [SfuCall.withPeer, call, subscribe_respelled (samePeer_iff.mp hp')]
  | unsubscribe peerId roomId now =>
    refine ⟨fun _ => trivial, fun _ => (indifferent_iff rfl).mpr fun p' hp' => ?_⟩
    simp only [SfuCall.withPeer, call, unsubscribe_respelled (samePeer_iff.mp hp')]
  | validateRoomInvite roomId token peerId =>
    refine ⟨fun _ => trivial, fun _ => (indifferent_iff rfl).mpr fun p' hp' => ?_⟩
    simp only [SfuCall.withPeer, call, validateRoomInvite_respelled (samePeer_iff.mp hp')]
  | allowPeer roomId peerId =>
    refine ⟨fun _ => trivial, fun _ => (indifferent_iff rfl).mpr fun p' hp' => ?_⟩
    simp only [SfuCall.withPeer, call, allowPeer_respelled (samePeer_iff.mp hp')]

/-- From the start on, runs that differ in spellings only give the same answers and leave
the same rooms exactly when no step goes by a spelling. -/
theorem respelled_runs_alike_iff (P : Platform) (calls : List SfuCall) :
    (∀ calls', List.Forall₂ SfuCall.Respelled calls calls' →
      trace (call P) .new calls' = trace (call P) .new calls) ↔
      Along (step P) (SpellingFree P) .new calls := by
  rw [trace_eq_iff fun c => .inl rfl]
  exact along_congr_inv (AllRooms fun key room => room.roomId = key) filed_roomInvariant.new
    (fun _ c h => filed_roomInvariant.step h c) fun _ c h => indifferent_iff_spellingFree h c

/-! ## An owner without her padding -/

/-- Alice makes a room and mints a token for it, by one spelling and by another. -/
def ownRoom (creator requester : String) : List SfuCall :=
  [.createRoomWithPolicy (some "den") "Den" .privateRoom creator "owner" 0,
    .generateInviteTokenChecked "den" requester "nonce"]

/-- The owner of a room is refused a token when she comes without her padding. -/
theorem owner_without_padding_may_not_mint :
    ¬ ∀ calls', List.Forall₂ SfuCall.Respelled (ownRoom alice.text alice.text) calls' →
      trace (call .symbolic) .new calls' = trace (call .symbolic) .new
        (ownRoom alice.text alice.text) := by
  intro h
  have hrespelled : List.Forall₂ SfuCall.Respelled (ownRoom alice.text alice.text)
      (ownRoom alice.text (bare alice.text)) := by
    refine .cons (.inl rfl) (.cons (.inr ⟨alice.text, bare alice.text, rfl, ?_, rfl⟩) .nil)
    exact .inr ⟨by unfold IsKeyText; decide, bare_bare _⟩
  have hminted := congrArg (List.map fun e => match e.2 with
    | .mint (.ok _) => true
    | _ => false) (h _ hrespelled)
  revert hminted
  decide +kernel

end SFURoomManager

end ConquerD.Supernode
