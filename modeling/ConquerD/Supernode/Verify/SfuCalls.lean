import ConquerD.Lib.Run
import ConquerD.Supernode.SfuCalls
import ConquerD.Supernode.Verify.Sfu

/-!
# Supernode: what calls keep of every room

A property of rooms that a fresh room has and every room operation keeps holds of
every room after any calls.
-/

namespace ConquerD.Supernode

open Lib.Run Wire
open Std (ExtTreeMap)

/-- What a room operation may do to a room. -/
structure RoomInvariant (R : String → SFURoom → Prop) : Prop where
  lobby : R defaultRoomId (SFURoom.new defaultRoomId defaultRoomName .publicRoom "")
  freshRoom : ∀ r name ty creator policy now,
    R r (SFURoomManager.freshRoom r name ty creator policy now)
  addParticipant : ∀ p key room, R key room → R key (room.addParticipant p).1
  leave : ∀ p now key room, R key room →
    R key ((room.removeParticipant p now).markUnusedIfEmpty now)
  removePeerEntirely : ∀ p now key room, R key room → R key (room.removePeerEntirely p now).1
  noteAudio : ∀ decay sender now key room, R key room →
    R key (room.noteAudioShouldForward decay sender now).1
  subscribe : ∀ p key room, R key room → R key (room.subscribe p)
  unsubscribe : ∀ p now key room, R key room → R key (room.unsubscribe p now)
  consume : ∀ token p key room, R key room → R key (room.validateAndConsumeToken token p).1
  allowPeer : ∀ p key room, R key room → R key (room.allowPeer p)
  adopt : ∀ owner key room, R key room → R key { room with creatorId := owner }
  mint : ∀ requester nonce key room, R key room →
    R key (room.generateInviteToken requester 1 nonce).1

namespace RoomInvariant

variable {R : String → SFURoom → Prop} {P : Platform} {mgr : SFURoomManager}

theorem new (hR : RoomInvariant R) : AllRooms R .new := by
  intro key room hk
  have hlobby : defaultRoomId = key ∧
      SFURoom.new defaultRoomId defaultRoomName .publicRoom "" = room := by
    simpa [SFURoomManager.getRoom, SFURoomManager.new, ExtTreeMap.getElem?_insert] using hk
  obtain ⟨rfl, rfl⟩ := hlobby
  exact hR.lobby

theorem step (hR : RoomInvariant R) (h : AllRooms R mgr) (c : SfuCall) :
    AllRooms R (mgr.step P c) := by
  cases c with
  | createRoomWithPolicy => exact h.createRoomWithPolicy (hR.freshRoom ..)
  | gcIdleRooms now idleSecs => exact h.gcIdleRooms now idleSecs
  | joinRoom peerId roomId => exact h.joinRoom (hR.addParticipant _) roomId
  | leaveRoom peerId roomId now => exact h.leaveRoom (hR.leave peerId now) roomId
  | removePeerFromAll peerId now => exact h.removePeerFromAll (hR.removePeerEntirely _ now)
  | audioForwardTargets roomId sender now =>
    exact h.audioForwardTargets (hR.noteAudio P.decay sender now) roomId
  | isChatSender => exact h
  | isRoomAuthorizedPeer => exact h
  | subscribe peerId roomId => exact h.subscribe (hR.subscribe peerId) roomId
  | unsubscribe peerId roomId now => exact h.unsubscribe (hR.unsubscribe peerId now) roomId
  | validateRoomInvite roomId token peerId =>
    exact h.validateRoomInvite (hR.consume token peerId) roomId
  | allowPeer roomId peerId => exact h.allowPeer (hR.allowPeer peerId) roomId
  | adoptCreatorIfEmpty roomId ownerPub => exact h.adoptCreatorIfEmpty (hR.adopt ownerPub) roomId
  | generateInviteTokenChecked roomId requester nonce =>
    exact h.generateInviteTokenChecked (hR.mint requester nonce) roomId

theorem run (hR : RoomInvariant R) (P : Platform) (calls : List SfuCall) :
    AllRooms R (run (SFURoomManager.step P) .new calls) :=
  run_inv (AllRooms R) hR.new fun _ c h => hR.step h c

end RoomInvariant

theorem filed_roomInvariant : RoomInvariant fun key room => room.roomId = key where
  lobby := rfl
  freshRoom _ _ _ _ _ _ := freshRoom_roomId
  addParticipant p key room h := by
    unfold SFURoom.addParticipant
    simp only
    split
    · exact h
    · split
      · exact h
      · exact h
  leave p now key room h := by
    rw [SFURoom.markUnusedIfEmpty_roomId]
    unfold SFURoom.removeParticipant
    simp only
    split
    · simp [SFURoom.forgetSpeaker, h]
    · exact h
  removePeerEntirely p now key room h := by
    unfold SFURoom.removePeerEntirely
    simp only
    cases room.participants.contains (normalizePublicId p) with
    | true => simp [SFURoom.forgetSpeaker, h]
    | false =>
      cases room.subscribers.contains (normalizePublicId p) with
      | true => simp [h]
      | false => exact h
  noteAudio decay sender now key room h := by
    obtain ⟨_, _, heq⟩ := room.noteAudio_fields decay sender now
    rw [heq]
    exact h
  subscribe p key room h := by
    unfold SFURoom.subscribe
    simp only
    split
    · exact h
    · exact h
  unsubscribe p now key room h := by
    unfold SFURoom.unsubscribe
    simp only
    split
    · simp [h]
    · exact h
  consume token p key room h := by
    obtain ⟨_, _, heq⟩ := room.consume_fields token p
    rw [heq]
    exact h
  allowPeer p key room h := h
  adopt owner key room h := h
  mint requester nonce key room h := h

end ConquerD.Supernode
