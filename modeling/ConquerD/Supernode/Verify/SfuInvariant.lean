import ConquerD.Supernode.Handlers
import ConquerD.Supernode.Verify.Sfu

/-!
# Well-formed room tables

A room is filed under its own id, its participants and subscribers are in
canonical spelling, participants are public ids, and nobody is both. Every
operation of the SFU and every message handler keeps this.
-/

namespace ConquerD.Supernode

open Std (ExtTreeMap ExtTreeSet)
open Wire

structure RoomWf (key : String) (room : SFURoom) : Prop where
  roomId : room.roomId = key
  participantCanon : ∀ p, p ∈ room.participants → normalizePublicId p = p
  participantValid : ∀ p, p ∈ room.participants → IsPublicId p
  subscriberCanon : ∀ p, p ∈ room.subscribers → normalizePublicId p = p
  disjoint : ∀ p, p ∈ room.participants → p ∉ room.subscribers

/-- Every room of the table is well formed under its key. -/
def SfuWf (mgr : SFURoomManager) : Prop :=
  ∀ key room, mgr.getRoom key = some room → RoomWf key room

/-! ## Rooms -/

namespace RoomWf

variable {key : String} {room room' : SFURoom} {now : Rat}

theorem of_eq (h : RoomWf key room) (hid : room'.roomId = room.roomId)
    (hp : room'.participants = room.participants) (hs : room'.subscribers = room.subscribers) :
    RoomWf key room' where
  roomId := hid.trans h.roomId
  participantCanon p hm := h.participantCanon p (hp ▸ hm)
  participantValid p hm := h.participantValid p (hp ▸ hm)
  subscriberCanon p hm := h.subscriberCanon p (hs ▸ hm)
  disjoint p hm hm' := h.disjoint p (hp ▸ hm) (hs ▸ hm')

theorem markUnusedIfEmpty (h : RoomWf key room) : RoomWf key (room.markUnusedIfEmpty now) :=
  h.of_eq (by simp) (by simp) (by simp)

theorem forgetSpeaker (h : RoomWf key room) (p : String) : RoomWf key (room.forgetSpeaker p) :=
  h.of_eq rfl rfl rfl

theorem addParticipant (h : RoomWf key room) {p : String} (hp : IsPublicId p) :
    RoomWf key (room.addParticipant p).1 := by
  unfold SFURoom.addParticipant
  simp only
  by_cases hin : room.participants.contains (normalizePublicId p)
  · rw [if_pos hin]
    exact h
  · rw [if_neg hin]
    by_cases hfull : room.isFull
    · rw [if_pos hfull]
      exact h
    · rw [if_neg hfull]
      refine ⟨h.roomId, ?_, ?_, ?_, ?_⟩
      · intro q hq
        simp only [SFURoom.markInUse, ExtTreeMap.mem_insert, Std.compare_eq_iff_eq] at hq
        rcases hq with rfl | hq
        · exact normalizePublicId_idem p
        · exact h.participantCanon q hq
      · intro q hq
        simp only [SFURoom.markInUse, ExtTreeMap.mem_insert, Std.compare_eq_iff_eq] at hq
        rcases hq with rfl | hq
        · exact isPublicId_normalizePublicId hp
        · exact h.participantValid q hq
      · intro q hq
        simp only [SFURoom.markInUse, ExtTreeSet.mem_erase] at hq
        exact h.subscriberCanon q hq.2
      · intro q hq hs
        simp only [SFURoom.markInUse, ExtTreeMap.mem_insert, ExtTreeSet.mem_erase, ne_eq,
          Std.compare_eq_iff_eq] at hq hs
        rcases hq with hq | hq
        · exact hs.1 hq
        · exact h.disjoint q hq hs.2

theorem removeParticipant (h : RoomWf key room) (p : String) :
    RoomWf key (room.removeParticipant p now) := by
  unfold SFURoom.removeParticipant
  simp only
  split
  · have hers : RoomWf key { room with
        participants := room.participants.erase (normalizePublicId p) } := by
      refine ⟨h.roomId, ?_, ?_, h.subscriberCanon, ?_⟩
      · intro q hq
        exact h.participantCanon q (ExtTreeMap.mem_erase.mp hq).2
      · intro q hq
        exact h.participantValid q (ExtTreeMap.mem_erase.mp hq).2
      · intro q hq
        exact h.disjoint q (ExtTreeMap.mem_erase.mp hq).2
    exact hers.markUnusedIfEmpty.forgetSpeaker _
  · exact h

theorem subscribe (h : RoomWf key room) (p : String) : RoomWf key (room.subscribe p) := by
  unfold SFURoom.subscribe
  simp only
  split
  · exact h
  · rename_i hno
    refine ⟨h.roomId, h.participantCanon, h.participantValid, ?_, ?_⟩
    · intro q hq
      simp only [SFURoom.markInUse, ExtTreeSet.mem_insert, Std.compare_eq_iff_eq] at hq
      rcases hq with rfl | hq
      · exact normalizePublicId_idem p
      · exact h.subscriberCanon q hq
    · intro q hq hs
      simp only [SFURoom.markInUse, ExtTreeSet.mem_insert, Std.compare_eq_iff_eq] at hq hs
      rcases hs with rfl | hs
      · exact hno (ExtTreeMap.mem_iff_contains.mp hq)
      · exact h.disjoint q hq hs

theorem unsubscribe (h : RoomWf key room) (p : String) :
    RoomWf key (room.unsubscribe p now) := by
  unfold SFURoom.unsubscribe
  simp only
  split
  · have hers : RoomWf key { room with
        subscribers := room.subscribers.erase (normalizePublicId p) } := by
      refine ⟨h.roomId, h.participantCanon, h.participantValid, ?_, ?_⟩
      · intro q hq
        exact h.subscriberCanon q (ExtTreeSet.mem_erase.mp hq).2
      · intro q hq hs
        exact h.disjoint q hq (ExtTreeSet.mem_erase.mp hs).2
    exact hers.markUnusedIfEmpty
  · exact h

theorem removePeerEntirely (h : RoomWf key room) (p : String) :
    RoomWf key (room.removePeerEntirely p now).1 := by
  have hers : RoomWf key { room with
      participants := room.participants.erase (normalizePublicId p)
      subscribers := room.subscribers.erase (normalizePublicId p) } := by
    refine ⟨h.roomId, ?_, ?_, ?_, ?_⟩
    · intro q hq
      exact h.participantCanon q (ExtTreeMap.mem_erase.mp hq).2
    · intro q hq
      exact h.participantValid q (ExtTreeMap.mem_erase.mp hq).2
    · intro q hq
      exact h.subscriberCanon q (ExtTreeSet.mem_erase.mp hq).2
    · intro q hq hs
      exact h.disjoint q (ExtTreeMap.mem_erase.mp hq).2 (ExtTreeSet.mem_erase.mp hs).2
  unfold SFURoom.removePeerEntirely
  simp only
  cases room.participants.contains (normalizePublicId p) with
  | true => exact (hers.forgetSpeaker _).markUnusedIfEmpty
  | false =>
    cases room.subscribers.contains (normalizePublicId p) with
    | true => exact hers.markUnusedIfEmpty
    | false => exact hers

theorem noteAudioShouldForward {decay : Rat → Rat} (h : RoomWf key room) (sender : String) :
    RoomWf key (room.noteAudioShouldForward decay sender now).1 := by
  obtain ⟨_, _, heq⟩ := room.noteAudio_fields decay sender now
  rw [heq]
  exact h.of_eq rfl rfl rfl

theorem validateAndConsumeToken (h : RoomWf key room) (token p : String) :
    RoomWf key (room.validateAndConsumeToken token p).1 := by
  obtain ⟨_, _, heq⟩ := room.consume_fields token p
  rw [heq]
  exact h.of_eq rfl rfl rfl

theorem reregisterInviteToken (h : RoomWf key room) (token by_ : String) :
    RoomWf key (room.reregisterInviteToken token by_).1 := by
  unfold SFURoom.reregisterInviteToken
  split
  · exact h
  · exact h.of_eq rfl rfl rfl

end RoomWf

theorem freshRoom_wf (r name : String) (ty : RoomType) (creator policy : String) (now : Rat) :
    RoomWf r (SFURoomManager.freshRoom r name ty creator policy now) := by
  have h : RoomWf r { SFURoom.new r name ty creator with
      invitePolicy := normalizeInvitePolicy policy } := by
    refine ⟨rfl, ?_, ?_, ?_, ?_⟩ <;> simp [SFURoom.new]
  exact h.markUnusedIfEmpty

/-! ## The table -/

namespace SfuWf

variable {mgr : SFURoomManager} {now : Rat}

theorem setRoom (h : SfuWf mgr) {r : String} {room : SFURoom} (hr : RoomWf r room) :
    SfuWf (mgr.setRoom r room) :=
  AllRooms.setRoom h hr

theorem new : SfuWf .new := by
  intro key room hk
  have : defaultRoomId = key ∧ SFURoom.new defaultRoomId defaultRoomName .publicRoom "" = room := by
    simpa [SFURoomManager.getRoom, SFURoomManager.new, ExtTreeMap.getElem?_insert] using hk
  obtain ⟨rfl, rfl⟩ := this
  refine ⟨rfl, ?_, ?_, ?_, ?_⟩ <;> simp [SFURoom.new]

theorem createRoomWithPolicy (h : SfuWf mgr) (r name : String) (ty : RoomType)
    (creator policy : String) :
    SfuWf (mgr.createRoomWithPolicy r name ty creator policy now).1 :=
  AllRooms.createRoomWithPolicy h (freshRoom_wf ..)

theorem gcIdleRooms (h : SfuWf mgr) (now idleSecs : Rat) :
    SfuWf (mgr.gcIdleRooms now idleSecs) :=
  AllRooms.gcIdleRooms h now idleSecs

theorem joinRoom (h : SfuWf mgr) {p : String} (hp : IsPublicId p) (r : String) :
    SfuWf (mgr.joinRoom p r).1 :=
  AllRooms.joinRoom h (fun _ _ hroom => hroom.addParticipant (isPublicId_normalizePublicId hp)) r

theorem leaveRoom (h : SfuWf mgr) (p r : String) : SfuWf (mgr.leaveRoom p r now).1 :=
  AllRooms.leaveRoom h (fun _ _ hroom => (hroom.removeParticipant p).markUnusedIfEmpty) r

theorem removePeerFromAll (h : SfuWf mgr) (p : String) :
    SfuWf (mgr.removePeerFromAll p now).1 :=
  AllRooms.removePeerFromAll h fun _ _ hroom => hroom.removePeerEntirely (normalizePublicId p)

theorem audioForwardTargets {decay : Rat → Rat} (h : SfuWf mgr) (r sender : String) :
    SfuWf (mgr.audioForwardTargets decay r sender now).1 :=
  AllRooms.audioForwardTargets h (fun _ _ hroom => hroom.noteAudioShouldForward sender) r

theorem subscribe (h : SfuWf mgr) (p r : String) : SfuWf (mgr.subscribe p r).1 :=
  AllRooms.subscribe h (fun _ _ hroom => hroom.subscribe p) r

theorem unsubscribe (h : SfuWf mgr) (p r : String) : SfuWf (mgr.unsubscribe p r now) :=
  AllRooms.unsubscribe h (fun _ _ hroom => hroom.unsubscribe p) r

theorem validateRoomInvite (h : SfuWf mgr) (r token p : String) :
    SfuWf (mgr.validateRoomInvite r token p).1 :=
  AllRooms.validateRoomInvite h (fun _ _ hroom => hroom.validateAndConsumeToken token p) r

theorem allowPeer (h : SfuWf mgr) (r p : String) : SfuWf (mgr.allowPeer r p) :=
  AllRooms.allowPeer h (fun _ _ hroom => hroom.of_eq rfl rfl rfl) r

theorem adoptCreatorIfEmpty (h : SfuWf mgr) (r owner : String) :
    SfuWf (mgr.adoptCreatorIfEmpty r owner) :=
  AllRooms.adoptCreatorIfEmpty h (fun _ _ hroom => hroom.of_eq rfl rfl rfl) r

theorem generateInviteToken (h : SfuWf mgr) (r by_ nonce : String) :
    SfuWf (mgr.generateInviteToken r by_ nonce).1 := by
  unfold SFURoomManager.generateInviteToken
  split
  · exact h
  · rename_i room hr
    exact h.setRoom ((h r room hr).of_eq rfl rfl rfl)

theorem reregisterInviteToken (h : SfuWf mgr) (r token by_ : String) :
    SfuWf (mgr.reregisterInviteToken r token by_).1 := by
  unfold SFURoomManager.reregisterInviteToken
  split
  · exact h
  · rename_i room hr
    exact h.setRoom ((h r room hr).reregisterInviteToken token by_)

theorem generateInviteTokenChecked (h : SfuWf mgr) (r requester nonce : String) :
    SfuWf (mgr.generateInviteTokenChecked r requester nonce).1 :=
  AllRooms.generateInviteTokenChecked h (fun _ _ hroom => hroom.of_eq rfl rfl rfl) r

end SfuWf

end ConquerD.Supernode
