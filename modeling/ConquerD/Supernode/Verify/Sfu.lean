import ConquerD.Supernode.Sfu

/-!
# What the SFU operations do to the room table

One lemma per operation of the manager, in terms of `getRoom`. Later proofs
use these and do not unfold the operations.
-/

namespace ConquerD.Supernode

open Std (ExtTreeMap)

namespace SFURoomManager

variable {mgr : SFURoomManager} {r r' : String} {room : SFURoom}

@[simp] theorem getRoom_setRoom :
    (mgr.setRoom r room).getRoom r' = if r = r' then some room else mgr.getRoom r' := by
  simp [getRoom, setRoom, ExtTreeMap.getElem?_insert]

theorem createRoomWithPolicy_of_some {name : String} {ty : RoomType} {creator policy : String}
    {now : Rat} (h : mgr.getRoom r = some room) :
    mgr.createRoomWithPolicy r name ty creator policy now = (mgr, room, false) := by
  simp [createRoomWithPolicy, h]

/-- The room a create message makes. -/
def freshRoom (r name : String) (ty : RoomType) (creator policy : String) (now : Rat) : SFURoom :=
  { SFURoom.new r name ty creator with
    invitePolicy := normalizeInvitePolicy policy }.markUnusedIfEmpty now

theorem createRoomWithPolicy_of_none {name : String} {ty : RoomType} {creator policy : String}
    {now : Rat} (h : mgr.getRoom r = none) :
    mgr.createRoomWithPolicy r name ty creator policy now =
      (mgr.setRoom r (freshRoom r name ty creator policy now),
        freshRoom r name ty creator policy now, true) := by
  simp [createRoomWithPolicy, h, freshRoom]

theorem getRoom_createRoomWithPolicy {name : String} {ty : RoomType} {creator policy : String}
    {now : Rat} :
    (mgr.createRoomWithPolicy r name ty creator policy now).1.getRoom r =
      some (mgr.createRoomWithPolicy r name ty creator policy now).2.1 := by
  cases hr : mgr.getRoom r with
  | some room => rw [createRoomWithPolicy_of_some hr, hr]
  | none =>
    rw [createRoomWithPolicy_of_none hr]
    simp

end SFURoomManager

namespace SFURoom

variable {room : SFURoom} {now : Rat}

@[simp] theorem markUnusedIfEmpty_roomId : (room.markUnusedIfEmpty now).roomId = room.roomId := by
  unfold markUnusedIfEmpty
  split <;> rfl

@[simp] theorem markUnusedIfEmpty_creatorId :
    (room.markUnusedIfEmpty now).creatorId = room.creatorId := by
  unfold markUnusedIfEmpty
  split <;> rfl

@[simp] theorem markUnusedIfEmpty_roomType :
    (room.markUnusedIfEmpty now).roomType = room.roomType := by
  unfold markUnusedIfEmpty
  split <;> rfl

@[simp] theorem markUnusedIfEmpty_allowed :
    (room.markUnusedIfEmpty now).allowed = room.allowed := by
  unfold markUnusedIfEmpty
  split <;> rfl

@[simp] theorem markUnusedIfEmpty_inviteTokens :
    (room.markUnusedIfEmpty now).inviteTokens = room.inviteTokens := by
  unfold markUnusedIfEmpty
  split <;> rfl

@[simp] theorem markUnusedIfEmpty_participants :
    (room.markUnusedIfEmpty now).participants = room.participants := by
  unfold markUnusedIfEmpty
  split <;> rfl

@[simp] theorem markUnusedIfEmpty_subscribers :
    (room.markUnusedIfEmpty now).subscribers = room.subscribers := by
  unfold markUnusedIfEmpty
  split <;> rfl

/-! Audio and tokens touch their own fields of a room. -/

theorem noteAudio_fields (room : SFURoom) (decay : Rat → Rat) (sender : String) (now : Rat) :
    ∃ scores active, (room.noteAudioShouldForward decay sender now).1 =
      { room with speakerScores := scores, activeSpeakers := active } := by
  unfold SFURoom.noteAudioShouldForward
  simp only
  split
  · exact ⟨_, _, rfl⟩
  · split
    · exact ⟨_, _, rfl⟩
    · split
      · split
        · exact ⟨_, _, rfl⟩
        · exact ⟨_, _, rfl⟩
      · exact ⟨_, _, rfl⟩

theorem consume_fields (room : SFURoom) (token p : String) :
    ∃ tokens allowed, (room.validateAndConsumeToken token p).1 =
      { room with inviteTokens := tokens, allowed := allowed } := by
  unfold SFURoom.validateAndConsumeToken
  split
  · exact ⟨_, _, rfl⟩
  · next it _ =>
    split
    · exact ⟨_, _, rfl⟩
    · generalize (if it.maxUses > 0 then { it with uses := it.uses + 1 } else it) = it'
      simp only
      split
      · exact ⟨_, _, rfl⟩
      · exact ⟨_, _, rfl⟩

end SFURoom

@[simp] theorem freshRoom_roomId {r name : String} {ty : RoomType} {creator policy : String}
    {now : Rat} : (SFURoomManager.freshRoom r name ty creator policy now).roomId = r := by
  simp [SFURoomManager.freshRoom, SFURoom.new]

@[simp] theorem freshRoom_creatorId {r name : String} {ty : RoomType} {creator policy : String}
    {now : Rat} :
    (SFURoomManager.freshRoom r name ty creator policy now).creatorId =
      normalizePublicId creator := by
  simp [SFURoomManager.freshRoom, SFURoom.new]

/-! ## A property of every room -/

/-- Every room of the table has the property, under its key. -/
def AllRooms (R : String → SFURoom → Prop) (mgr : SFURoomManager) : Prop :=
  ∀ key room, mgr.getRoom key = some room → R key room

namespace AllRooms

variable {R : String → SFURoom → Prop} {mgr : SFURoomManager} {r : String} {room : SFURoom}
  {now : Rat}

theorem setRoom (h : AllRooms R mgr) (hr : R r room) : AllRooms R (mgr.setRoom r room) := by
  intro key room' hk
  rw [SFURoomManager.getRoom_setRoom] at hk
  split at hk
  · next heq =>
    cases hk
    exact heq ▸ hr
  · exact h key room' hk

theorem erase (h : AllRooms R mgr) (r : String) :
    AllRooms R { mgr with rooms := mgr.rooms.erase r } := by
  intro key room hk
  simp only [SFURoomManager.getRoom, ExtTreeMap.getElem?_erase] at hk
  split at hk
  · cases hk
  · exact h key room hk

theorem dropIfAnonymous (h : AllRooms R mgr) (hr : R r room) :
    AllRooms R (mgr.dropIfAnonymous r room) := by
  unfold SFURoomManager.dropIfAnonymous
  split
  · exact h.erase r
  · exact h.setRoom hr

theorem gcIdleRooms (h : AllRooms R mgr) (now idleSecs : Rat) :
    AllRooms R (mgr.gcIdleRooms now idleSecs) := by
  intro key room hk
  simp only [SFURoomManager.getRoom, SFURoomManager.gcIdleRooms] at hk
  rw [ExtTreeMap.getElem?_filter'] at hk
  obtain ⟨hroom, -⟩ := Option.filter_eq_some_iff.mp hk
  exact h key room hroom

theorem createRoomWithPolicy (h : AllRooms R mgr) {name : String} {ty : RoomType}
    {creator policy : String}
    (hfresh : R r (SFURoomManager.freshRoom r name ty creator policy now)) :
    AllRooms R (mgr.createRoomWithPolicy r name ty creator policy now).1 := by
  cases hr : mgr.getRoom r with
  | some room =>
    rw [SFURoomManager.createRoomWithPolicy_of_some hr]
    exact h
  | none =>
    rw [SFURoomManager.createRoomWithPolicy_of_none hr]
    exact h.setRoom hfresh

theorem joinRoom (h : AllRooms R mgr) {p : String}
    (hadd : ∀ key room, R key room → R key (room.addParticipant (normalizePublicId p)).1)
    (r : String) : AllRooms R (mgr.joinRoom p r).1 := by
  unfold SFURoomManager.joinRoom
  simp only
  split
  · exact h
  · next room hr =>
    split
    · exact h.setRoom (hadd r room (h r room hr))
    · exact h

theorem leaveRoom (h : AllRooms R mgr) {p : String}
    (hleave : ∀ key room, R key room →
      R key ((room.removeParticipant p now).markUnusedIfEmpty now)) (r : String) :
    AllRooms R (mgr.leaveRoom p r now).1 := by
  unfold SFURoomManager.leaveRoom
  split
  · exact h
  · next room hr => exact h.dropIfAnonymous (hleave r room (h r room hr))

theorem audioForwardTargets (h : AllRooms R mgr) {decay : Rat → Rat} {sender : String}
    (hnote : ∀ key room, R key room → R key (room.noteAudioShouldForward decay sender now).1)
    (r : String) : AllRooms R (mgr.audioForwardTargets decay r sender now).1 := by
  unfold SFURoomManager.audioForwardTargets
  split
  · exact h
  · next room hr => exact h.setRoom (hnote r room (h r room hr))

theorem subscribe (h : AllRooms R mgr) {p : String}
    (hsub : ∀ key room, R key room → R key (room.subscribe p)) (r : String) :
    AllRooms R (mgr.subscribe p r).1 := by
  unfold SFURoomManager.subscribe
  split
  · exact h
  · next room hr =>
    split
    · exact h.setRoom (hsub r room (h r room hr))
    · exact h

theorem unsubscribe (h : AllRooms R mgr) {p : String}
    (hunsub : ∀ key room, R key room → R key (room.unsubscribe p now)) (r : String) :
    AllRooms R (mgr.unsubscribe p r now) := by
  unfold SFURoomManager.unsubscribe
  split
  · exact h
  · next room hr => exact h.setRoom (hunsub r room (h r room hr))

theorem validateRoomInvite (h : AllRooms R mgr) {token p : String}
    (hconsume : ∀ key room, R key room → R key (room.validateAndConsumeToken token p).1)
    (r : String) : AllRooms R (mgr.validateRoomInvite r token p).1 := by
  unfold SFURoomManager.validateRoomInvite
  split
  · exact h
  · next room hr => exact h.setRoom (hconsume r room (h r room hr))

theorem allowPeer (h : AllRooms R mgr) {p : String}
    (hallow : ∀ key room, R key room → R key (room.allowPeer p)) (r : String) :
    AllRooms R (mgr.allowPeer r p) := by
  unfold SFURoomManager.allowPeer
  split
  · exact h
  · next room hr => exact h.setRoom (hallow r room (h r room hr))

theorem adoptCreatorIfEmpty (h : AllRooms R mgr) {owner : String}
    (hadopt : ∀ key room, R key room → R key { room with creatorId := owner }) (r : String) :
    AllRooms R (mgr.adoptCreatorIfEmpty r owner) := by
  unfold SFURoomManager.adoptCreatorIfEmpty
  split
  · exact h
  · split
    · next room hr =>
      split
      · exact h.setRoom (hadopt r room (h r room hr))
      · exact h
    · exact h

theorem generateInviteTokenChecked (h : AllRooms R mgr) {requester nonce : String}
    (hmint : ∀ key room, R key room → R key (room.generateInviteToken requester 1 nonce).1)
    (r : String) : AllRooms R (mgr.generateInviteTokenChecked r requester nonce).1 := by
  unfold SFURoomManager.generateInviteTokenChecked
  split
  · exact h
  · next room hr =>
    split
    · exact h
    · split
      · exact h.setRoom (hmint r room (h r room hr))
      · exact h

theorem removePeerFromAll (h : AllRooms R mgr) {p : String}
    (hremove : ∀ key room, R key room →
      R key (room.removePeerEntirely (normalizePublicId p) now).1) :
    AllRooms R (mgr.removePeerFromAll p now).1 := by
  unfold SFURoomManager.removePeerFromAll
  simp only
  -- the rooms to leave were collected before the loop; the loop keeps the property
  generalize List.map _ _ = ids
  suffices hloop : ∀ acc : SFURoomManager × List (String × List String), AllRooms R acc.1 →
      AllRooms R (ids.foldl _ acc).1 from hloop (mgr, []) h
  induction ids with
  | nil => exact fun acc hacc => hacc
  | cons r ids ih =>
    intro acc hacc
    rw [List.foldl_cons]
    refine ih _ ?_
    split
    · exact hacc
    · next room hr =>
      have hroom := hremove r room (hacc r room hr)
      split
      · exact hacc.dropIfAnonymous hroom
      · exact hacc.setRoom hroom

end AllRooms

end ConquerD.Supernode
