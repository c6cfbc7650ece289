import ConquerD.Supernode.Sfu
import ConquerD.Wire.Platform

/-!
# Supernode: what the room table is asked

Handlers reach the room table through its public calls only. A call carries the
time it reads from the clock and the random text of a token it mints.
-/

namespace ConquerD.Supernode

open Wire

inductive SfuCall where
  | createRoomWithPolicy (roomId : Option String) (roomName : String) (roomType : RoomType)
      (creatorId invitePolicy : String) (now : Rat)
  | gcIdleRooms (now idleSecs : Rat)
  | joinRoom (peerId roomId : String)
  | leaveRoom (peerId roomId : String) (now : Rat)
  | removePeerFromAll (peerId : String) (now : Rat)
  | audioForwardTargets (roomId sender : String) (now : Rat)
  | isChatSender (roomId peerId : String)
  | isRoomAuthorizedPeer (peerId : String)
  | subscribe (peerId roomId : String)
  | unsubscribe (peerId roomId : String) (now : Rat)
  | validateRoomInvite (roomId token peerId : String)
  | allowPeer (roomId peerId : String)
  | adoptCreatorIfEmpty (roomId ownerPub : String)
  | generateInviteTokenChecked (roomId requester nonce : String)

inductive SfuAnswer where
  | nothing
  | verdict (ok : Bool)
  | room (room : SFURoom) (created : Bool)
  | joined (ok : Bool) (members : List String)
  | members (ids : List String)
  /-- The rooms that were left, with those who stay. -/
  | left (rooms : List (String × List String))
  | targets (ids : Option (List String))
  | mint (result : InviteMint)
  | removed (roomIds : List String)

namespace SFURoomManager

variable (P : Platform) (mgr : SFURoomManager)

def roomIdOr (roomId : Option String) (creatorId roomName : String) : String :=
  roomId.getD (P.deriveRoomId creatorId roomName)

/-- The ids that a collection removes. -/
def idleRoomIds (now idleSecs : Rat) : List String :=
  mgr.rooms.keys.filter fun roomId => ((mgr.gcIdleRooms now idleSecs).getRoom roomId).isNone

def call : SfuCall → SFURoomManager × SfuAnswer
  | .createRoomWithPolicy roomId roomName roomType creatorId invitePolicy now =>
    let (mgr, room, created) := mgr.createRoomWithPolicy
      (roomIdOr P roomId creatorId roomName) roomName roomType creatorId invitePolicy now
    (mgr, .room room created)
  | .gcIdleRooms now idleSecs =>
    (mgr.gcIdleRooms now idleSecs, .removed (mgr.idleRoomIds now idleSecs))
  | .joinRoom peerId roomId =>
    let (mgr, ok, members) := mgr.joinRoom peerId roomId
    (mgr, .joined ok members)
  | .leaveRoom peerId roomId now =>
    let (mgr, members) := mgr.leaveRoom peerId roomId now
    (mgr, .members members)
  | .removePeerFromAll peerId now =>
    let (mgr, rooms) := mgr.removePeerFromAll peerId now
    (mgr, .left rooms)
  | .audioForwardTargets roomId sender now =>
    let (mgr, targets) := mgr.audioForwardTargets P.decay roomId sender now
    (mgr, .targets targets)
  | .isChatSender roomId peerId => (mgr, .verdict (mgr.isChatSender roomId peerId))
  | .isRoomAuthorizedPeer peerId => (mgr, .verdict (mgr.isRoomAuthorizedPeer peerId))
  | .subscribe peerId roomId =>
    let (mgr, ok) := mgr.subscribe peerId roomId
    (mgr, .verdict ok)
  | .unsubscribe peerId roomId now => (mgr.unsubscribe peerId roomId now, .nothing)
  | .validateRoomInvite roomId token peerId =>
    let (mgr, ok) := mgr.validateRoomInvite roomId token peerId
    (mgr, .verdict ok)
  | .allowPeer roomId peerId =>
    (mgr.allowPeer roomId peerId, .verdict (mgr.getRoom roomId).isSome)
  | .adoptCreatorIfEmpty roomId ownerPub =>
    (mgr.adoptCreatorIfEmpty roomId ownerPub,
      .verdict (ownerPub != "" && (mgr.getRoom roomId).any (·.creatorId == "")))
  | .generateInviteTokenChecked roomId requester nonce =>
    let (mgr, result) := mgr.generateInviteTokenChecked roomId requester nonce
    (mgr, .mint result)

/-- The table after a call. -/
def step (c : SfuCall) : SFURoomManager :=
  (mgr.call P c).1

end SFURoomManager

end ConquerD.Supernode
