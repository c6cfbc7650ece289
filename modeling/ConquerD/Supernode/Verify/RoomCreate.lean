import ConquerD.Supernode.Verify.Frame

/-!
# Create messages for existing and new rooms

A create message without a token, from a peer that is neither the creator of
the room nor on its allow list, leaves the creator, the policy and the tokens of
an existing private room as they are. It leaves the allow list, too, unless it
presents its own sender as the creator of a private room. A room it makes
belongs to the creator it names, and to its sender when it names none.
-/

namespace ConquerD.Supernode

open Std (ExtTreeSet)
open Wire

namespace SupernodeState

variable {P : Platform} {env : Env} {st : SupernodeState} {msg : SignalingMessage}

/-- Admission leaves the rooms alone when the sender is nobody to the room and
presents no token. -/
theorem admitOnCreate_of_stranger {roomId roomCreator sender creatorId : String}
    (hc : sender ≠ roomCreator) (hn : sender ≠ creatorId) :
    st.admitOnCreate env roomId roomCreator sender creatorId false none = (st, none) := by
  simp [admitOnCreate, reseedOnCreate, hc, hn]

theorem creatorId_setRoom {mgr : SFURoomManager} {r id : String} {old new room : SFURoom}
    (hold : mgr.getRoom r = some old) (h : (mgr.setRoom r new).getRoom id = some room)
    (hcreator : new.creatorId = old.creatorId) :
    ∃ old, mgr.getRoom id = some old ∧ room.creatorId = old.creatorId := by
  rw [SFURoomManager.getRoom_setRoom] at h
  split at h
  · rename_i heq
    subst heq
    cases h
    exact ⟨old, hold, hcreator⟩
  · exact ⟨room, h, rfl⟩

theorem creatorId_allowPeer {mgr : SFURoomManager} {r p id : String} {room : SFURoom}
    (h : (mgr.allowPeer r p).getRoom id = some room) :
    ∃ old, mgr.getRoom id = some old ∧ room.creatorId = old.creatorId := by
  unfold SFURoomManager.allowPeer at h
  cases hr : mgr.getRoom r with
  | none =>
    simp only [hr] at h
    exact ⟨room, h, rfl⟩
  | some old =>
    simp only [hr] at h
    exact creatorId_setRoom hr h rfl

theorem creatorId_generateInviteToken {mgr : SFURoomManager} {r by_ nonce id : String}
    {room : SFURoom} (h : (mgr.generateInviteToken r by_ nonce).1.getRoom id = some room) :
    ∃ old, mgr.getRoom id = some old ∧ room.creatorId = old.creatorId := by
  unfold SFURoomManager.generateInviteToken at h
  cases hr : mgr.getRoom r with
  | none =>
    simp only [hr] at h
    exact ⟨room, h, rfl⟩
  | some old =>
    simp only [hr] at h
    exact creatorId_setRoom hr h rfl

theorem creatorId_admitOnCreate {roomId roomCreator sender creatorId id : String}
    {createdNew : Bool} {room : SFURoom}
    (h : (st.admitOnCreate env roomId roomCreator sender creatorId createdNew none).1.sfu.getRoom
      id = some room) :
    ∃ old, st.sfu.getRoom id = some old ∧ room.creatorId = old.creatorId := by
  unfold admitOnCreate reseedOnCreate at h
  simp only [Option.isNone_none, true_and] at h
  split at h
  · split at h
    · obtain ⟨mid, hmid, hmc⟩ := creatorId_generateInviteToken h
      obtain ⟨old, hold, hoc⟩ := creatorId_allowPeer hmid
      exact ⟨old, hold, hmc.trans hoc⟩
    · exact creatorId_allowPeer h
  · exact ⟨room, h, rfl⟩

/-- The message asks for a private room and presents its own sender as the creator. -/
def PresentsSelf (P : Platform) (msg : SignalingMessage) : Prop :=
  (roomCreateFields P msg).roomType = .privateRoom ∧
    (roomCreateFields P msg).creatorId = msg.sender.text

instance : Decidable (PresentsSelf P msg) :=
  inferInstanceAs (Decidable (_ ∧ _))

theorem getRoom_handleSfuRoomCreate {room : SFURoom}
    (hroom : st.sfu.getRoom (roomCreateFields P msg).roomId = some room)
    (hnotCreator : bare msg.sender.text ≠ bare room.creatorId)
    (htoken : msg.payload.nonemptyStr? "invite_token" = none)
    (hid : room.roomId = (roomCreateFields P msg).roomId) :
    (st.handleSfuRoomCreate P env msg).1.sfu.getRoom (roomCreateFields P msg).roomId =
      some (if PresentsSelf P msg then room.allowPeer msg.sender.text else room) := by
  have hdenied : st.createDenied (roomCreateFields P msg) = none := by
    simp [createDenied, hroom]
  have htok : (roomCreateFields P msg).inviteToken = none := htoken
  have hcreate := @SFURoomManager.createRoomWithPolicy_of_some _ _ _
    (roomCreateFields P msg).roomName (roomCreateFields P msg).roomType
    (roomCreateFields P msg).creatorId (roomCreateFields P msg).invitePolicy env.now hroom
  have hc : msg.sender.text ≠ room.creatorId := fun heq => hnotCreator (congrArg bare heq)
  unfold handleSfuRoomCreate
  simp only [hdenied, hcreate]
  by_cases hty : (roomCreateFields P msg).roomType = .privateRoom
  · rw [if_pos hty, htok]
    by_cases hself : (roomCreateFields P msg).creatorId = msg.sender.text
    · have hadmitted : st.admitOnCreate env room.roomId room.creatorId msg.sender.text
          (roomCreateFields P msg).creatorId false none =
            ({ st with sfu := st.sfu.allowPeer room.roomId msg.sender.text }, none) := by
        simp [admitOnCreate, reseedOnCreate, hself]
      rw [hadmitted, if_pos ⟨hty, hself⟩, hid, SFURoomManager.allowPeer, hroom]
      exact SFURoomManager.getRoom_setRoom.trans (if_pos rfl)
    · rw [admitOnCreate_of_stranger hc (Ne.symm hself), if_neg fun h => hself h.2]
      exact hroom
  · rw [if_neg hty, if_neg fun h => hty h.1]
    exact hroom

/-- A room that a create message without a token has just made is the one it names. Its
creator is the one the message names, or else its sender, in canonical spelling. -/
theorem of_created {id : String} {room : SFURoom}
    (htoken : msg.payload.nonemptyStr? "invite_token" = none)
    (hbefore : st.sfu.getRoom id = none)
    (hafter : (st.handleSfuRoomCreate P env msg).1.sfu.getRoom id = some room) :
    (roomCreateFields P msg).roomId = id ∧ st.createDenied (roomCreateFields P msg) = none ∧
      room.creatorId = normalizePublicId (roomCreateFields P msg).creatorId := by
  have htok : (roomCreateFields P msg).inviteToken = none := htoken
  unfold handleSfuRoomCreate at hafter
  cases hdenied : st.createDenied (roomCreateFields P msg) with
  | some reason => simp [hdenied, hbefore] at hafter
  | none =>
    simp only [hdenied] at hafter
    cases hr : st.sfu.getRoom (roomCreateFields P msg).roomId with
    | some existing =>
      rw [SFURoomManager.createRoomWithPolicy_of_some hr] at hafter
      have hno : ∀ room, ({ st with sfu := st.sfu } : SupernodeState).sfu.getRoom id ≠ some room := by
        simp [hbefore]
      simp only [htok] at hafter
      split at hafter
      · obtain ⟨old, hold, -⟩ := creatorId_admitOnCreate hafter
        exact absurd hold (hno old)
      · exact absurd hafter (hno room)
    | none =>
      rw [SFURoomManager.createRoomWithPolicy_of_none hr] at hafter
      simp only [htok] at hafter
      have hmade : ∃ old, (st.sfu.setRoom (roomCreateFields P msg).roomId
          (SFURoomManager.freshRoom (roomCreateFields P msg).roomId
            (roomCreateFields P msg).roomName (roomCreateFields P msg).roomType
            (roomCreateFields P msg).creatorId (roomCreateFields P msg).invitePolicy
            env.now)).getRoom id = some old ∧ room.creatorId = old.creatorId := by
        split at hafter
        · exact creatorId_admitOnCreate hafter
        · exact ⟨room, hafter, rfl⟩
      obtain ⟨old, hold, hcreator⟩ := hmade
      rw [SFURoomManager.getRoom_setRoom, hbefore] at hold
      split at hold
      · next hid =>
        cases hold
        exact ⟨hid, rfl, hcreator.trans freshRoom_creatorId⟩
      · cases hold

theorem exists_created (htoken : msg.payload.nonemptyStr? "invite_token" = none)
    (hnone : st.sfu.getRoom (roomCreateFields P msg).roomId = none)
    (hallowed : st.createDenied (roomCreateFields P msg) = none) :
    ∃ room, (st.handleSfuRoomCreate P env msg).1.sfu.getRoom (roomCreateFields P msg).roomId =
      some room := by
  have htok : (roomCreateFields P msg).inviteToken = none := htoken
  unfold handleSfuRoomCreate
  simp only [hallowed, SFURoomManager.createRoomWithPolicy_of_none hnone, htok]
  split
  · simp [admitOnCreate, reseedOnCreate, SFURoomManager.allowPeer,
      SFURoomManager.generateInviteToken]
  · exact ⟨_, SFURoomManager.getRoom_setRoom.trans (if_pos rfl)⟩

/-- The sender is nobody to an existing private room that the message names. -/
structure StrangerTo (P : Platform) (st : SupernodeState) (msg : SignalingMessage)
    (room : SFURoom) : Prop where
  named : st.sfu.getRoom (roomCreateFields P msg).roomId = some room
  privateRoom : room.roomType = .privateRoom
  notCreator : bare msg.sender.text ≠ bare room.creatorId
  notAllowed : room.isPeerAllowed msg.sender.text = false

/-- A room id alone admits nobody, and whoever makes a room is its creator. -/
structure IdNeverAdmits (P : Platform) (env : Env) (st : SupernodeState)
    (msg : SignalingMessage) : Prop where
  existing : ∀ room, StrangerTo P st msg room → ∃ room',
    (st.handleSfuRoomCreate P env msg).1.sfu.getRoom (roomCreateFields P msg).roomId =
      some room' ∧ room'.creatorId = room.creatorId ∧ room'.invitePolicy = room.invitePolicy ∧
    room'.allowed = room.allowed ∧ room'.inviteTokens = room.inviteTokens
  created : ∀ id room, st.sfu.getRoom id = none →
    (st.handleSfuRoomCreate P env msg).1.sfu.getRoom id = some room →
    room.creatorId = normalizePublicId msg.sender.text

theorem allowed_allowPeer_ne {room : SFURoom} {p : String} (h : room.isPeerAllowed p = false) :
    (room.allowPeer p).allowed ≠ room.allowed := by
  intro heq
  have hmem : room.allowed.contains (normalizePublicId p) = true := by
    rw [← heq]
    exact ExtTreeSet.contains_insert_self
  simp [SFURoom.isPeerAllowed, hmem] at h

theorem idNeverAdmits_iff (hwf : SfuWf st.sfu)
    (htoken : msg.payload.nonemptyStr? "invite_token" = none) :
    IdNeverAdmits P env st msg ↔
      (∀ room, StrangerTo P st msg room → ¬ PresentsSelf P msg) ∧
      (st.sfu.getRoom (roomCreateFields P msg).roomId = none →
        st.createDenied (roomCreateFields P msg) = none →
        normalizePublicId (roomCreateFields P msg).creatorId =
          normalizePublicId msg.sender.text) := by
  have hafter : ∀ room, StrangerTo P st msg room →
      (st.handleSfuRoomCreate P env msg).1.sfu.getRoom (roomCreateFields P msg).roomId =
        some (if PresentsSelf P msg then room.allowPeer msg.sender.text else room) :=
    fun room h => getRoom_handleSfuRoomCreate h.named h.notCreator htoken (hwf _ _ h.named).roomId
  constructor
  · intro h
    refine ⟨fun room hroom hself => ?_, fun hnone hallowed => ?_⟩
    · obtain ⟨room', hroom', -, -, hsame, -⟩ := h.existing room hroom
      rw [hafter room hroom, if_pos hself, Option.some.injEq] at hroom'
      subst hroom'
      exact allowed_allowPeer_ne hroom.notAllowed hsame
    · obtain ⟨room, hroom⟩ := exists_created htoken hnone hallowed
      obtain ⟨-, -, hcreator⟩ := of_created htoken hnone hroom
      exact hcreator.symm.trans (h.created _ room hnone hroom)
  · rintro ⟨hexisting, hcreated⟩
    refine ⟨fun room hroom => ?_, fun id room hnone hroom => ?_⟩
    · rw [hafter room hroom, if_neg (hexisting room hroom)]
      exact ⟨room, rfl, rfl, rfl, rfl, rfl⟩
    · obtain ⟨rfl, hallowed, hcreator⟩ := of_created htoken hnone hroom
      exact hcreator.trans (hcreated hnone hallowed)

/-- In every state that a node reaches, a create message without a token admits nobody
to a private room of another and makes rooms for its sender alone, exactly when it does
not present its own sender as the creator of such a room, and names nobody else as the
creator of a room that it makes. It never changes the creator, the policy or the tokens
of such a room. -/
theorem sfuRoomCreate_without_token_iff (config : Config) (peers : PeerStore)
    (handshake : HandshakeManager) (es : List Event)
    (htoken : msg.payload.nonemptyStr? "invite_token" = none) :
    let st := Lib.Run.run (step P) (.start config peers handshake) es
    (IdNeverAdmits P env st msg ↔
      (∀ room, StrangerTo P st msg room → ¬ PresentsSelf P msg) ∧
      (st.sfu.getRoom (roomCreateFields P msg).roomId = none →
        st.createDenied (roomCreateFields P msg) = none →
        normalizePublicId (roomCreateFields P msg).creatorId =
          normalizePublicId msg.sender.text)) ∧
    ∀ room, StrangerTo P st msg room → ∃ room',
      (st.handleSfuRoomCreate P env msg).1.sfu.getRoom (roomCreateFields P msg).roomId =
        some room' ∧ room'.creatorId = room.creatorId ∧ room'.invitePolicy = room.invitePolicy ∧
      room'.inviteTokens = room.inviteTokens := by
  intro st
  have hwf : SfuWf st.sfu :=
    Lib.Run.run_inv (fun s : SupernodeState => SfuWf s.sfu) SfuWf.new fun _ e hs => step_wf hs e
  refine ⟨idNeverAdmits_iff hwf htoken, fun room h => ?_⟩
  rw [getRoom_handleSfuRoomCreate h.named h.notCreator htoken (hwf _ _ h.named).roomId]
  by_cases hself : PresentsSelf P msg
  · exact ⟨_, congrArg some (if_pos hself), rfl, rfl, rfl⟩
  · exact ⟨_, congrArg some (if_neg hself), rfl, rfl, rfl⟩

end SupernodeState

/-! ## Alice's den -/

/-- A create message that asks for a private room and, perhaps, names its creator. -/
def createsDen (sender : PublicId) (creator : List (String × Json)) : SignalingMessage where
  msgType := .sfuRoomCreate
  sender := sender
  payload := .obj ([("room_id", .str "den"), ("room_type", .str "private")] ++ creator)
  signature := none

/-- A node with rooms open to creation. -/
def roomNode : Config where
  publicId := ""
  openMode := true
  sfuRoomPolicy := ⟨false, true⟩
  clustered := false

/-- Alice has made a private room there. -/
def aliceKeepsDen : List Event :=
  [.message .permissive (createsDen alice []) ""]

def heldDen : SupernodeState :=
  Lib.Run.run (SupernodeState.step .symbolic) (.start roomNode ⟨∅⟩ ⟨"", ∅⟩) aliceKeepsDen

theorem bob_strangerTo_den : ∃ room, heldDen.sfu.getRoom "den" = some room ∧
    room.roomType = .privateRoom ∧ bare bob.text ≠ bare room.creatorId ∧
    room.isPeerAllowed bob.text = false := by
  have hden : (heldDen.sfu.getRoom "den").any (fun room => decide (room.roomType = .privateRoom ∧
      bare bob.text ≠ bare room.creatorId ∧ room.isPeerAllowed bob.text = false)) = true := by
    decide +kernel
  obtain ⟨room, hroom, hstranger⟩ := (Option.any_eq_true _ _).mp hden
  exact ⟨room, hroom, of_decide_eq_true hstranger⟩

open SupernodeState

/-- A message of Bob's in Alice's name admits nobody. -/
theorem sfuRoomCreate_in_alices_name :
    IdNeverAdmits .symbolic .permissive heldDen
      (createsDen bob [("creator_id", .str alice.text)]) := by
  have hiff := (@sfuRoomCreate_without_token_iff .symbolic .permissive
    (createsDen bob [("creator_id", .str alice.text)]) roomNode ⟨∅⟩ ⟨"", ∅⟩ aliceKeepsDen (by decide)).1
  refine hiff.mpr ⟨fun room _ => by decide, fun hnone => ?_⟩
  obtain ⟨room, hden, -⟩ := bob_strangerTo_den
  cases hden.symm.trans hnone

/-- Without a creator in the message Bob is admitted to Alice's private room. -/
theorem sfuRoomCreate_admits_bob :
    ¬ IdNeverAdmits .symbolic .permissive heldDen (createsDen bob []) := by
  intro h
  obtain ⟨room, hden, hprivate, hcreator, hallowed⟩ := bob_strangerTo_den
  have hstranger : StrangerTo .symbolic heldDen (createsDen bob []) room :=
    ⟨hden, hprivate, hcreator, hallowed⟩
  have hwf : SfuWf heldDen.sfu :=
    Lib.Run.run_inv (fun s : SupernodeState => SfuWf s.sfu) SfuWf.new fun _ e hs => step_wf hs e
  exact ((idNeverAdmits_iff hwf (by decide)).mp h).1 room hstranger (by decide)

end ConquerD.Supernode
