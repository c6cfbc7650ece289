import ConquerD.Supernode.Verify.Frame

/-!
# Admission by invite tokens

Joins, invites and create messages re-register the token they carry before they
look at it, so every non-empty token admits its bearer. A ledger kept beside the
run records which tokens a room has minted or seen from its creator, who
presented which token as an outsider, and whom tokens admitted. Admissions are
as good as the tokens that outsiders present, and no better.
-/

namespace ConquerD.Supernode

open Lib.Run Wire

/-- To a private room, the peer is neither its creator nor allowed in. -/
def SFURoom.isOutsider (room : SFURoom) (peerId : String) : Bool :=
  decide (room.roomType = .privateRoom) && bare peerId != bare room.creatorId &&
    !room.isPeerAllowed peerId

def SFURoom.admits (room : SFURoom) (peerId : String) : Bool :=
  decide (room.roomType = .privateRoom) && bare peerId != bare room.creatorId &&
    room.isPeerAllowed peerId

namespace SupernodeState

variable (P : Platform) (env : Env) (st : SupernodeState) (msg : SignalingMessage) (raw : String)

/-- The room and the token a message presents. -/
def presentedToken : Option (String × String) :=
  match msg.msgType with
  | .sfuJoin => (msg.payload.nonemptyStr? "invite_token").map (frameRoom msg, ·)
  | .sfuRoomInvite => if inviteToken msg = "" then none else some (inviteRoom msg, inviteToken msg)
  | .sfuRoomCreate =>
    (roomCreateFields P msg).inviteToken.map ((roomCreateFields P msg).roomId, ·)
  | _ => none

/-- The rooms as they are when the message's Space proof has been dealt with and
its token has not. -/
def roomsBeforeToken : SFURoomManager :=
  match msg.msgType with
  | .sfuJoin => (st.trySpaceAdmission P env msg.sender.text (frameRoom msg) msg.payload).1.1.sfu
  | .sfuRoomInvite =>
    (st.trySpaceAdmission P env msg.sender.text (inviteRoom msg) msg.payload).1.1.sfu
  | _ => st.sfu

/-- The room a message takes its token to. A create message takes it to the room
that exists or that it makes, if it asks for a private one and is not refused. -/
def tokenRoom (roomId : String) : Option SFURoom :=
  match msg.msgType with
  | .sfuRoomCreate =>
    if (st.createDenied (roomCreateFields P msg)).isNone ∧
        (roomCreateFields P msg).roomType = .privateRoom then
      some (st.sfu.createRoomWithPolicy (roomCreateFields P msg).roomId
        (roomCreateFields P msg).roomName (roomCreateFields P msg).roomType
        (roomCreateFields P msg).creatorId (roomCreateFields P msg).invitePolicy env.now).2.1
    else none
  | _ => (st.roomsBeforeToken P env msg).getRoom roomId

def outsiderToken : Option (String × String) :=
  (presentedToken P msg).filter fun e =>
    (st.tokenRoom P env msg e.1).any (·.isOutsider msg.sender.text)

/-- The token by which a message admits its sender to a private room, with the
room: before the token was looked at the sender was not allowed in, and after
the message it is. -/
def admittingToken : Option (String × String) :=
  (presentedToken P msg).filter fun e =>
    ((st.roomsBeforeToken P env msg).getRoom e.1).all
      (fun room => !room.isPeerAllowed msg.sender.text) &&
    ((st.onMessage P env msg raw).1.sfu.getRoom e.1).any (·.admits msg.sender.text)

end SupernodeState

/-! ## Every presented token admits -/

/-- The second room is the first one after the peer has been let in. -/
structure SFURoom.LetIn (room room' : SFURoom) (peerId : String) : Prop where
  roomType : room'.roomType = room.roomType
  creatorId : room'.creatorId = room.creatorId
  allowed : room'.isPeerAllowed peerId = true

namespace SFURoomManager

variable {mgr : SFURoomManager} {r token by_ : String} {room : SFURoom} {p : PublicId}

theorem reregisterInviteToken_of_some (hroom : mgr.getRoom r = some room) (htoken : token ≠ "") :
    mgr.reregisterInviteToken r token by_ =
      (mgr.setRoom r { room with
        inviteTokens := room.inviteTokens.insert token
          { createdBy := by_, uses := 0, maxUses := 0 } }, true) := by
  simp [reregisterInviteToken, hroom, SFURoom.reregisterInviteToken, htoken]

theorem reregisterInviteToken_of_none (hroom : mgr.getRoom r = none) :
    mgr.reregisterInviteToken r token by_ = (mgr, false) := by
  simp [reregisterInviteToken, hroom]

theorem letIn_reseed (hroom : mgr.getRoom r = some room) (htoken : token ≠ "") :
    ∃ room', ((mgr.reregisterInviteToken r token by_).1.allowPeer r p.text).getRoom r =
      some room' ∧ room.LetIn room' p.text := by
  rw [reregisterInviteToken_of_some hroom htoken]
  refine ⟨{ room with
      inviteTokens := room.inviteTokens.insert token { createdBy := by_, uses := 0, maxUses := 0 }
      allowed := room.allowed.insert (normalizePublicId p.text) },
    by simp [allowPeer, SFURoom.allowPeer], ⟨rfl, rfl, ?_⟩⟩
  simp [SFURoom.isPeerAllowed]

theorem letIn_validate (hroom : mgr.getRoom r = some room) (htoken : token ≠ "") :
    ∃ room', ((mgr.reregisterInviteToken r token by_).1.validateRoomInvite r token
      p.text).1.getRoom r = some room' ∧ room.LetIn room' p.text := by
  rw [reregisterInviteToken_of_some hroom htoken]
  refine ⟨{ room with
      inviteTokens := (room.inviteTokens.insert token
        { createdBy := by_, uses := 0, maxUses := 0 }).insert token
          { createdBy := by_, uses := 0, maxUses := 0 }
      allowed := room.allowed.insert (normalizePublicId p.text) },
    by simp [validateRoomInvite, SFURoom.validateAndConsumeToken], ⟨rfl, rfl, ?_⟩⟩
  simp [SFURoom.isPeerAllowed]

theorem joinRoom_keeps_letIn {room' : SFURoom} (hroom : mgr.getRoom r = some room')
    (hlet : room.LetIn room' p.text) :
    ∃ room'', (mgr.joinRoom p.text r).1.getRoom r = some room'' ∧ room.LetIn room'' p.text := by
  have hallowed : room'.isPeerAllowed (normalizePublicId p.text) = true := by
    have := hlet.allowed
    unfold SFURoom.isPeerAllowed at this ⊢
    simpa using this
  refine ⟨(room'.addParticipant (normalizePublicId p.text)).1,
    by simp [joinRoom, hroom, hallowed], ?_⟩
  unfold SFURoom.addParticipant
  simp only
  split
  · exact hlet
  · split
    · exact hlet
    · refine ⟨hlet.roomType, hlet.creatorId, ?_⟩
      simp [SFURoom.isPeerAllowed, SFURoom.markInUse]

end SFURoomManager

namespace SupernodeState

variable {P : Platform} {env : Env} {st : SupernodeState} {msg : SignalingMessage} {raw : String}
  {r token : String}

theorem all_and_any_of_letIn {room room' : SFURoom} {p : String} (h : room.LetIn room' p) :
    ((some room).all (fun room => !room.isPeerAllowed p) &&
      (some room').any (·.admits p)) = room.isOutsider p := by
  simp only [Option.all_some, Option.any_some, SFURoom.admits, SFURoom.isOutsider, h.roomType,
    h.creatorId, h.allowed, Bool.and_true]
  rw [Bool.and_comm]

theorem sfuJoin_letIn (hty : msg.msgType = .sfuJoin)
    (htok : msg.payload.nonemptyStr? "invite_token" = some token) {room : SFURoom}
    (hroom : (st.roomsBeforeToken P env msg).getRoom (frameRoom msg) = some room) :
    ∃ room', (st.onMessage P env msg raw).1.sfu.getRoom (frameRoom msg) = some room' ∧
      room.LetIn room' msg.sender.text := by
  have hne : token ≠ "" := by
    simpa using (Option.filter_eq_some_iff.mp htok).2
  simp only [roomsBeforeToken, hty] at hroom
  simp only [onMessage, hty]
  rw [handleSfuJoin_sfu]
  obtain ⟨room', hroom', hlet⟩ := @SFURoomManager.letIn_reseed _ _ token
    ((st.trySpaceAdmission P env msg.sender.text (frameRoom msg) msg.payload).1.1.tokenCreatedBy
      (frameRoom msg) msg.sender.text) room msg.sender hroom hne
  refine SFURoomManager.joinRoom_keeps_letIn ?_ hlet
  simp only [admittedForJoin, htok, admitByJoinToken,
    SFURoomManager.reregisterInviteToken_of_some hroom hne, if_true]
  simpa only [SFURoomManager.reregisterInviteToken_of_some hroom hne] using hroom'

theorem sfuJoin_none (hty : msg.msgType = .sfuJoin)
    (htok : msg.payload.nonemptyStr? "invite_token" = some token)
    (hroom : (st.roomsBeforeToken P env msg).getRoom (frameRoom msg) = none) :
    (st.onMessage P env msg raw).1.sfu.getRoom (frameRoom msg) = none := by
  simp only [roomsBeforeToken, hty] at hroom
  simp only [onMessage, hty]
  rw [handleSfuJoin_sfu]
  simp [admittedForJoin, htok, admitByJoinToken,
    SFURoomManager.reregisterInviteToken_of_none hroom, SFURoomManager.joinRoom, hroom]

theorem isPeerAllowed_allowPeer {mgr : SFURoomManager} {p : String} {room : SFURoom}
    (h : (mgr.allowPeer r p).getRoom r = some room) : room.isPeerAllowed p = true := by
  unfold SFURoomManager.allowPeer at h
  cases hroom : mgr.getRoom r with
  | none => simp [hroom] at h
  | some old =>
    simp only [hroom, SFURoomManager.getRoom_setRoom, if_true, Option.some.injEq] at h
    subst h
    simp [SFURoom.isPeerAllowed, SFURoom.allowPeer]

theorem trySpaceAdmission_allows {sender : String} {payload : Json} {room : SFURoom}
    (hadmitted : (st.trySpaceAdmission P env sender r payload).2 = true)
    (hroom : (st.trySpaceAdmission P env sender r payload).1.1.sfu.getRoom r = some room) :
    room.isPeerAllowed sender = true := by
  by_cases hv : ∃ proof root, ProofVerifies P st r payload proof root
  · obtain ⟨proof, root, hv⟩ := hv
    obtain ⟨hok, hsfu⟩ := @trySpaceAdmission_of_verifies P env st sender _ _ _ _ hv
    rw [hok] at hadmitted
    rw [hsfu, if_pos hadmitted] at hroom
    exact isPeerAllowed_allowPeer hroom
  · push Not at hv
    rw [(trySpaceAdmission_of_not_verifies hv).1] at hadmitted
    cases hadmitted

theorem sfuRoomInvite_letIn (hty : msg.msgType = .sfuRoomInvite) (htok : inviteToken msg ≠ "")
    {room : SFURoom} (hout : room.isPeerAllowed msg.sender.text = false)
    (hroom : (st.roomsBeforeToken P env msg).getRoom (inviteRoom msg) = some room) :
    ∃ room', (st.onMessage P env msg raw).1.sfu.getRoom (inviteRoom msg) = some room' ∧
      room.LetIn room' msg.sender.text := by
  simp only [roomsBeforeToken, hty] at hroom
  simp only [onMessage, hty]
  rw [handleSfuRoomInvite_sfu]
  -- a proof that admits would have let the sender in before the token was looked at
  have hproof : (st.trySpaceAdmission P env msg.sender.text (inviteRoom msg) msg.payload).2 =
      false := by
    by_contra hadmitted
    rw [trySpaceAdmission_allows (by simpa using hadmitted) hroom] at hout
    cases hout
  simp only [admittedForInvite, hproof, Bool.not_false, Bool.true_and, bne_iff_ne, ne_eq, htok,
    not_false_eq_true, if_true, redeemRoomInvite]
  exact SFURoomManager.letIn_validate hroom htok

theorem sfuRoomInvite_none (hty : msg.msgType = .sfuRoomInvite)
    (hroom : (st.roomsBeforeToken P env msg).getRoom (inviteRoom msg) = none) :
    (st.onMessage P env msg raw).1.sfu.getRoom (inviteRoom msg) = none := by
  simp only [roomsBeforeToken, hty] at hroom
  simp only [onMessage, hty]
  rw [handleSfuRoomInvite_sfu]
  unfold admittedForInvite
  simp only
  split
  · simp [redeemRoomInvite, SFURoomManager.reregisterInviteToken_of_none hroom,
      SFURoomManager.validateRoomInvite, hroom]
  · exact hroom

section Create

variable (P env st msg) in
/-- The room a create message works on: the existing one or the one it makes. -/
def createdRoom : SFURoomManager × SFURoom × Bool :=
  st.sfu.createRoomWithPolicy (roomCreateFields P msg).roomId (roomCreateFields P msg).roomName
    (roomCreateFields P msg).roomType (roomCreateFields P msg).creatorId
    (roomCreateFields P msg).invitePolicy env.now

theorem sfuRoomCreate_letIn (hwf : SfuWf st.sfu) (hty : msg.msgType = .sfuRoomCreate)
    (htok : (roomCreateFields P msg).inviteToken = some token)
    (hdenied : st.createDenied (roomCreateFields P msg) = none)
    (hprivate : (roomCreateFields P msg).roomType = .privateRoom) :
    ∃ room', (st.onMessage P env msg raw).1.sfu.getRoom (roomCreateFields P msg).roomId =
        some room' ∧ (st.createdRoom P env msg).2.1.LetIn room' msg.sender.text := by
  have hne : token ≠ "" := by
    simpa using (Option.filter_eq_some_iff.mp htok).2
  have hroom : (st.createdRoom P env msg).1.getRoom (roomCreateFields P msg).roomId =
      some (st.createdRoom P env msg).2.1 := SFURoomManager.getRoom_createRoomWithPolicy
  have hid : (st.createdRoom P env msg).2.1.roomId = (roomCreateFields P msg).roomId := by
    have hwf' : SfuWf (st.createdRoom P env msg).1 := hwf.createRoomWithPolicy _ _ _ _ _
    exact (hwf' _ _ hroom).roomId
  have hsfu : (st.onMessage P env msg raw).1.sfu =
      (((st.createdRoom P env msg).1.reregisterInviteToken (roomCreateFields P msg).roomId token
        (if (st.createdRoom P env msg).2.1.creatorId = "" then (roomCreateFields P msg).creatorId
          else (st.createdRoom P env msg).2.1.creatorId)).1.allowPeer
            (roomCreateFields P msg).roomId msg.sender.text) := by
    simp only [onMessage, hty, handleSfuRoomCreate, hdenied]
    rw [if_pos hprivate]
    change (admitOnCreate env { st with sfu := (st.createdRoom P env msg).1 }
      (st.createdRoom P env msg).2.1.roomId (st.createdRoom P env msg).2.1.creatorId
      msg.sender.text (roomCreateFields P msg).creatorId (st.createdRoom P env msg).2.2
      (roomCreateFields P msg).inviteToken).1.sfu = _
    rw [hid]
    simp only [admitOnCreate, reseedOnCreate, htok,
      SFURoomManager.reregisterInviteToken_of_some hroom hne, if_true, Option.isNone_some,
      Bool.false_eq_true, false_and, if_false]
  rw [hsfu]
  exact SFURoomManager.letIn_reseed hroom hne

theorem sfuRoomCreate_idle (hty : msg.msgType = .sfuRoomCreate)
    (hidle : ¬ ((st.createDenied (roomCreateFields P msg)).isNone = true ∧
      (roomCreateFields P msg).roomType = .privateRoom)) :
    ((st.sfu.getRoom (roomCreateFields P msg).roomId).all
        (fun room => !room.isPeerAllowed msg.sender.text) &&
      ((st.onMessage P env msg raw).1.sfu.getRoom (roomCreateFields P msg).roomId).any
        (·.admits msg.sender.text)) = false := by
  -- the room stays as it is, or a public one is made
  have hafter : (st.onMessage P env msg raw).1.sfu.getRoom (roomCreateFields P msg).roomId =
        st.sfu.getRoom (roomCreateFields P msg).roomId ∨
      ∃ room, (st.onMessage P env msg raw).1.sfu.getRoom (roomCreateFields P msg).roomId =
        some room ∧ room.roomType ≠ .privateRoom := by
    simp only [onMessage, hty, handleSfuRoomCreate]
    cases hdenied : st.createDenied (roomCreateFields P msg) with
    | some reason => exact .inl rfl
    | none =>
      have hpublic : (roomCreateFields P msg).roomType ≠ .privateRoom := by
        simpa [hdenied] using hidle
      simp only [if_neg hpublic]
      cases hroom : st.sfu.getRoom (roomCreateFields P msg).roomId with
      | some room =>
        rw [SFURoomManager.createRoomWithPolicy_of_some hroom]
        exact .inl hroom
      | none =>
        rw [SFURoomManager.createRoomWithPolicy_of_none hroom]
        refine .inr ⟨_, by rw [SFURoomManager.getRoom_setRoom, if_pos rfl], ?_⟩
        simpa [SFURoomManager.freshRoom, SFURoom.new] using hpublic
  rcases hafter with hsame | ⟨room, hroom, hpublic⟩
  · rw [hsame]
    cases st.sfu.getRoom (roomCreateFields P msg).roomId with
    | none => rfl
    | some room => cases hallowed : room.isPeerAllowed msg.sender.text <;>
        simp [SFURoom.admits, hallowed]
  · rw [hroom]
    simp [SFURoom.admits, hpublic]

end Create

theorem all_and_any_eq {before after : Option SFURoom} {p : String}
    (hnone : before = none → after = none)
    (hsome : ∀ room, before = some room → room.isPeerAllowed p = false →
      ∃ room', after = some room' ∧ room.LetIn room' p) :
    (before.all (fun room => !room.isPeerAllowed p) && after.any (·.admits p)) =
      before.any (·.isOutsider p) := by
  cases before with
  | none => rw [hnone rfl]; rfl
  | some room =>
    cases hallowed : room.isPeerAllowed p with
    | true => simp [SFURoom.isOutsider, hallowed]
    | false =>
      obtain ⟨room', rfl, hlet⟩ := hsome room rfl hallowed
      exact all_and_any_of_letIn hlet

theorem admits_of_letIn_fresh {r name : String} {ty : RoomType} {creator policy p : String}
    {now : Rat} {room' : SFURoom}
    (h : (SFURoomManager.freshRoom r name ty creator policy now).LetIn room' p) :
    room'.admits p = (SFURoomManager.freshRoom r name ty creator policy now).isOutsider p := by
  simp only [SFURoom.admits, SFURoom.isOutsider, h.roomType, h.creatorId, h.allowed, Bool.and_true]
  by_cases hprivate : (SFURoomManager.freshRoom r name ty creator policy now).roomType = .privateRoom
  · by_cases hcreator : bare p =
        bare (SFURoomManager.freshRoom r name ty creator policy now).creatorId
    · simp [hcreator]
    · have hempty : (SFURoomManager.freshRoom r name ty creator policy now).isPeerAllowed p =
          false := by
        have hne : (SFURoomManager.freshRoom r name ty creator policy now).creatorId ≠
            normalizePublicId p := by
          intro heq
          exact hcreator (by rw [heq, bare_normalizePublicId])
        simp only [SFURoom.isPeerAllowed, SFURoom.isPublic, hprivate, beq_eq_false_iff_ne.mpr hne]
        simp [SFURoomManager.freshRoom, SFURoom.new]
      simp [hempty]
  · simp [hprivate]

theorem admittingToken_eq_outsiderToken (hwf : SfuWf st.sfu) :
    st.admittingToken P env msg raw = st.outsiderToken P env msg := by
  unfold admittingToken outsiderToken
  cases hpres : presentedToken P msg with
  | none => rfl
  | some e =>
    suffices hpred : (((st.roomsBeforeToken P env msg).getRoom e.1).all
          (fun room => !room.isPeerAllowed msg.sender.text) &&
        ((st.onMessage P env msg raw).1.sfu.getRoom e.1).any (·.admits msg.sender.text)) =
        (st.tokenRoom P env msg e.1).any (·.isOutsider msg.sender.text) by
      simp only [Option.filter_some, hpred]
    unfold presentedToken at hpres
    unfold tokenRoom
    split at hpres
    · rename_i hty
      obtain ⟨token, htok, rfl⟩ := Option.map_eq_some_iff.mp hpres
      simp only [hty]
      exact all_and_any_eq (sfuJoin_none hty htok) fun room hroom _ => sfuJoin_letIn hty htok hroom
    · rename_i hty
      split at hpres
      · cases hpres
      · rename_i htok
        cases hpres
        simp only [hty]
        exact all_and_any_eq (sfuRoomInvite_none hty) fun room hroom hout =>
          sfuRoomInvite_letIn hty htok hout hroom
    · rename_i hty
      obtain ⟨token, htok, rfl⟩ := Option.map_eq_some_iff.mp hpres
      simp only [hty, roomsBeforeToken]
      by_cases hworks : (st.createDenied (roomCreateFields P msg)).isNone = true ∧
          (roomCreateFields P msg).roomType = .privateRoom
      · rw [if_pos hworks]
        obtain ⟨room', hroom', hlet⟩ := @sfuRoomCreate_letIn P env st msg raw token hwf hty htok
          (by simpa using hworks.1) hworks.2
        simp only [hroom']
        unfold createdRoom at hlet
        cases hroom : st.sfu.getRoom (roomCreateFields P msg).roomId with
        | some room =>
          rw [SFURoomManager.createRoomWithPolicy_of_some hroom] at hlet ⊢
          exact all_and_any_of_letIn hlet
        | none =>
          rw [SFURoomManager.createRoomWithPolicy_of_none hroom] at hlet ⊢
          simp only [Option.all_none, Bool.true_and, Option.any_some]
          exact admits_of_letIn_fresh hlet
      · rw [if_neg hworks]
        exact sfuRoomCreate_idle hty hworks
    · cases hpres

/-! ## The ledger -/

variable (P env st msg) in
/-- The token a message has minted for a room: by an invite request that is
granted, or by the creation of a private room without a token. -/
def mintedToken : Option (String × String) :=
  match msg.msgType with
  | .sfuRoomInviteGenerate =>
    match (st.sfu.generateInviteTokenChecked ((msg.payload.str? "room_id").getD "")
      msg.sender.text env.nonce).2 with
    | .ok token => some ((msg.payload.str? "room_id").getD "", token)
    | _ => none
  | .sfuRoomCreate =>
    if (st.createDenied (roomCreateFields P msg)).isNone ∧
        (roomCreateFields P msg).roomType = .privateRoom ∧
        (roomCreateFields P msg).inviteToken = none ∧ (st.createdRoom P env msg).2.2 = true then
      some ((roomCreateFields P msg).roomId, env.nonce)
    else none
  | _ => none

variable (P env st msg raw) in
def suppliedToken : Option (String × String) :=
  (presentedToken P msg).filter fun e =>
    ((st.onMessage P env msg raw).1.sfu.getRoom e.1).any fun room =>
      bare room.creatorId == bare msg.sender.text

end SupernodeState

/-- What has happened to the tokens of each room since the room was made: those
minted, those its creator supplied, those presented by outsiders and those that
admitted, the last two with the peer. -/
structure TokenLedger where
  minted : List (String × String)
  supplied : List (String × String)
  presented : List ((String × String) × String)
  admitted : List ((String × String) × String)

namespace TokenLedger

def empty : TokenLedger := ⟨[], [], [], []⟩

/-- The entries of the rooms that exist. -/
def keepRooms (L : TokenLedger) (mgr : SFURoomManager) : TokenLedger where
  minted := L.minted.filter fun e => (mgr.getRoom e.1).isSome
  supplied := L.supplied.filter fun e => (mgr.getRoom e.1).isSome
  presented := L.presented.filter fun e => (mgr.getRoom e.1.1).isSome
  admitted := L.admitted.filter fun e => (mgr.getRoom e.1.1).isSome

/-- The ledger after one event; a room that goes away takes its entries along. -/
def record (P : Platform) (st : SupernodeState) (L : TokenLedger) (e : Event) : TokenLedger :=
  match e with
  | .message env msg raw =>
    { minted := (st.mintedToken P env msg).toList ++ L.minted
      supplied := (st.suppliedToken P env msg raw).toList ++ L.supplied
      presented := ((st.outsiderToken P env msg).toList.map (·, bare msg.sender.text)) ++
        L.presented
      admitted := ((st.admittingToken P env msg raw).toList.map (·, bare msg.sender.text)) ++
        L.admitted : TokenLedger }.keepRooms (st.step P e).sfu
  | _ => L.keepRooms (st.step P e).sfu

/-- The room has minted the token or had it from its creator. -/
def Genuine (L : TokenLedger) (e : String × String) : Prop :=
  e ∈ L.minted ∨ e ∈ L.supplied

end TokenLedger

/-- One event of a node with its ledger. -/
def stepWithLedger (P : Platform) (s : SupernodeState × TokenLedger) (e : Event) :
    SupernodeState × TokenLedger :=
  (s.1.step P e, s.2.record P s.1 e)

/-- A peer admitted by a token had a genuine one, and a minted token had admitted
no other peer before. -/
def AdmitsByGenuineToken (P : Platform) (s : SupernodeState × TokenLedger) : Event → Prop
  | .message env msg raw =>
    ∀ e, s.1.admittingToken P env msg raw = some e →
      s.2.Genuine e ∧ (e ∈ s.2.minted → ∀ p, (e, p) ∈ s.2.admitted → p = bare msg.sender.text)
  | _ => True

/-- A token an outsider presents is genuine, and a minted one no other outsider
has presented before. -/
def PresentsGenuineToken (P : Platform) (s : SupernodeState × TokenLedger) : Event → Prop
  | .message env msg _ =>
    ∀ e, s.1.outsiderToken P env msg = some e →
      s.2.Genuine e ∧ (e ∈ s.2.minted → ∀ p, (e, p) ∈ s.2.presented → p = bare msg.sender.text)
  | _ => True

section Runs

variable {P : Platform}

/-- A well-formed room table, and a ledger in which the tokens that admitted are
the tokens that outsiders presented. -/
def LedgerInv (s : SupernodeState × TokenLedger) : Prop :=
  SfuWf s.1.sfu ∧ s.2.presented = s.2.admitted

theorem LedgerInv.step {s : SupernodeState × TokenLedger} (h : LedgerInv s) (e : Event) :
    LedgerInv (stepWithLedger P s e) := by
  refine ⟨SupernodeState.step_wf h.1 e, ?_⟩
  unfold stepWithLedger TokenLedger.record
  split
  · simp only [TokenLedger.keepRooms, h.2, SupernodeState.admittingToken_eq_outsiderToken h.1]
  · simp only [TokenLedger.keepRooms, h.2]

theorem admitsByGenuineToken_iff {s : SupernodeState × TokenLedger} (h : LedgerInv s) (e : Event) :
    AdmitsByGenuineToken P s e ↔ PresentsGenuineToken P s e := by
  unfold AdmitsByGenuineToken PresentsGenuineToken
  split
  · rw [SupernodeState.admittingToken_eq_outsiderToken h.1, h.2]
  · rfl

/-- Along every run of a node, peers are admitted to private rooms by genuine
tokens only, minted ones by one peer each, exactly when outsiders present genuine
tokens only, minted ones by one outsider each. -/
theorem tokenAdmission_genuine_iff (config : Config) (peers : PeerStore)
    (handshake : HandshakeManager) (es : List Event) :
    Along (stepWithLedger P) (AdmitsByGenuineToken P)
        (.start config peers handshake, .empty) es ↔
      Along (stepWithLedger P) (PresentsGenuineToken P)
        (.start config peers handshake, .empty) es :=
  along_congr_inv LedgerInv ⟨SfuWf.new, rfl⟩ (fun _ e hs => hs.step e)
    fun _ e hs => admitsByGenuineToken_iff hs e

end Runs

/-! ## A concrete run -/

/-- Alice creates a private room, and Bob joins it with a token of his own. -/
def bobGuesses : List Event :=
  [.message .permissive
    { msgType := .sfuRoomCreate, sender := alice,
      payload := .obj [("room_id", .str "den"), ("room_type", .str "private")],
      signature := none } "",
    .message .permissive
    { msgType := .sfuJoin, sender := bob,
      payload := .obj [("room_id", .str "den"), ("invite_token", .str "guess")],
      signature := none } ""]

/-- Bob's own token admits him to Alice's room. -/
theorem guessedToken_admits :
    ¬ Along (stepWithLedger .symbolic) (AdmitsByGenuineToken .symbolic)
      (.start { publicId := "", openMode := true, sfuRoomPolicy := ⟨true, true⟩, clustered := false }
        ⟨∅⟩ ⟨"", ∅⟩, .empty) bobGuesses := by
  rintro ⟨-, hbob, -⟩
  have hgenuine := (hbob ("den", "guess") (by decide +kernel)).1
  revert hgenuine
  unfold TokenLedger.Genuine
  decide +kernel

end ConquerD.Supernode
