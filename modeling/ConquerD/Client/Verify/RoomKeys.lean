import ConquerD.Client.Verify.Keying
import ConquerD.Wire.Space

/-!
# Room keys go to members a supernode vouched for

Beside the run stands what the supernodes told: for each supernode and room,
the members in its latest snapshot, taken from the messages it sent while a
session with it was held. The client files every snapshot under one text, the
supernode and the room with a colon between, and finds the snapshots of a room
by how that text ends.
-/

namespace ConquerD.Client

open Std (ExtTreeMap ExtTreeSet)
open Lib.Rosters Lib.Run Lib.Text Wire

/-! ## Keys of snapshots -/

theorem toList_roomScopeKey {s r : String} :
    (roomScopeKey s r).toList = s.toList ++ ':' :: r.toList := by
  simp [roomScopeKey]

theorem roomScopeKey_inj {s s' r r' : String} (hr : ':' ∉ r.toList) (hr' : ':' ∉ r'.toList)
    (h : roomScopeKey s r = roomScopeKey s' r') : s = s' ∧ r = r' := by
  have hlist := congrArg String.toList h
  rw [toList_roomScopeKey, toList_roomScopeKey] at hlist
  obtain ⟨hs, hroom⟩ := append_sep_inj hr hr' hlist
  exact ⟨String.toList_inj.mp hs, String.toList_inj.mp hroom⟩

theorem eq_of_endsWithRoom {s : PublicId} {r roomId : String} (hr : ':' ∉ r.toList)
    (h : endsWithRoom (roomScopeKey s.text r) roomId = true) : roomId = r := by
  have hs : ':' ∉ s.text.toList := s.notMem_text (by decide) (by decide)
  obtain ⟨pre, hpre⟩ := List.isSuffixOf_iff_suffix.mp h
  rw [toList_roomScopeKey, String.toList_append] at hpre
  have hcolon : ":".toList = [':'] := rfl
  rw [hcolon, List.singleton_append] at hpre
  have hroom : ':' ∉ roomId.toList := by
    have hcount := congrArg (List.count ':') hpre
    simp only [List.count_append, List.count_cons_self, List.count_eq_zero_of_not_mem hs,
      List.count_eq_zero_of_not_mem hr] at hcount
    exact List.count_eq_zero.mp (by omega)
  exact String.toList_inj.mp (append_sep_inj hroom hr hpre).2

namespace ConnectionManager

/-! ## What supernodes told -/

/-- Members in the latest snapshot, by supernode and room. -/
abbrev Told := String → String → List String

/-- The messages that tell of a room's members. -/
def tellsMembers (msg : SignalingMessage) : Bool :=
  msg.msgType == .sfuMembers || msg.msgType == .sfuPeerJoined || msg.msgType == .sfuPeerLeft

/-- The members a full snapshot lists. -/
def listedMembers (msg : SignalingMessage) : List String :=
  (strings? msg.payload "chat_members").getD ((strings? msg.payload "members").getD [])

/-- The snapshot after a message, from the one before it. -/
def retold (snapshot : List String) (msg : SignalingMessage) : List String :=
  match msg.msgType with
  | .sfuMembers => listedMembers msg
  | .sfuPeerJoined => announcedPeer msg :: snapshot
  | .sfuPeerLeft => snapshot.filter (· ≠ announcedPeer msg)
  | _ => snapshot

/-- What was told, after a message. Only supernodes with a session count. -/
def Told.hear (told : Told) (c : ConnectionManager) (msg : SignalingMessage) : Told :=
  fun s r =>
    if tellsMembers msg ∧ msg.sender.text ∈ c.supernodes ∧ s = msg.sender.text ∧ r = roomOf msg then
      retold (told s r) msg
    else told s r

def toldAfter (c : ConnectionManager) (told : Told) : Event → Told
  | .inbound env outer =>
    match dispatched env outer with
    | none => told
    | some msg => told.hear c msg
  | _ => told

/-- One event, with what supernodes told recorded beside the state. -/
def vouchStep (P : Platform) (s : ConnectionManager × Told) (e : Event) :
    ConnectionManager × Told :=
  (s.1.step P e, toldAfter s.1 s.2 e)

/-- Members come from supernodes with a session, and every key sealed goes to
somebody in the latest snapshot such a supernode gave of the room. -/
structure KeysVouched (P : Platform) (s : ConnectionManager × Told) (e : Event) : Prop where
  roster : ∀ env outer msg, e = .inbound env outer → dispatched env outer = some msg →
    tellsMembers msg = true →
    (s.1.step P e).roomGroupMembers ≠ s.1.roomGroupMembers → msg.sender.text ∈ s.1.supernodes
  seals : ∀ member roomId epoch key, .groupKey member roomId epoch key ∈ (s.1.handle P e).2 →
    ∃ supernodeId, member ∈ toldAfter s.1 s.2 e supernodeId roomId

/-- Whoever tells of a room's members has a session, and the room's id has no
colon. -/
def RosterFromSession (s : ConnectionManager × Told) : Event → Prop
  | .inbound env outer => ∀ msg, dispatched env outer = some msg → tellsMembers msg = true →
    msg.sender.text ∈ s.1.supernodes ∧ ':' ∉ (roomOf msg).toList
  | _ => True

/-! ## The invariant -/

/-- Every snapshot held is within what its supernode told last. -/
def Vouched (snapshots : Roster String String) (told : Told) : Prop :=
  ∀ key set, snapshots[key]? = some set → ∃ (s : PublicId) (r : String),
    key = roomScopeKey s.text r ∧ ':' ∉ r.toList ∧ ∀ m ∈ set, m ∈ told s.text r

variable {P : Platform} {env : Env} {c : ConnectionManager} {told : Told}
  {snapshots snapshots' : Roster String String} {msg : SignalingMessage}

theorem Vouched.empty : Vouched ∅ told := by
  intro key set h
  simp at h

theorem Vouched.mono (h : Vouched snapshots told)
    (hsub : ∀ (key : String) (set : ExtTreeSet String),
      snapshots'[key]? = some set → snapshots[key]? = some set) :
    Vouched snapshots' told :=
  fun key set hkey => h key set (hsub key set hkey)

theorem Vouched.told_of_mem_union (h : Vouched snapshots told) {m roomId : String}
    (hm : m ∈ unionMembersForRoom snapshots roomId) :
    ∃ supernodeId, m ∈ told supernodeId roomId := by
  obtain ⟨key, set, hkey, hends, hmem⟩ := mem_unionMembersForRoom.mp hm
  obtain ⟨s, r, rfl, hr, htold⟩ := h key set hkey
  rw [eq_of_endsWithRoom hr hends]
  exact ⟨s.text, htold m hmem⟩

theorem Vouched.told_of_listed (h : Vouched snapshots told) {s r m : String}
    (hr : ':' ∉ r.toList) (hm : m ∈ members snapshots (roomScopeKey s r)) : m ∈ told s r := by
  unfold members at hm
  cases hkey : snapshots[roomScopeKey s r]? with
  | none => simp [hkey] at hm
  | some set =>
    rw [hkey, Option.getD_some] at hm
    obtain ⟨s', r', heq, hr', htold⟩ := h _ set hkey
    obtain ⟨rfl, rfl⟩ := roomScopeKey_inj hr hr' heq
    exact htold m hm

/-! ## Events that tell nothing -/

/-- Snapshots are at most dropped, and keys are sealed to a room's union. -/
structure Within (c : ConnectionManager) (o : Outcome) : Prop where
  snapshots : ∀ (key : String) (set : ExtTreeSet String),
    o.1.roomGroupMembers[key]? = some set → c.roomGroupMembers[key]? = some set
  seals : ∀ {member roomId : String} {epoch : Nat} {key : EpochKey},
    .groupKey member roomId epoch key ∈ o.2 →
      member ∈ unionMembersForRoom c.roomGroupMembers roomId

theorem within_of_keying {o : Outcome} (h : Keying c o) : Within c o :=
  ⟨fun key set hkey => by rwa [h.roomGroupMembers] at hkey, h.seals⟩

theorem within_of_eq {o : Outcome} (hmembers : o.1.roomGroupMembers = c.roomGroupMembers)
    (hout : ∀ member roomId epoch key, .groupKey member roomId epoch key ∉ o.2) : Within c o :=
  ⟨fun key set hkey => by rwa [hmembers] at hkey, fun hmem => absurd hmem (hout _ _ _ _)⟩

theorem within_forgetRoom {s r : String} {c' : ConnectionManager} {out : List Outgoing}
    (hmembers : c'.roomGroupMembers = c.roomGroupMembers)
    (hout : ∀ member roomId epoch key, .groupKey member roomId epoch key ∉ out) :
    Within c (c'.forgetRoom s r, out) := by
  refine ⟨?_, fun hmem => absurd hmem (hout _ _ _ _)⟩
  intro key set hkey
  simp only [forgetRoom, dropPendingOfRoom, ExtTreeMap.getElem?_erase, hmembers] at hkey
  split at hkey
  · cases hkey
  · exact hkey

theorem sendRoomJoin_within {s r : String} {c' : ConnectionManager}
    (h : Within c (c', [])) : Within c (c'.sendRoomJoin env s r) := by
  refine ⟨?_, by simp [sendRoomJoin]⟩
  intro key set hkey
  refine h.snapshots key set ?_
  simp only [sendRoomJoin] at hkey
  split at hkey
  · exact hkey
  · exact hkey

theorem handleSfuRoomCreated_within : Within c (c.handleSfuRoomCreated env msg) := by
  simp only [handleSfuRoomCreated]
  split
  · exact within_of_eq rfl (by simp)
  · split
    · exact within_of_eq rfl (by simp)
    · split
      · split
        · exact within_of_eq rfl (by simp)
        · exact within_of_eq rfl (by simp)
      · exact sendRoomJoin_within (within_forgetRoom rfl (by simp))

theorem handleHandleUpdate_roomGroupMembers :
    (c.handleHandleUpdate env msg).roomGroupMembers = c.roomGroupMembers := by
  simp only [handleHandleUpdate]
  split
  · rfl
  · split
    · rfl
    · rfl

theorem handleInviteHandshakeAccept_roomGroupMembers :
    (c.handleInviteHandshakeAccept env msg).roomGroupMembers = c.roomGroupMembers := by
  simp only [handleInviteHandshakeAccept]
  split
  · rfl
  · split
    · rfl
    · rfl

theorem dispatch_within (h : tellsMembers msg = false) : Within c (c.dispatch P env msg) := by
  unfold dispatch
  cases htype : msg.msgType with
  | sfuMembers => simp [tellsMembers, htype] at h
  | sfuPeerJoined => simp [tellsMembers, htype] at h
  | sfuPeerLeft => simp [tellsMembers, htype] at h
  | peerTraffic =>
    simp only
    split
    · exact within_of_eq rfl (by simp)
    · exact within_of_eq rfl (by simp)
  | handleUpdate => exact within_of_eq handleHandleUpdate_roomGroupMembers (by simp)
  | sfuGroupKey => exact within_of_keying handleSfuGroupKey_keying
  | sfuGroupKeyAck => exact within_of_keying handleSfuGroupKeyAck_keying
  | sfuChat => exact within_of_keying handleSfuChat_keying
  | sfuAudio => exact within_of_keying handleSfuAudio_keying
  | sfuRoomCreated => exact handleSfuRoomCreated_within
  | inviteHandshakeInit => exact within_of_eq rfl (by simp [handleInviteHandshakeInit])
  | inviteHandshakeAccept =>
    exact within_of_eq handleInviteHandshakeAccept_roomGroupMembers (by simp)
  | encryptedSignal => exact within_of_eq rfl (by simp)
  | other => exact within_of_eq rfl (by simp)

theorem handleAcceptInvite_roomGroupMembers {payload : Json} :
    (c.handleAcceptInvite env payload).roomGroupMembers = c.roomGroupMembers := by
  simp only [handleAcceptInvite, connectSupernodeWs]
  repeat' split
  all_goals rfl

theorem handleAcceptRoomInvite_roomGroupMembers {supernodeId hint : String} :
    (c.handleAcceptRoomInvite env supernodeId hint).roomGroupMembers = c.roomGroupMembers := by
  simp only [handleAcceptRoomInvite, connectSupernodeWs]
  repeat' split
  all_goals rfl

theorem setBlocked_roomGroupMembers {peerId : String} {blocked : Bool} :
    (c.setBlocked peerId blocked).roomGroupMembers = c.roomGroupMembers := by
  unfold setBlocked
  split
  · rfl
  · rfl

theorem leaveRoom_within {s r : String} : Within c (c.leaveRoom s r) := by
  simp only [leaveRoom]
  split
  · split
    · exact within_of_eq rfl (by simp)
    · exact within_forgetRoom rfl (by simp)
  · split
    · exact within_of_eq rfl (by simp)
    · exact within_forgetRoom rfl (by simp)

theorem unsubscribeRoomChat_within {s r : String} : Within c (c.unsubscribeRoomChat s r) := by
  simp only [unsubscribeRoomChat]
  split
  · exact within_of_eq rfl (by simp)
  · exact within_forgetRoom rfl (by simp)

theorem removeSupernode_within {s : String} : Within c (c.removeSupernode s) := by
  refine within_of_eq ?_ ?_
  · simp only [removeSupernode]
    split
    · rfl
    · rfl
  · intro member roomId epoch key hmem
    simp only [removeSupernode] at hmem
    split at hmem
    · simp at hmem
    · simp at hmem

/-- An event that tells of no room's members. -/
def TellsNothing : Event → Prop
  | .inbound env outer => ∀ msg, dispatched env outer = some msg → tellsMembers msg = false
  | _ => True

theorem handle_within {e : Event} (h : TellsNothing e) : Within c (c.handle P e) := by
  cases e with
  | inbound env outer =>
    simp only [handle, handleInbound]
    cases hmsg : dispatched env outer with
    | none => exact within_of_eq rfl (by simp)
    | some msg => exact dispatch_within (h msg hmsg)
  | retryPendingGroupKeys env => exact within_of_keying retryPendingGroupKeys_keying
  | acceptInvite env payload =>
    exact within_of_eq handleAcceptInvite_roomGroupMembers (by simp [handle])
  | acceptRoomInvite env s hint =>
    exact within_of_eq handleAcceptRoomInvite_roomGroupMembers (by simp [handle])
  | blockPeer peerId => exact within_of_eq setBlocked_roomGroupMembers (by simp [handle])
  | unblockPeer peerId => exact within_of_eq setBlocked_roomGroupMembers (by simp [handle])
  | joinRoom env s r => exact sendRoomJoin_within (within_of_eq rfl (by simp))
  | leaveRoom s r => exact leaveRoom_within
  | unsubscribeRoomChat s r => exact unsubscribeRoomChat_within
  | removeSupernode s => exact removeSupernode_within
  | generateInvite env => exact within_of_eq rfl (by simp [handle])
  | subscribeRoomChat s r => exact within_of_eq rfl (by simp [handle])
  | connectSupernode s => exact within_of_eq rfl (by simp [handle])
  | failover r => exact within_of_eq rfl (by simp [handle])
  | pruneInvites env => exact within_of_eq rfl (by simp [handle])

/-! ## Messages that tell of members -/

theorem tellsMembers_iff : tellsMembers msg = true ↔ msg.msgType = .sfuMembers ∨
    msg.msgType = .sfuPeerJoined ∨ msg.msgType = .sfuPeerLeft := by
  simp [tellsMembers, or_assoc]

/-- The list the client makes of a message that tells of members. -/
def heardList (c : ConnectionManager) (msg : SignalingMessage) : List String :=
  match msg.msgType with
  | .sfuPeerJoined => ((c.heldSnapshot msg).insert (announcedPeer msg)).toList
  | .sfuPeerLeft => ((c.heldSnapshot msg).erase (announcedPeer msg)).toList
  | _ => listedMembers msg

theorem dispatch_tells (h : tellsMembers msg = true) :
    ∃ c', c'.roomGroupMembers = c.roomGroupMembers.insert
        (roomScopeKey msg.sender.text (roomOf msg))
        (ExtTreeSet.ofList ((heardList c msg).filter (· ≠ c.publicId))) ∧
      Keying c' (c.dispatch P env msg) := by
  unfold dispatch heardList
  rcases tellsMembers_iff.mp h with htype | htype | htype
  · simp only [htype, handleSfuMembers]
    refine ⟨_, ?_, syncRoomMembership_keying⟩
    unfold confirmFailover
    split
    · rfl
    · rfl
  · simp only [htype]
    exact ⟨_, rfl, syncRoomMembership_keying⟩
  · simp only [htype]
    exact ⟨_, rfl, syncRoomMembership_keying⟩

theorem mem_retold_of_mem_heardList (hv : Vouched c.roomGroupMembers told)
    (hroom : ':' ∉ (roomOf msg).toList) (htells : tellsMembers msg = true) {m : String}
    (hm : m ∈ heardList c msg) (hme : m ≠ c.publicId) :
    m ∈ retold (told msg.sender.text (roomOf msg)) msg := by
  have hheld : m ∈ c.heldSnapshot msg → m ∈ told msg.sender.text (roomOf msg) := by
    intro hin
    rcases ExtTreeSet.mem_insert.mp hin with heq | hin
    · exact absurd (Std.compare_eq_iff_eq.mp heq).symm hme
    · exact hv.told_of_listed hroom hin
  unfold heardList at hm
  unfold retold
  rcases tellsMembers_iff.mp htells with htype | htype | htype
  · simpa only [htype] using hm
  · simp only [htype, ExtTreeSet.mem_toList, ExtTreeSet.mem_insert, Std.compare_eq_iff_eq] at hm ⊢
    rcases hm with heq | hin
    · exact heq ▸ List.mem_cons_self
    · exact List.mem_cons_of_mem _ (hheld hin)
  · simp only [htype, ExtTreeSet.mem_toList, ExtTreeSet.mem_erase] at hm ⊢
    refine List.mem_filter.mpr ⟨hheld hm.2, ?_⟩
    simpa using fun heq => hm.1 (Std.compare_eq_iff_eq.mpr (Eq.symm heq))

theorem Vouched.hear (hv : Vouched c.roomGroupMembers told) (htells : tellsMembers msg = true)
    (hsession : msg.sender.text ∈ c.supernodes) (hroom : ':' ∉ (roomOf msg).toList) :
    Vouched (c.roomGroupMembers.insert (roomScopeKey msg.sender.text (roomOf msg))
        (ExtTreeSet.ofList ((heardList c msg).filter (· ≠ c.publicId)))) (told.hear c msg) := by
  intro key set hkey
  rw [ExtTreeMap.getElem?_insert] at hkey
  split at hkey
  · rename_i heq
    cases hkey
    refine ⟨msg.sender, roomOf msg, (Std.compare_eq_iff_eq.mp heq).symm, hroom, ?_⟩
    intro m hm
    have hmem : m ∈ (heardList c msg).filter (· ≠ c.publicId) := by simpa using hm
    obtain ⟨hlist, hme⟩ := List.mem_filter.mp hmem
    unfold Told.hear
    rw [if_pos ⟨htells, hsession, rfl, rfl⟩]
    exact mem_retold_of_mem_heardList hv hroom htells hlist (by simpa using hme)
  · rename_i hne
    obtain ⟨s, r, rfl, hr, htold⟩ := hv key set hkey
    refine ⟨s, r, rfl, hr, ?_⟩
    unfold Told.hear
    rw [if_neg]
    · exact htold
    · rintro ⟨-, -, hs, hr'⟩
      exact hne (Std.compare_eq_iff_eq.mpr (by rw [hs, hr']))

theorem hear_of_no_session (h : msg.sender.text ∉ c.supernodes) : told.hear c msg = told := by
  funext s r
  simp [Told.hear, h]

theorem hear_of_not_tells (h : tellsMembers msg = false) : told.hear c msg = told := by
  funext s r
  simp [Told.hear, h]

theorem toldAfter_of_tellsNothing {e : Event} (h : TellsNothing e) : toldAfter c told e = told := by
  cases e with
  | inbound env outer =>
    simp only [toldAfter]
    cases hmsg : dispatched env outer with
    | none => rfl
    | some msg => exact hear_of_not_tells (h msg hmsg)
  | _ => rfl

/-! ## Whole runs -/

theorem vouched_handle {e : Event} (hv : Vouched c.roomGroupMembers told)
    (h : RosterFromSession (c, told) e) :
    Vouched (c.handle P e).1.roomGroupMembers (toldAfter c told e) ∧
      ∀ {member roomId epoch key}, .groupKey member roomId epoch key ∈ (c.handle P e).2 →
        ∃ supernodeId, member ∈ toldAfter c told e supernodeId roomId := by
  by_cases hnothing : TellsNothing e
  · rw [toldAfter_of_tellsNothing hnothing]
    have hwithin := @handle_within P c e hnothing
    exact ⟨hv.mono hwithin.snapshots, fun hmem => hv.told_of_mem_union (hwithin.seals hmem)⟩
  · cases e with
    | inbound env outer =>
      simp only [TellsNothing, not_forall, Bool.not_eq_false] at hnothing
      obtain ⟨msg, hmsg, htells⟩ := hnothing
      obtain ⟨hsession, hroom⟩ := h msg hmsg htells
      obtain ⟨c', hmembers, hkeying⟩ := @dispatch_tells P env c msg htells
      have hheard := hv.hear htells hsession hroom
      rw [← hmembers] at hheard
      simp only [handle, handleInbound, toldAfter, hmsg]
      refine ⟨by rwa [hkeying.roomGroupMembers], ?_⟩
      exact fun hmem => hheard.told_of_mem_union (hkeying.seals hmem)
    | _ => exact absurd trivial hnothing

/-- In every run in which only supernodes with a session tell of a room's
members, of rooms without a colon in their id, every key goes to a member such
a supernode vouched for. -/
theorem roomKeys_go_to_vouched (publicId : String) (store : PeerStore) (es : List Event)
    (h : Along (vouchStep P) RosterFromSession (.start publicId store, fun _ _ => []) es) :
    Along (vouchStep P) (KeysVouched P) (.start publicId store, fun _ _ => []) es := by
  refine h.imp_inv (fun s => Vouched s.1.roomGroupMembers s.2) Vouched.empty ?_ ?_
  · intro s e hv hroster
    exact (vouched_handle hv hroster).1
  · intro s e hv hroster
    refine ⟨?_, fun _ _ _ _ hmem => (vouched_handle hv hroster).2 hmem⟩
    rintro env outer msg rfl hmsg htells -
    exact (hroster msg hmsg htells).1

end ConnectionManager

/-! ## A stranger tells of a room -/

open ConnectionManager

def bobListsHimself : Event :=
  .inbound .permissive
    { msgType := .sfuMembers
      sender := bob
      payload := .obj [("room_id", .str "den"), ("members", .arr [.str bob.text])] }

/-- With a session, Bob is a supernode that vouches for whom it lists. -/
theorem bob_vouches_with_session :
    Along (vouchStep .symbolic) (KeysVouched .symbolic)
        (.start alice.text ⟨∅⟩, fun _ _ => []) [.connectSupernode bob.text, bobListsHimself] ∧
      ((run (vouchStep .symbolic) (.start alice.text ⟨∅⟩, fun _ _ => [])
        [.connectSupernode bob.text]).1.handle .symbolic bobListsHimself).2 =
          [.groupKey bob.text "den" 0 (List.replicate 32 1)] := by
  refine ⟨roomKeys_go_to_vouched alice.text ⟨∅⟩ _ ⟨trivial, ?_, trivial⟩, by decide +kernel⟩
  intro msg hmsg htells
  cases hmsg
  exact ⟨by decide +kernel, by decide +kernel⟩

/-- Without one, Alice seals the room's key to him all the same. -/
theorem bob_vouches_without_session :
    ¬ Along (vouchStep .symbolic) (KeysVouched .symbolic)
      (.start alice.text ⟨∅⟩, fun _ _ => []) [bobListsHimself] := by
  rintro ⟨h, -⟩
  have hsealed : .groupKey bob.text "den" 0 (List.replicate 32 1) ∈
      ((ConnectionManager.start alice.text ⟨∅⟩).handle .symbolic bobListsHimself).2 := by
    decide +kernel
  obtain ⟨supernodeId, hmem⟩ := h.seals _ _ _ _ hsealed
  have hnone : toldAfter (.start alice.text ⟨∅⟩) (fun _ _ => []) bobListsHimself = fun _ _ => [] :=
    hear_of_no_session (by decide +kernel)
  rw [hnone] at hmem
  cases hmem

end ConquerD.Client
