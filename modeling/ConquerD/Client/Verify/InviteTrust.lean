import ConquerD.Client.Verify.Keying
import ConquerD.Wire.Space

/-!
# Trust through invites

Who becomes trusted when a message arrives. The store is searched in an order
nobody controls, so a sender may be trusted when some order finds it so. The
invites the client has made are recorded beside the run, for the client itself
keeps no note of them.
-/

namespace ConquerD.Client

open Std (ExtTreeMap)
open Lib.Run Wire

namespace ConnectionManager

/-! ## Who may be trusted -/

/-- Some search order finds the sender trusted. -/
def MayTrust (store : PeerStore) (sender : String) : Prop :=
  ∃ order, isTrustedSender order store sender = true

/-- The sender was not trusted and is now. -/
def BecomesTrusted (store store' : PeerStore) (sender : String) : Prop :=
  ¬ MayTrust store sender ∧ MayTrust store' sender

section MayTrust

variable {store store' : PeerStore} {sender : String}

theorem mayTrust_iff : MayTrust store sender ↔
    (∃ r, store.get sender = some r ∧ r.trusted = true) ∨
      store.get sender = none ∧
        ∃ k r, store.get k = some r ∧ r.identityPub = sender ∧ r.trusted = true := by
  unfold MayTrust isTrustedSender
  cases hget : store.get sender with
  | some r => simp
  | none =>
    simp only [Option.orElse_none, reduceCtorEq, false_and, exists_false, true_and, false_or]
    constructor
    · rintro ⟨order, h⟩
      cases hr : store.getByIdentity order sender with
      | none => simp [hr] at h
      | some r =>
        unfold PeerStore.getByIdentity at hr
        obtain ⟨k, -, hk⟩ := List.mem_filterMap.mp (List.mem_of_find?_eq_some hr)
        refine ⟨k, r, hk, by simpa using List.find?_some hr, ?_⟩
        simpa [PeerStore.getByIdentity, hr] using h
    · rintro ⟨k, r, hk, hid, htrusted⟩
      exact ⟨[k], by simp [PeerStore.getByIdentity, hk, hid, htrusted]⟩

/-- What trust depends on in a record. -/
def trustOf (record : PeerRecord) : String × Bool :=
  (record.identityPub, record.trusted)

theorem MayTrust.of_trustOf_eq (h : ∀ k, (store'.get k).map trustOf = (store.get k).map trustOf)
    (ht : MayTrust store' sender) : MayTrust store sender := by
  have hsome : ∀ {k r}, store'.get k = some r → ∃ r', store.get k = some r' ∧
      r'.identityPub = r.identityPub ∧ r'.trusted = r.trusted := by
    intro k r hk
    have hmap := h k
    rw [hk, Option.map_some] at hmap
    obtain ⟨r', hr', heq⟩ := Option.map_eq_some_iff.mp hmap.symm
    exact ⟨r', hr', congrArg Prod.fst heq, congrArg Prod.snd heq⟩
  rw [mayTrust_iff] at ht ⊢
  rcases ht with ⟨r, hr, htrusted⟩ | ⟨hnone, k, r, hr, hid, htrusted⟩
  · obtain ⟨r', hr', -, heq⟩ := hsome hr
    exact .inl ⟨r', hr', by rw [heq, htrusted]⟩
  · obtain ⟨r', hr', hid', heq⟩ := hsome hr
    have hnone' : store.get sender = none := by
      have hmap := h sender
      rwa [hnone, Option.map_none, eq_comm, Option.map_eq_none_iff] at hmap
    exact .inr ⟨hnone', k, r', hr', by rw [hid', hid], by rw [heq, htrusted]⟩

theorem get_insert {k k' : String} {r : PeerRecord} :
    PeerStore.get ⟨store.records.insert k r⟩ k' = if k = k' then some r else store.get k' := by
  simp only [PeerStore.get, ExtTreeMap.getElem?_insert, Std.compare_eq_iff_eq]

theorem map_trustOf_insert {k : String} {r r' : PeerRecord} (hk : store.get k = some r)
    (htrust : trustOf r' = trustOf r) (k' : String) :
    (PeerStore.get ⟨store.records.insert k r'⟩ k').map trustOf =
      (store.get k').map trustOf := by
  rw [get_insert]
  split
  · rename_i heq
    rw [← heq, hk, Option.map_some, Option.map_some, htrust]
  · rfl

theorem mayTrust_insert {k : String} {r : PeerRecord} (hnone : store.get k = none)
    (htrusted : r.trusted = true) :
    MayTrust ⟨store.records.insert k r⟩ sender ↔
      MayTrust store sender ∨ k = sender ∨ store.get sender = none ∧ r.identityPub = sender := by
  by_cases hk : k = sender
  · simp only [hk, true_or, or_true, iff_true]
    exact mayTrust_iff.mpr (.inl ⟨r, by simp [get_insert], htrusted⟩)
  · simp only [mayTrust_iff, get_insert, hk, if_false, false_or]
    constructor
    · rintro (h | ⟨hsender, k', r', hk', hid, ht⟩)
      · exact .inl (.inl h)
      · split at hk'
        · cases hk'
          exact .inr ⟨hsender, hid⟩
        · exact .inl (.inr ⟨hsender, k', r', hk', hid, ht⟩)
    · rintro ((h | ⟨hsender, k', r', hk', hid, ht⟩) | ⟨hsender, hid⟩)
      · exact .inl h
      · refine .inr ⟨hsender, k', r', ?_, hid, ht⟩
        have hne : k ≠ k' := by
          rintro rfl
          rw [hnone] at hk'
          cases hk'
        rw [if_neg hne, hk']
      · exact .inr ⟨hsender, k, r, by simp, hid, htrusted⟩

end MayTrust

/-! ## Runs with the invites made -/

/-- The invites made, after an event. -/
def issuedAfter (c : ConnectionManager) (invites : List InvitePayload) :
    Event → List InvitePayload
  | .generateInvite env => invites ++ [c.generateInvite env]
  | _ => invites

/-- One event, with the invites made recorded beside the state. -/
def issueStep (P : Platform) (s : ConnectionManager × List InvitePayload) (e : Event) :
    ConnectionManager × List InvitePayload :=
  (s.1.step P e, issuedAfter s.1 s.2 e)

variable (P : Platform) (env : Env) (c : ConnectionManager) (invites : List InvitePayload)
  (msg : SignalingMessage)

def inviteIdOf : String :=
  (msg.payload.str? "invite_id").getD ""

/-- The message names an invite that was made and has not expired. -/
def HoldsInvite : Prop :=
  ∃ invite ∈ invites, invite.inviteId = inviteIdOf msg ∧ env.nowSecs ≤ invite.expiresAt

/-! ## What handshakes should do -/

/-- A joiner's message makes nobody trusted but its signer, and that by an
invite; it touches the signer's records only, and no flag is lifted. -/
structure InitByInvite (store store' : PeerStore) : Prop where
  invited : ∀ p : PublicId, BecomesTrusted store store' p.text →
    bare p.text = bare msg.sender.text ∧ HoldsInvite env invites msg
  own : ∀ k r, store'.get k ≠ store.get k → store.get k = some r ∨ store'.get k = some r →
    bare r.identityPub = bare msg.sender.text
  flagged : ∀ k r, store.get k = some r → ∃ r', store'.get k = some r' ∧
    (r.blocked = true → r'.blocked = true) ∧ (r.revoked = true → r'.revoked = true)

/-- An acceptance makes somebody trusted only when its signer is the inviter of
the pending invite it names. -/
def AcceptByInviter (store' : PeerStore) : Prop :=
  ∀ p : PublicId, BecomesTrusted c.peerStore store' p.text →
    ∃ pending, c.pendingInvites[inviteIdOf msg]? = some pending ∧
      bare msg.sender.text = bare pending.inviterIdentityPub

/-- Trust comes by invites: what an inbound message may do to trust. -/
def TrustByInvite (s : ConnectionManager × List InvitePayload) : Event → Prop
  | .inbound env outer =>
    match dispatched env outer with
    | none => (s.1.step P (.inbound env outer)).peerStore = s.1.peerStore
    | some msg =>
      match msg.msgType with
      | .inviteHandshakeInit =>
        InitByInvite env s.2 msg s.1.peerStore (s.1.step P (.inbound env outer)).peerStore
      | .inviteHandshakeAccept =>
        AcceptByInviter s.1 msg (s.1.step P (.inbound env outer)).peerStore
      | _ => ∀ p : PublicId,
        ¬ BecomesTrusted s.1.peerStore (s.1.step P (.inbound env outer)).peerStore p.text
  | _ => True

/-! ## What the handlers leave to the sender -/

/-- A record under the peer id the joiner gives is the signer's own. Without
one, the signer has an invite unless it has a record under its own id or is
trusted already, and the peer id is no other peer's public id. -/
def InitHonest (store : PeerStore) : Prop :=
  match store.get (joinerPeerId msg) with
  | some r => bare r.identityPub = bare msg.sender.text
  | none =>
    (store.get msg.sender.text = none →
      MayTrust store msg.sender.text ∨ HoldsInvite env invites msg) ∧
    (IsPublicId (joinerPeerId msg) → MayTrust store (joinerPeerId msg) ∨
      bare (joinerPeerId msg) = bare msg.sender.text ∧ HoldsInvite env invites msg)

/-- An acceptance with the particulars of a pending invite is its inviter's. -/
def AcceptHonest : Prop :=
  ∀ pending, c.pendingInvites[inviteIdOf msg]? = some pending →
    acceptIdentityPub msg = pending.inviterIdentityPub →
    acceptPeerId msg = pending.inviterPeerId →
    bare msg.sender.text = bare pending.inviterIdentityPub

/-- Every handshake message is honest. -/
def HandshakesHonest (s : ConnectionManager × List InvitePayload) : Event → Prop
  | .inbound env outer => ∀ msg, dispatched env outer = some msg →
    (msg.msgType = .inviteHandshakeInit → InitHonest env s.2 msg s.1.peerStore) ∧
      (msg.msgType = .inviteHandshakeAccept → AcceptHonest s.1 msg)
  | _ => True

variable {P env c invites msg}

/-! ## The inviter's side -/

theorem trustOf_refreshedRecord {r : PeerRecord} :
    trustOf (refreshedRecord env msg r) = trustOf r := rfl

theorem refreshed_becomesTrusted {store : PeerStore} {r : PeerRecord} {sender : String}
    (hr : store.get (joinerPeerId msg) = some r) :
    ¬ BecomesTrusted store
      ⟨store.records.insert (joinerPeerId msg) (refreshedRecord env msg r)⟩ sender := by
  rintro ⟨hnot, hmay⟩
  exact hnot (hmay.of_trustOf_eq (map_trustOf_insert hr trustOf_refreshedRecord))

theorem refreshed_initByInvite {store : PeerStore} {r : PeerRecord}
    (hr : store.get (joinerPeerId msg) = some r)
    (hown : bare r.identityPub = bare msg.sender.text) :
    InitByInvite env invites msg store
      ⟨store.records.insert (joinerPeerId msg) (refreshedRecord env msg r)⟩ := by
  refine ⟨fun p hp => absurd hp (refreshed_becomesTrusted hr), ?_, ?_⟩
  · intro k r' hne hr'
    rw [get_insert] at hne hr'
    split at hne
    · rename_i hk
      subst hk
      simp only [hr, if_pos, Option.some.injEq] at hr'
      rcases hr' with rfl | rfl
      · exact hown
      · exact hown
    · exact absurd rfl hne
  · intro k r' hr'
    rw [get_insert]
    split
    · rename_i hk
      rw [← hk, hr, Option.some.injEq] at hr'
      subst hr'
      exact ⟨_, rfl, id, id⟩
    · exact ⟨r', hr', id, id⟩

theorem filed_initByInvite {store : PeerStore} (hnone : store.get (joinerPeerId msg) = none) :
    InitByInvite env invites msg store
        ⟨store.records.insert (joinerPeerId msg) (joinerRecord env msg)⟩ ↔
      (store.get msg.sender.text = none →
        MayTrust store msg.sender.text ∨ HoldsInvite env invites msg) ∧
      (IsPublicId (joinerPeerId msg) → MayTrust store (joinerPeerId msg) ∨
        bare (joinerPeerId msg) = bare msg.sender.text ∧ HoldsInvite env invites msg) := by
  have hmay : ∀ {sender}, MayTrust ⟨store.records.insert (joinerPeerId msg)
      (joinerRecord env msg)⟩ sender ↔ MayTrust store sender ∨ joinerPeerId msg = sender ∨
        store.get sender = none ∧ msg.sender.text = sender :=
    mayTrust_insert hnone rfl
  constructor
  · intro h
    constructor
    · intro hsender
      by_cases hold : MayTrust store msg.sender.text
      · exact .inl hold
      · exact .inr (h.invited msg.sender ⟨hold, hmay.mpr (.inr (.inr ⟨hsender, rfl⟩))⟩).2
    · intro hid
      by_cases hold : MayTrust store (joinerPeerId msg)
      · exact .inl hold
      · exact .inr (h.invited ⟨_, hid⟩ ⟨hold, hmay.mpr (.inr (.inl rfl))⟩)
  · rintro ⟨hsender, hjoiner⟩
    refine ⟨?_, ?_, ?_⟩
    · rintro p ⟨hnot, hnew⟩
      rcases hmay.mp hnew with hold | hk | ⟨hp, heq⟩
      · exact absurd hold hnot
      · rw [← hk] at hnot ⊢
        exact (hjoiner (hk ▸ p.valid)).resolve_left hnot
      · rw [← heq] at hnot hp ⊢
        exact ⟨rfl, (hsender hp).resolve_left hnot⟩
    · intro k r hne hr
      rw [get_insert] at hne hr
      split at hne
      · rename_i hk
        subst hk
        rw [hnone, if_pos rfl] at hr
        simp only [reduceCtorEq, Option.some.injEq, false_or] at hr
        rw [← hr]
        rfl
      · exact absurd rfl hne
    · intro k r hr
      have hk : joinerPeerId msg ≠ k := by
        rintro rfl
        rw [hnone] at hr
        cases hr
      exact ⟨r, by rw [get_insert, if_neg hk, hr], id, id⟩

theorem handleInviteHandshakeInit_byInvite (h : InitHonest env invites msg c.peerStore) :
    InitByInvite env invites msg c.peerStore
      (c.handleInviteHandshakeInit env msg).1.peerStore := by
  unfold handleInviteHandshakeInit
  unfold InitHonest at h
  cases hget : c.peerStore.get (joinerPeerId msg) with
  | some r =>
    rw [hget] at h
    exact refreshed_initByInvite hget h
  | none =>
    rw [hget] at h
    exact (filed_initByInvite hget).mpr h

/-! ## The joiner's side -/

theorem handleInviteHandshakeAccept_byInviter (h : AcceptHonest c msg) :
    AcceptByInviter c msg (c.handleInviteHandshakeAccept env msg).peerStore := by
  rintro p ⟨hnot, hmay⟩
  simp only [handleInviteHandshakeAccept] at hmay
  split at hmay
  · exact absurd hmay hnot
  · rename_i pending hpending
    split at hmay
    · exact absurd hmay hnot
    · rename_i hmatch
      simp only [ne_eq, not_or, not_not] at hmatch
      exact ⟨pending, hpending, h pending hpending hmatch.1 hmatch.2⟩

/-! ## Other messages -/

theorem handleHandleUpdate_becomesTrusted {sender : String} :
    ¬ BecomesTrusted c.peerStore (c.handleHandleUpdate env msg).peerStore sender := by
  rintro ⟨hnot, hmay⟩
  simp only [handleHandleUpdate] at hmay
  split at hmay
  · exact hnot hmay
  · split at hmay
    · exact hnot hmay
    · rename_i k record hkey
      obtain ⟨k', -, hk'⟩ := Option.bind_eq_some_iff.mp hkey
      obtain ⟨r, hr, heq⟩ := Option.map_eq_some_iff.mp hk'
      cases heq
      refine hnot (MayTrust.of_trustOf_eq ?_ hmay)
      exact map_trustOf_insert hr rfl

theorem confirmFailover_peerStore {roomId : String} :
    (c.confirmFailover msg roomId).peerStore = c.peerStore := by
  unfold confirmFailover
  split
  · rfl
  · rfl

theorem syncRoomMembership_peerStore {supernodeId roomId : String} {members : List String} :
    (c.syncRoomMembership P env supernodeId roomId members).1.peerStore = c.peerStore :=
  syncRoomMembership_keying.peerStore

theorem handleSfuRoomCreated_peerStore :
    (c.handleSfuRoomCreated env msg).1.peerStore = c.peerStore := by
  simp only [handleSfuRoomCreated, sendRoomJoin, forgetRoom, dropPendingOfRoom]
  repeat' split
  all_goals rfl

theorem dispatch_peerStore (hhandle : msg.msgType ≠ .handleUpdate)
    (hinit : msg.msgType ≠ .inviteHandshakeInit)
    (haccept : msg.msgType ≠ .inviteHandshakeAccept) :
    (c.dispatch P env msg).1.peerStore = c.peerStore := by
  unfold dispatch
  cases htype : msg.msgType with
  | handleUpdate => exact absurd htype hhandle
  | inviteHandshakeInit => exact absurd htype hinit
  | inviteHandshakeAccept => exact absurd htype haccept
  | peerTraffic =>
    simp only
    split
    · rfl
    · rfl
  | sfuGroupKey => exact handleSfuGroupKey_keying.peerStore
  | sfuGroupKeyAck => exact handleSfuGroupKeyAck_keying.peerStore
  | sfuMembers => exact syncRoomMembership_peerStore.trans confirmFailover_peerStore
  | sfuPeerJoined => exact syncRoomMembership_peerStore
  | sfuPeerLeft => exact syncRoomMembership_peerStore
  | sfuChat => exact handleSfuChat_keying.peerStore
  | sfuAudio => exact handleSfuAudio_keying.peerStore
  | sfuRoomCreated => exact handleSfuRoomCreated_peerStore
  | encryptedSignal => rfl
  | other => rfl

/-! ## Whole runs -/

theorem trustByInvite_of_honest {s : ConnectionManager × List InvitePayload} {e : Event}
    (h : HandshakesHonest s e) : TrustByInvite P s e := by
  cases e with
  | inbound env outer =>
    simp only [TrustByInvite, step, handle, handleInbound]
    cases hmsg : dispatched env outer with
    | none => rfl
    | some msg =>
      obtain ⟨hinit, haccept⟩ := h msg hmsg
      simp only
      split
      · rename_i htype
        simp only [dispatch, htype]
        exact handleInviteHandshakeInit_byInvite (hinit htype)
      · rename_i htype
        simp only [dispatch, htype]
        exact handleInviteHandshakeAccept_byInviter (haccept htype)
      · rename_i hnotInit hnotAccept
        intro p
        by_cases htype : msg.msgType = .handleUpdate
        · simp only [dispatch, htype]
          exact handleHandleUpdate_becomesTrusted
        · rw [dispatch_peerStore htype hnotInit hnotAccept]
          exact fun hp => hp.1 hp.2
  | _ => trivial

/-- In every run in which every joiner's message carries a live invite unless
its signer needs none, names no other peer's record or id, and every acceptance
with a pending invite's particulars is signed by its inviter, trust comes by
invites. -/
theorem trust_comes_by_invites (publicId : String) (store : PeerStore) (es : List Event)
    (h : Along (issueStep P) HandshakesHonest (.start publicId store, []) es) :
    Along (issueStep P) (TrustByInvite P) (.start publicId store, []) es :=
  h.imp_inv (fun _ => True) trivial (fun _ _ _ _ => trivial)
    fun _ _ _ => trustByInvite_of_honest

end ConnectionManager

/-! ## Bob joins -/

open ConnectionManager

/-- Bob's first message to the one who may have invited him. -/
def bobJoins : Event :=
  .inbound .permissive
    { msgType := .inviteHandshakeInit
      sender := bob
      payload := .obj [("invite_id", .str "invite-1"), ("joiner_peer_id", .str "bobs-device")] }

theorem mayTrust_empty {sender : String} : ¬ MayTrust ⟨∅⟩ sender := by
  simp [mayTrust_iff, PeerStore.get]

/-- Alice makes an invite and Bob joins with its id. -/
theorem bob_joins_by_invite :
    Along (issueStep .symbolic) (TrustByInvite .symbolic) (.start alice.text ⟨∅⟩, [])
        [.generateInvite .permissive, bobJoins] ∧
      isTrustedSender ["bobs-device"]
        (run (issueStep .symbolic) (.start alice.text ⟨∅⟩, [])
          [.generateInvite .permissive, bobJoins]).1.peerStore bob.text = true := by
  refine ⟨trust_comes_by_invites alice.text ⟨∅⟩ _ ⟨trivial, ?_, trivial⟩, by decide +kernel⟩
  intro msg hmsg
  cases hmsg
  refine ⟨fun _ => ?_, fun haccept => by cases haccept⟩
  refine ⟨fun _ => .inr ⟨_, List.mem_singleton_self _, rfl, by decide⟩, fun hid => ?_⟩
  exact absurd hid (by decide +kernel)

/-- Alice made no invite, and Bob joins all the same. -/
theorem bob_joins_uninvited :
    ¬ Along (issueStep .symbolic) (TrustByInvite .symbolic) (.start alice.text ⟨∅⟩, [])
      [bobJoins] := by
  rintro ⟨h, -⟩
  have hnone : ∀ k, (start alice.text ⟨∅⟩).peerStore.get k = none := by
    simp [start, PeerStore.get]
  have hhonest := (filed_initByInvite (hnone _)).mp h
  rcases hhonest.1 (hnone _) with hmay | ⟨invite, hmem, -⟩
  · exact mayTrust_empty hmay
  · cases hmem

end ConquerD.Client
