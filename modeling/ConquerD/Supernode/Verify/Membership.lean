import ConquerD.Supernode.Verify.Frame

/-!
# Who is in a room

`IsParticipant` reads the participant table of one room, in canonical spelling.
Admission only ever adds participants, and a departure takes away the peer that
departs and nobody else.
-/

namespace ConquerD.Supernode

open Std (ExtTreeMap)
open Wire

/-- The canonical id is a participant of the room. -/
def IsParticipant (mgr : SFURoomManager) (r q : String) : Prop :=
  ∃ room, mgr.getRoom r = some room ∧ q ∈ room.participants

/-- Some spelling of the bare id is a participant of the room. -/
def Participates (mgr : SFURoomManager) (r p : String) : Prop :=
  ∃ q, IsParticipant mgr r q ∧ bare q = p

/-- Everyone who was in a room still is. -/
def KeepsParticipants (mgr mgr' : SFURoomManager) : Prop :=
  ∀ r q, IsParticipant mgr r q → IsParticipant mgr' r q

namespace KeepsParticipants

variable {mgr mgr' mgr'' : SFURoomManager}

theorem refl (mgr : SFURoomManager) : KeepsParticipants mgr mgr := fun _ _ h => h

theorem trans (h : KeepsParticipants mgr mgr') (h' : KeepsParticipants mgr' mgr'') :
    KeepsParticipants mgr mgr'' := fun r q hq => h' r q (h r q hq)

theorem setRoom {r : String} {room : SFURoom}
    (h : ∀ old, mgr.getRoom r = some old → ∀ q, q ∈ old.participants → q ∈ room.participants) :
    KeepsParticipants mgr (mgr.setRoom r room) := by
  rintro r' q ⟨old, hold, hq⟩
  by_cases heq : r = r'
  · subst heq
    exact ⟨room, by simp, h old hold q hq⟩
  · exact ⟨old, by simp [heq, hold], hq⟩

theorem createRoomWithPolicy (mgr : SFURoomManager) (r name : String) (ty : RoomType)
    (creator policy : String) (now : Rat) :
    KeepsParticipants mgr (mgr.createRoomWithPolicy r name ty creator policy now).1 := by
  cases hr : mgr.getRoom r with
  | some room =>
    rw [SFURoomManager.createRoomWithPolicy_of_some hr]
    exact refl mgr
  | none =>
    rw [SFURoomManager.createRoomWithPolicy_of_none hr]
    refine setRoom ?_
    intro old hold
    rw [hr] at hold
    cases hold

theorem adoptCreatorIfEmpty (mgr : SFURoomManager) (r owner : String) :
    KeepsParticipants mgr (mgr.adoptCreatorIfEmpty r owner) := by
  unfold SFURoomManager.adoptCreatorIfEmpty
  split
  · exact refl mgr
  · split
    · rename_i room hr
      split
      · refine setRoom ?_
        intro old hold q hq
        cases hr.symm.trans hold
        exact hq
      · exact refl mgr
    · exact refl mgr

theorem allowPeer (mgr : SFURoomManager) (r p : String) :
    KeepsParticipants mgr (mgr.allowPeer r p) := by
  unfold SFURoomManager.allowPeer
  split
  · exact refl mgr
  · rename_i room hr
    refine setRoom ?_
    intro old hold q hq
    cases hr.symm.trans hold
    exact hq

theorem reregisterInviteToken (mgr : SFURoomManager) (r token by_ : String) :
    KeepsParticipants mgr (mgr.reregisterInviteToken r token by_).1 := by
  unfold SFURoomManager.reregisterInviteToken
  split
  · exact refl mgr
  · rename_i room hr
    refine setRoom ?_
    intro old hold q hq
    cases hr.symm.trans hold
    unfold SFURoom.reregisterInviteToken
    split <;> exact hq

theorem joinRoom (mgr : SFURoomManager) (p r : String) :
    KeepsParticipants mgr (mgr.joinRoom p r).1 := by
  unfold SFURoomManager.joinRoom
  simp only
  split
  · exact refl mgr
  · rename_i room hr
    split
    · refine setRoom ?_
      intro old hold q hq
      cases hr.symm.trans hold
      unfold SFURoom.addParticipant
      simp only
      split
      · exact hq
      · split
        · exact hq
        · exact ExtTreeMap.mem_insert.mpr (.inr hq)
    · exact refl mgr

end KeepsParticipants

/-! ## Joining -/

theorem isParticipant_of_joinRoom {mgr : SFURoomManager} {p r : String}
    (hok : (mgr.joinRoom p r).2.1 = true) :
    IsParticipant (mgr.joinRoom p r).1 r (normalizePublicId p) := by
  unfold SFURoomManager.joinRoom at hok ⊢
  simp only at hok ⊢
  split at hok
  · cases hok
  · rename_i room hr
    split at hok
    · rename_i hallowed
      simp only [if_pos hallowed]
      refine ⟨_, by rw [SFURoomManager.getRoom_setRoom, if_pos rfl], ?_⟩
      unfold SFURoom.addParticipant at hok ⊢
      simp only [normalizePublicId_idem] at hok ⊢
      split at hok
      · rename_i hin
        rw [if_pos hin]
        exact ExtTreeMap.mem_iff_contains.mpr hin
      · rename_i hin
        split at hok
        · cases hok
        · rename_i hfull
          rw [if_neg hin, if_neg hfull]
          simp [SFURoom.markInUse]
    · cases hok

namespace SupernodeState

variable {P : Platform} {env : Env} {st : SupernodeState} {msg : SignalingMessage}

theorem trySpaceAdmission_keeps {sender roomId : String} {payload : Json} :
    KeepsParticipants st.sfu (st.trySpaceAdmission P env sender roomId payload).1.1.sfu := by
  by_cases hv : ∃ proof root, ProofVerifies P st roomId payload proof root
  · obtain ⟨proof, root, hv⟩ := hv
    have hmade : KeepsParticipants st.sfu (sfuMaterialized env st roomId proof.node) :=
      (KeepsParticipants.createRoomWithPolicy _ _ _ _ _ _ _).trans (.adoptCreatorIfEmpty _ _ _)
    rw [(trySpaceAdmission_of_verifies hv).2]
    split
    · exact hmade.trans
        ((KeepsParticipants.createRoomWithPolicy _ _ _ _ _ _ _).trans (.allowPeer _ _ _))
    · exact hmade
  · push Not at hv
    rw [(trySpaceAdmission_of_not_verifies hv).2]
    exact .refl _

theorem admitByJoinToken_keeps {roomId sender token : String} :
    KeepsParticipants st.sfu (st.admitByJoinToken roomId sender token).sfu := by
  unfold admitByJoinToken
  simp only
  split
  · exact (KeepsParticipants.reregisterInviteToken _ _ _ _).trans (.allowPeer _ _ _)
  · exact .reregisterInviteToken _ _ _ _

theorem admittedForJoin_keeps : KeepsParticipants st.sfu (st.admittedForJoin P env msg).sfu := by
  unfold admittedForJoin
  split
  · exact trySpaceAdmission_keeps
  · exact trySpaceAdmission_keeps.trans admitByJoinToken_keeps

end SupernodeState

/-! ## Departing -/

variable {mgr : SFURoomManager} {r r' p q : String} {now : Rat}

/-- A room that is written back or dropped when empty keeps its participants. -/
theorem isParticipant_dropIfAnonymous {room : SFURoom} (hq : q ∈ room.participants) :
    IsParticipant (mgr.dropIfAnonymous r room) r q := by
  unfold SFURoomManager.dropIfAnonymous
  rw [if_neg]
  · exact ⟨room, by simp, hq⟩
  · simp only [SFURoom.isUnused, Bool.and_eq_true, not_and]
    intro hunused
    have hempty := ExtTreeMap.isEmpty_iff.mp hunused.1.1
    simp [hempty] at hq

theorem isParticipant_dropIfAnonymous_of_ne {room : SFURoom} (hne : r ≠ r')
    (hq : IsParticipant mgr r' q) : IsParticipant (mgr.dropIfAnonymous r room) r' q := by
  obtain ⟨room', hroom', hq⟩ := hq
  refine ⟨room', ?_, hq⟩
  unfold SFURoomManager.dropIfAnonymous
  split
  · simpa [SFURoomManager.getRoom, ExtTreeMap.getElem?_erase, hne] using hroom'
  · simp [hne, hroom']

theorem mem_removeParticipant {room : SFURoom} (hq : q ∈ room.participants)
    (hne : q ≠ normalizePublicId p) : q ∈ (room.removeParticipant p now).participants := by
  unfold SFURoom.removeParticipant
  simp only
  split
  · simp only [SFURoom.forgetSpeaker, SFURoom.markUnusedIfEmpty_participants,
      ExtTreeMap.mem_erase, ne_eq, Std.compare_eq_iff_eq]
    exact ⟨fun heq => hne heq.symm, hq⟩
  · exact hq

theorem isParticipant_leaveRoom (hq : IsParticipant mgr r' q)
    (hne : r = r' → q ≠ normalizePublicId p) :
    IsParticipant (mgr.leaveRoom p r now).1 r' q := by
  unfold SFURoomManager.leaveRoom
  split
  · exact hq
  · rename_i room hr
    by_cases heq : r = r'
    · subst heq
      obtain ⟨room', hroom', hq⟩ := hq
      cases hr.symm.trans hroom'
      refine isParticipant_dropIfAnonymous ?_
      rw [SFURoom.markUnusedIfEmpty_participants]
      exact mem_removeParticipant hq (hne rfl)
    · exact isParticipant_dropIfAnonymous_of_ne heq hq

theorem removePeerEntirely_participants {room : SFURoom} :
    (room.removePeerEntirely p now).1.participants =
      room.participants.erase (normalizePublicId p) := by
  unfold SFURoom.removePeerEntirely
  simp only
  cases room.participants.contains (normalizePublicId p) with
  | true => exact SFURoom.markUnusedIfEmpty_participants
  | false =>
    cases room.subscribers.contains (normalizePublicId p) with
    | true => exact SFURoom.markUnusedIfEmpty_participants
    | false => rfl

theorem mem_removePeerEntirely {room : SFURoom} (hq : q ∈ room.participants)
    (hne : q ≠ normalizePublicId p) : q ∈ (room.removePeerEntirely p now).1.participants := by
  rw [removePeerEntirely_participants, ExtTreeMap.mem_erase]
  refine ⟨?_, hq⟩
  intro heq
  exact hne (Std.compare_eq_iff_eq.mp heq).symm

theorem isParticipant_removePeerFromAll (hq : IsParticipant mgr r' q)
    (hne : q ≠ normalizePublicId p) : IsParticipant (mgr.removePeerFromAll p now).1 r' q := by
  unfold SFURoomManager.removePeerFromAll
  simp only
  generalize List.map _ _ = ids
  suffices hloop : ∀ acc : SFURoomManager × List (String × List String),
      IsParticipant acc.1 r' q → IsParticipant (ids.foldl _ acc).1 r' q from hloop (mgr, []) hq
  induction ids with
  | nil => exact fun acc hacc => hacc
  | cons r ids ih =>
    intro acc hacc
    rw [List.foldl_cons]
    refine ih _ ?_
    split
    · exact hacc
    · rename_i room hr
      -- the room in hand loses the departing peer; the others are not touched
      by_cases heq : r = r'
      · subst heq
        obtain ⟨room', hroom', hq'⟩ := hacc
        cases hr.symm.trans hroom'
        have hkept : q ∈ (room.removePeerEntirely (normalizePublicId p) now).1.participants :=
          mem_removePeerEntirely hq' (by rwa [normalizePublicId_idem])
        split
        · exact isParticipant_dropIfAnonymous hkept
        · exact ⟨_, by simp, hkept⟩
      · split
        · exact isParticipant_dropIfAnonymous_of_ne heq hacc
        · obtain ⟨room', hroom', hq'⟩ := hacc
          exact ⟨room', by simp [heq, hroom'], hq'⟩

end ConquerD.Supernode
