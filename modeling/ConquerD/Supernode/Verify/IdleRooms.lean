import ConquerD.Supernode.Verify.SfuCalls

/-!
# Supernode: idle rooms

The time since when a room is empty is a shadow of its two member tables. Every
call keeps it: a room that has the time is unused, and an unused room has it, the
lobby aside, which is born without. So the collection takes rooms nobody is in.
-/

namespace ConquerD.Supernode

open Lib.Run Wire
open Std (ExtTreeMap ExtTreeSet)

/-- A room that says since when it is empty is empty, and one that is empty says so. -/
structure Stamped (key : String) (room : SFURoom) : Prop where
  unused : room.emptySince.isSome → room.isUnused
  stamped : key ≠ defaultRoomId → room.isUnused → room.emptySince.isSome

namespace Stamped

variable {key : String} {room room' : SFURoom} {now : Rat}

theorem of_eq (h : Stamped key room) (hused : room'.isUnused = room.isUnused)
    (hsince : room'.emptySince = room.emptySince) : Stamped key room' := by
  refine ⟨?_, ?_⟩
  · rw [hsince, hused]
    exact h.unused
  · rw [hsince, hused]
    exact h.stamped

theorem markInUse (h : room.isUnused = false) : Stamped key room.markInUse := by
  refine ⟨nofun, fun _ hunused => ?_⟩
  have hused : room.markInUse.isUnused = false := h
  rw [hused] at hunused
  cases hunused

theorem markUnusedIfEmpty (h : room.emptySince.isSome → room.isUnused) :
    Stamped key (room.markUnusedIfEmpty now) := by
  unfold SFURoom.markUnusedIfEmpty
  by_cases hunused : room.isUnused = true
  · rw [if_pos hunused]
    exact ⟨fun _ => hunused, fun _ _ => rfl⟩
  · rw [if_neg hunused]
    exact ⟨h, fun _ h' => absurd h' hunused⟩

theorem forgetSpeaker (h : Stamped key room) (p : String) : Stamped key (room.forgetSpeaker p) :=
  h.of_eq rfl rfl

theorem addParticipant (h : Stamped key room) (p : String) :
    Stamped key (room.addParticipant p).1 := by
  unfold SFURoom.addParticipant
  simp only
  split
  · exact h
  · split
    · exact h
    · refine markInUse ?_
      simp [SFURoom.isUnused]

theorem unused_of_fewer (h : Stamped key room)
    (hp : room.participants = ∅ → room'.participants = ∅)
    (hs : room.subscribers = ∅ → room'.subscribers = ∅) :
    room.emptySince.isSome → room'.isUnused := by
  intro hsome
  have hunused := h.unused hsome
  simp only [SFURoom.isUnused, Bool.and_eq_true, ExtTreeMap.isEmpty_iff,
    ExtTreeSet.isEmpty_iff] at hunused ⊢
  exact ⟨hp hunused.1, hs hunused.2⟩

theorem removeParticipant (h : Stamped key room) (p : String) :
    Stamped key (room.removeParticipant p now) := by
  unfold SFURoom.removeParticipant
  simp only
  split
  · refine Stamped.forgetSpeaker (markUnusedIfEmpty ?_) _
    refine h.unused_of_fewer ?_ id
    intro hempty
    simp [hempty]
  · exact h

theorem subscribe (h : Stamped key room) (p : String) : Stamped key (room.subscribe p) := by
  unfold SFURoom.subscribe
  simp only
  split
  · exact h
  · refine markInUse ?_
    simp [SFURoom.isUnused]

theorem unsubscribe (h : Stamped key room) (p : String) :
    Stamped key (room.unsubscribe p now) := by
  unfold SFURoom.unsubscribe
  simp only
  split
  · refine markUnusedIfEmpty ?_
    refine h.unused_of_fewer id ?_
    intro hempty
    simp [hempty]
  · exact h

theorem removePeerEntirely (h : Stamped key room) (p : String) :
    Stamped key (room.removePeerEntirely p now).1 := by
  have hkept : room.emptySince.isSome →
      ({ room with
        participants := room.participants.erase (normalizePublicId p)
        subscribers := room.subscribers.erase (normalizePublicId p) } : SFURoom).isUnused := by
    refine h.unused_of_fewer ?_ ?_
    · intro hempty
      simp [hempty]
    · intro hempty
      simp [hempty]
  unfold SFURoom.removePeerEntirely
  simp only
  cases hin : room.participants.contains (normalizePublicId p) with
  | true => exact markUnusedIfEmpty hkept
  | false =>
    cases hsub : room.subscribers.contains (normalizePublicId p) with
    | true => exact markUnusedIfEmpty hkept
    | false =>
      -- the peer was in neither table
      refine h.of_eq ?_ rfl
      have hp := ExtTreeMap.eq_empty_iff_erase_eq_empty_and_not_mem (t := room.participants)
        (normalizePublicId p)
      have hs := ExtTreeSet.eq_empty_iff_erase_eq_empty_and_not_mem (t := room.subscribers)
        (normalizePublicId p)
      simp only [ExtTreeMap.mem_iff_contains, hin, Bool.false_eq_true, not_false_eq_true,
        and_true] at hp
      simp only [ExtTreeSet.mem_iff_contains, hsub, Bool.false_eq_true, not_false_eq_true,
        and_true] at hs
      rw [Bool.eq_iff_iff]
      simp only [SFURoom.isUnused, Bool.or_false, Bool.false_eq_true, if_false, Bool.and_eq_true,
        ExtTreeMap.isEmpty_iff, ExtTreeSet.isEmpty_iff]
      rw [← hp, ← hs]

end Stamped

/-! ## The table -/

theorem stamped_roomInvariant : RoomInvariant Stamped where
  lobby := ⟨nofun, fun hne => absurd rfl hne⟩
  freshRoom _ _ _ _ _ _ := .markUnusedIfEmpty nofun
  addParticipant p _ _ h := h.addParticipant p
  leave p _ _ _ h := .markUnusedIfEmpty (h.removeParticipant p).unused
  removePeerEntirely p _ _ _ h := h.removePeerEntirely p
  noteAudio decay sender now _ room h := by
    obtain ⟨_, _, heq⟩ := room.noteAudio_fields decay sender now
    rw [heq]
    exact h.of_eq rfl rfl
  subscribe p _ _ h := h.subscribe p
  unsubscribe p _ _ _ h := h.unsubscribe p
  consume token p _ room h := by
    obtain ⟨_, _, heq⟩ := room.consume_fields token p
    rw [heq]
    exact h.of_eq rfl rfl
  allowPeer _ _ _ h := h.of_eq rfl rfl
  adopt _ _ _ h := h.of_eq rfl rfl
  mint _ _ _ _ h := h.of_eq rfl rfl

namespace SFURoomManager

variable {mgr : SFURoomManager}

/-! ## The collection -/

/-- A room that someone owns, that nobody is in, and that has been so for long enough. -/
structure Collectable (now idleSecs : Rat) (key : String) (room : SFURoom) : Prop where
  peerMade : key ≠ defaultRoomId
  owned : room.creatorId ≠ ""
  unused : room.isUnused
  idle : ∃ since, room.emptySince = some since ∧ idleSecs ≤ now - since

theorem getRoom_gcIdleRooms {now idleSecs : Rat} {key : String} {room : SFURoom}
    (h : mgr.getRoom key = some room) (hstamped : Stamped key room) :
    ((mgr.gcIdleRooms now idleSecs).getRoom key = none ∧ Collectable now idleSecs key room) ∨
    ((mgr.gcIdleRooms now idleSecs).getRoom key = some room ∧
      ¬ Collectable now idleSecs key room) := by
  change mgr.rooms[key]? = some room at h
  simp only [getRoom, gcIdleRooms]
  rw [ExtTreeMap.getElem?_filter', h]
  by_cases hkept : key = defaultRoomId ∨ room.creatorId = ""
  · right
    refine ⟨?_, fun hc => hkept.elim hc.peerMade hc.owned⟩
    rcases hkept with hkept | hkept
    · simp [hkept]
    · simp [hkept]
  · obtain ⟨hkey, howner⟩ := not_or.mp hkept
    cases hsince : room.emptySince with
    | none =>
      right
      refine ⟨by simp [hsince], fun hc => ?_⟩
      obtain ⟨since, hsome, -⟩ := hc.idle
      rw [hsince] at hsome
      cases hsome
    | some since =>
      by_cases hidle : now - since < idleSecs
      · right
        refine ⟨by simp [hsince, hidle], fun hc => ?_⟩
        obtain ⟨since', hsome, hle⟩ := hc.idle
        obtain rfl := Option.some.inj (hsince.symm.trans hsome)
        exact absurd hidle (not_lt.mpr hle)
      · left
        refine ⟨by simp [hkey, howner, hsince, hidle], hkey, howner, ?_, since, hsince,
          not_lt.mp hidle⟩
        exact hstamped.unused (by rw [hsince]; rfl)

/-- The times are kept with the members, and a collection takes the collectable rooms,
names them, and leaves every other room as it is. -/
structure IdleRoomsExact (mgr : SFURoomManager) : Prop where
  stamped : AllRooms Stamped mgr
  removes : ∀ now idleSecs key room, mgr.getRoom key = some room →
    ((mgr.gcIdleRooms now idleSecs).getRoom key = none ↔ Collectable now idleSecs key room)
  keeps : ∀ now idleSecs key room, (mgr.gcIdleRooms now idleSecs).getRoom key = some room ↔
    mgr.getRoom key = some room ∧ ¬ Collectable now idleSecs key room
  names : ∀ now idleSecs key, key ∈ mgr.idleRoomIds now idleSecs ↔
    ∃ room, mgr.getRoom key = some room ∧ Collectable now idleSecs key room

theorem idleRoomsExact_of_stamped (h : AllRooms Stamped mgr) : IdleRoomsExact mgr := by
  have hremoves : ∀ now idleSecs key room, mgr.getRoom key = some room →
      ((mgr.gcIdleRooms now idleSecs).getRoom key = none ↔
        Collectable now idleSecs key room) := by
    intro now idleSecs key room hk
    rcases getRoom_gcIdleRooms hk (h key room hk) with
      ⟨hnone, hc⟩ | ⟨hsome, hc⟩
    · exact ⟨fun _ => hc, fun _ => hnone⟩
    · refine ⟨fun hnone => ?_, fun hc' => absurd hc' hc⟩
      rw [hsome] at hnone
      cases hnone
  refine ⟨h, hremoves, ?_, ?_⟩
  · intro now idleSecs key room
    constructor
    · intro hkept
      have hroom : mgr.getRoom key = some room := by
        simp only [getRoom, gcIdleRooms, ExtTreeMap.getElem?_filter'] at hkept
        exact (Option.filter_eq_some_iff.mp hkept).1
      refine ⟨hroom, fun hc => ?_⟩
      rw [(hremoves now idleSecs key room hroom).mpr hc] at hkept
      cases hkept
    · rintro ⟨hroom, hc⟩
      rcases getRoom_gcIdleRooms hroom (h key room hroom) with
        ⟨-, hc'⟩ | ⟨hsome, -⟩
      · exact absurd hc' hc
      · exact hsome
  · intro now idleSecs key
    unfold idleRoomIds
    rw [List.mem_filter, ExtTreeMap.mem_keys, Option.isNone_iff_eq_none]
    constructor
    · rintro ⟨hmem, hnone⟩
      have hroom : mgr.getRoom key = some mgr.rooms[key] :=
        ExtTreeMap.getElem?_eq_some_getElem hmem
      exact ⟨_, hroom, (hremoves now idleSecs key _ hroom).mp hnone⟩
    · rintro ⟨room, hroom, hc⟩
      refine ⟨?_, (hremoves now idleSecs key room hroom).mpr hc⟩
      exact ExtTreeMap.mem_iff_isSome_getElem?.mpr (by
        rw [show mgr.rooms[key]? = some room from hroom]
        rfl)

/-- After any calls, from the node's start on. -/
theorem idle_rooms_exact (P : Platform) (calls : List SfuCall) :
    IdleRoomsExact (run (step P) .new calls) :=
  idleRoomsExact_of_stamped (stamped_roomInvariant.run P calls)

end SFURoomManager

end ConquerD.Supernode
