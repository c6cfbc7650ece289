import ConquerD.Lib.Run
import ConquerD.Supernode.Sfu
import Mathlib.Data.List.Dedup

/-!
# Supernode: the active speakers of a room

The room forwards the frames of a few active speakers. Each of them has been heard in the
last moments; a frame is forwarded exactly if its sender is one of them when it has been
noted. As long as no more than the bound are heard in these moments nothing is shed. How
scores decay does not matter for any of this.
-/

namespace ConquerD.Supernode

open Std (ExtTreeMap)
open Lib.Run

variable {decay : Rat → Rat} {room : SFURoom} {sender : String} {now : Rat}

/-! ## One frame -/

theorem lt_of_weakestSpeaker {eff : String → Rat} {speakers : List String} {i : Nat} {w : Rat}
    (h : weakestSpeaker eff speakers = some (i, w)) : i < speakers.length := by
  have hfold : ∀ f : Option (Nat × Rat) → String × Nat → Option (Nat × Rat),
      (∀ acc e a, f acc e = some a → a.1 = e.2 ∨ acc = some a) →
      ∀ (es : List (String × Nat)) (acc : Option (Nat × Rat)),
        (∀ e ∈ es, e.2 < speakers.length) → (∀ a, acc = some a → a.1 < speakers.length) →
        ∀ a, es.foldl f acc = some a → a.1 < speakers.length := by
    intro f hf es
    induction es with
    | nil => exact fun acc _ hacc => hacc
    | cons e es ih =>
      intro acc hes hacc
      refine ih _ (fun e' he' => hes e' (List.mem_cons_of_mem _ he')) fun a ha => ?_
      rcases hf acc e a ha with heq | hin
      · rw [heq]
        exact hes e List.mem_cons_self
      · exact hacc a hin
  unfold weakestSpeaker at h
  refine hfold _ (fun acc e a ha => ?_) _ none (fun e he => List.snd_lt_of_mem_zipIdx he)
    (fun a ha => by cases ha) (i, w) h
  cases acc with
  | none =>
    cases ha
    exact .inl rfl
  | some b =>
    dsimp only at ha
    split at ha
    · cases ha
      exact .inl rfl
    · cases ha
      exact .inr rfl

namespace SFURoom

/-- The scores once a frame is counted and the silent are dropped. -/
def scoresAfter (decay : Rat → Rat) (room : SFURoom) (sender : String) (now : Rat) :
    ExtTreeMap String SpeakerScore :=
  (room.speakerScores.insert sender
    { score := (room.speakerScores[sender]?.getD { score := 0, lastActive := now }).effective decay
        now + 1
      lastActive := now }).filter fun _ s => now - s.lastActive ≤ speakerSilenceSecs

/-- The active speakers that are not silent. -/
def speakersKept (decay : Rat → Rat) (room : SFURoom) (sender : String) (now : Rat) :
    List String :=
  room.activeSpeakers.filter fun id => (room.scoresAfter decay sender now).contains id

/-- The room with the scores after a frame, and with other speakers. -/
def withSpeakers (decay : Rat → Rat) (room : SFURoom) (sender : String) (now : Rat)
    (active : List String) : SFURoom :=
  { room with speakerScores := room.scoresAfter decay sender now, activeSpeakers := active }

/-- What comes of a frame: its sender is active, has a free place, takes that of another, or
is shed. -/
inductive Noted (decay : Rat → Rat) (room : SFURoom) (sender : String) (now : Rat) :
    SFURoom × Bool → Prop
  | active : sender ∈ room.speakersKept decay sender now →
      Noted decay room sender now
        (room.withSpeakers decay sender now (room.speakersKept decay sender now), true)
  | admitted : sender ∉ room.speakersKept decay sender now →
      (room.speakersKept decay sender now).length < maxActiveSpeakers →
      Noted decay room sender now
        (room.withSpeakers decay sender now (room.speakersKept decay sender now ++ [sender]), true)
  | displaced (i : Nat) : sender ∉ room.speakersKept decay sender now →
      maxActiveSpeakers ≤ (room.speakersKept decay sender now).length →
      i < (room.speakersKept decay sender now).length →
      Noted decay room sender now
        (room.withSpeakers decay sender now ((room.speakersKept decay sender now).set i sender),
          true)
  | shed : sender ∉ room.speakersKept decay sender now →
      maxActiveSpeakers ≤ (room.speakersKept decay sender now).length →
      Noted decay room sender now
        (room.withSpeakers decay sender now (room.speakersKept decay sender now), false)

theorem noted (decay : Rat → Rat) (room : SFURoom) (sender : String) (now : Rat) :
    Noted decay room sender now (room.noteAudioShouldForward decay sender now) := by
  have hkept : room.activeSpeakers.filter (fun id =>
      (room.scoresAfter decay sender now).contains id) = room.speakersKept decay sender now := rfl
  unfold noteAudioShouldForward
  simp only [← scoresAfter.eq_def, hkept]
  by_cases hmem : sender ∈ room.speakersKept decay sender now
  · rw [if_pos hmem]
    exact .active hmem
  rw [if_neg hmem]
  by_cases hfree : (room.speakersKept decay sender now).length < maxActiveSpeakers
  · rw [if_pos hfree]
    exact .admitted hmem hfree
  rw [if_neg hfree]
  have hfull := Nat.le_of_not_lt hfree
  generalize (fun id : String => ((room.scoresAfter decay sender now)[id]?.map
    fun s : SpeakerScore => s.effective decay now).getD 0) = eff
  cases hweak : weakestSpeaker eff (room.speakersKept decay sender now) with
  | none => exact .shed hmem hfull
  | some weakest =>
    obtain ⟨i, w⟩ := weakest
    dsimp only
    split
    · exact .displaced i hmem hfull (lt_of_weakestSpeaker hweak)
    · exact .shed hmem hfull

theorem mem_scoresAfter_self (decay : Rat → Rat) (room : SFURoom) (sender : String) (now : Rat) :
    sender ∈ room.scoresAfter decay sender now := by
  rw [scoresAfter, ExtTreeMap.mem_iff_isSome_getElem?, ExtTreeMap.getElem?_filter',
    ExtTreeMap.getElem?_insert_self]
  have hsilence : 0 ≤ speakerSilenceSecs := by decide +kernel
  simp [hsilence]

theorem getElem?_scoresAfter {id : String} {s : SpeakerScore}
    (h : (room.scoresAfter decay sender now)[id]? = some s) :
    now - s.lastActive ≤ speakerSilenceSecs ∧
      (id = sender ∧ s.lastActive = now ∨ room.speakerScores[id]? = some s) := by
  rw [scoresAfter, ExtTreeMap.getElem?_filter', Option.filter_eq_some_iff, decide_eq_true_eq] at h
  obtain ⟨hget, hrecent⟩ := h
  refine ⟨hrecent, ?_⟩
  rw [ExtTreeMap.getElem?_insert] at hget
  split at hget
  · next hid =>
    cases hget
    exact .inl ⟨(Std.compare_eq_iff_eq.mp hid).symm, rfl⟩
  · exact .inr hget

theorem mem_speakersKept {id : String} : id ∈ room.speakersKept decay sender now ↔
    id ∈ room.activeSpeakers ∧ id ∈ room.scoresAfter decay sender now := by
  rw [speakersKept, List.mem_filter, ExtTreeMap.contains_iff_mem]

end SFURoom

/-! ## The invariant -/

/-- The speakers of a room against the frames it was sent, the last one first. -/
structure Speaking (room : SFURoom) (frames : List (String × Rat)) : Prop where
  nodup : room.activeSpeakers.Nodup
  length_le : room.activeSpeakers.length ≤ maxActiveSpeakers
  scored : ∀ id ∈ room.activeSpeakers, id ∈ room.speakerScores
  /-- A score is as of a frame. -/
  heard : ∀ (id : String) (s : SpeakerScore), room.speakerScores[id]? = some s →
    (id, s.lastActive) ∈ frames
  /-- At the last frame no score was of a silent speaker. -/
  live : ∀ (id : String) (s : SpeakerScore), room.speakerScores[id]? = some s →
    ∀ frame ∈ frames.head?, frame.2 - s.lastActive ≤ speakerSilenceSecs

namespace Speaking

variable {frames : List (String × Rat)}

theorem kept (h : Speaking room frames) (decay : Rat → Rat) (sender : String) (now : Rat) :
    (room.speakersKept decay sender now).Nodup ∧
      (room.speakersKept decay sender now).length ≤ maxActiveSpeakers :=
  ⟨h.nodup.filter _, (List.length_filter_le _ _).trans h.length_le⟩

theorem withSpeakers (h : Speaking room frames) {active : List String} (hnodup : active.Nodup)
    (hlength : active.length ≤ maxActiveSpeakers)
    (hscored : ∀ id ∈ active, id ∈ room.scoresAfter decay sender now) :
    Speaking (room.withSpeakers decay sender now active) ((sender, now) :: frames) where
  nodup := hnodup
  length_le := hlength
  scored := hscored
  heard id s hs := by
    obtain ⟨-, ⟨rfl, hlast⟩ | hold⟩ := SFURoom.getElem?_scoresAfter hs
    · rw [hlast]
      exact List.mem_cons_self
    · exact List.mem_cons_of_mem _ (h.heard id s hold)
  live id s hs frame hframe := by
    cases hframe
    exact (SFURoom.getElem?_scoresAfter hs).1

theorem note (h : Speaking room frames) (decay : Rat → Rat) (sender : String) (now : Rat) :
    Speaking (room.noteAudioShouldForward decay sender now).1 ((sender, now) :: frames) := by
  obtain ⟨hnodup, hlength⟩ := h.kept decay sender now
  have hself := room.mem_scoresAfter_self decay sender now
  have hscored : ∀ id ∈ room.speakersKept decay sender now,
      id ∈ room.scoresAfter decay sender now := fun id hid => (SFURoom.mem_speakersKept.mp hid).2
  generalize hr : room.noteAudioShouldForward decay sender now = r
  have hnoted := room.noted decay sender now
  rw [hr] at hnoted
  cases hnoted with
  | active _ => exact h.withSpeakers hnodup hlength hscored
  | admitted hnew hfree =>
    refine h.withSpeakers (List.concat_eq_append ▸ hnodup.concat hnew) ?_ fun id hid => ?_
    · rw [List.length_append, List.length_singleton]
      exact hfree
    · rcases List.mem_append.mp hid with hid | hid
      · exact hscored id hid
      · rw [List.mem_singleton.mp hid]
        exact hself
  | displaced i hnew _ _ =>
    refine h.withSpeakers (hnodup.set hnew) ?_ fun id hid => ?_
    · rw [List.length_set]
      exact hlength
    · rcases List.mem_or_eq_of_mem_set hid with hid | rfl
      · exact hscored id hid
      · exact hself
  | shed _ _ => exact h.withSpeakers hnodup hlength hscored

theorem forgetSpeaker (h : Speaking room frames) (peerId : String) :
    Speaking (room.forgetSpeaker peerId) frames := by
  have herased : ∀ (id : String) (s : SpeakerScore),
      (room.speakerScores.erase peerId)[id]? = some s →
      room.speakerScores[id]? = some s := by
    intro id s hs
    rw [ExtTreeMap.getElem?_erase] at hs
    split at hs
    · cases hs
    · exact hs
  refine ⟨h.nodup.filter _, (List.length_filter_le _ _).trans h.length_le, fun id hid => ?_,
    fun id s hs => h.heard id s (herased id s hs), fun id s hs => h.live id s (herased id s hs)⟩
  obtain ⟨hmem, hne⟩ := List.mem_filter.mp hid
  exact ExtTreeMap.mem_erase.mpr ⟨fun heq => of_decide_eq_true hne
    (Std.compare_eq_iff_eq.mp heq).symm, h.scored id hmem⟩

theorem of_same {room' : SFURoom} (h : Speaking room frames)
    (hscores : room'.speakerScores = room.speakerScores)
    (hactive : room'.activeSpeakers = room.activeSpeakers) : Speaking room' frames := by
  obtain ⟨hnodup, hlength, hscored, hheard, hlive⟩ := h
  rw [← hactive] at hnodup hlength
  rw [← hactive, ← hscores] at hscored
  rw [← hscores] at hheard hlive
  exact ⟨hnodup, hlength, hscored, hheard, hlive⟩

theorem markUnusedIfEmpty (h : Speaking room frames) (now : Rat) :
    Speaking (room.markUnusedIfEmpty now) frames := by
  unfold SFURoom.markUnusedIfEmpty
  split
  · exact h.of_same rfl rfl
  · exact h

end Speaking

/-! ## Runs -/

inductive SpeakerEvent where
  | frame (sender : String) (now : Rat)
  | addParticipant (peerId : String)
  | removeParticipant (peerId : String) (now : Rat)
  | removePeerEntirely (peerId : String) (now : Rat)

/-- A room, and the frames it was sent, the last one first. -/
structure SpeakerLog where
  room : SFURoom
  frames : List (String × Rat)

namespace SpeakerLog

def apply (decay : Rat → Rat) (L : SpeakerLog) : SpeakerEvent → SpeakerLog
  | .frame sender now =>
    ⟨(L.room.noteAudioShouldForward decay sender now).1, (sender, now) :: L.frames⟩
  | .addParticipant peerId => { L with room := (L.room.addParticipant peerId).1 }
  | .removeParticipant peerId now => { L with room := L.room.removeParticipant peerId now }
  | .removePeerEntirely peerId now => { L with room := (L.room.removePeerEntirely peerId now).1 }

def start (roomId roomName : String) (roomType : RoomType) (creatorId : String) : SpeakerLog :=
  ⟨.new roomId roomName roomType creatorId, []⟩

theorem speaking_start (roomId roomName : String) (roomType : RoomType) (creatorId : String) :
    Speaking (start roomId roomName roomType creatorId).room [] where
  nodup := List.nodup_nil
  length_le := Nat.zero_le _
  scored _ hid := absurd hid List.not_mem_nil
  heard id s hs := by
    rw [start, SFURoom.new, ExtTreeMap.getElem?_empty] at hs
    cases hs
  live id s hs := by
    rw [start, SFURoom.new, ExtTreeMap.getElem?_empty] at hs
    cases hs

variable {L : SpeakerLog}

theorem speaking_apply (h : Speaking L.room L.frames) (decay : Rat → Rat) (e : SpeakerEvent) :
    Speaking (L.apply decay e).room (L.apply decay e).frames := by
  cases e with
  | frame sender now => exact h.note decay sender now
  | addParticipant peerId =>
    dsimp only [apply, SFURoom.addParticipant]
    split
    · exact h
    · split
      · exact h
      · exact h.of_same rfl rfl
  | removeParticipant peerId now =>
    dsimp only [apply, SFURoom.removeParticipant]
    split
    · refine ((Speaking.of_same h ?_ ?_).markUnusedIfEmpty now).forgetSpeaker _
      · rfl
      · rfl
    · exact h
  | removePeerEntirely peerId now =>
    dsimp only [apply, SFURoom.removePeerEntirely]
    have hroom : Speaking { L.room with
        participants := L.room.participants.erase (normalizePublicId peerId)
        subscribers := L.room.subscribers.erase (normalizePublicId peerId) } L.frames :=
      h.of_same rfl rfl
    split
    · split
      · exact (hroom.forgetSpeaker _).markUnusedIfEmpty now
      · exact hroom.markUnusedIfEmpty now
    · split
      · exact hroom.forgetSpeaker _
      · exact hroom

theorem speaking_run (decay : Rat → Rat) (roomId roomName : String) (roomType : RoomType)
    (creatorId : String) (es : List SpeakerEvent) :
    Speaking (run (apply decay) (start roomId roomName roomType creatorId) es).room
      (run (apply decay) (start roomId roomName roomType creatorId) es).frames :=
  run_inv (fun L : SpeakerLog => Speaking L.room L.frames) (speaking_start roomId roomName roomType creatorId)
    fun _ e h => speaking_apply h decay e

end SpeakerLog

/-- The senders of the frames of the last moments. -/
def recentSenders (now : Rat) (frames : List (String × Rat)) : List String :=
  ((frames.filter fun frame => now - frame.2 ≤ speakerSilenceSecs).map Prod.fst).dedup

theorem forwarded_iff (decay : Rat → Rat) (room : SFURoom) (sender : String) (now : Rat) :
    (room.noteAudioShouldForward decay sender now).2 = true ↔
      sender ∈ (room.noteAudioShouldForward decay sender now).1.activeSpeakers := by
  have hnoted := room.noted decay sender now
  generalize room.noteAudioShouldForward decay sender now = r at hnoted ⊢
  cases hnoted with
  | active hmem => exact iff_of_true rfl hmem
  | admitted _ _ => exact iff_of_true rfl (List.mem_append_right _ List.mem_cons_self)
  | displaced i _ _ hi => exact iff_of_true rfl (List.mem_set hi sender)
  | shed hnew _ => exact iff_of_false Bool.false_ne_true hnew

/-- A frame that is shed came when more speakers than the bound were heard. -/
theorem Speaking.forwarded_of_recent {frames : List (String × Rat)} (h : Speaking room frames)
    (decay : Rat → Rat)
    (hfew : (recentSenders now ((sender, now) :: frames)).length ≤ maxActiveSpeakers) :
    (room.noteAudioShouldForward decay sender now).2 = true := by
  have hafter := h.note decay sender now
  have hnodup := (h.kept decay sender now).1
  have hnoted := room.noted decay sender now
  generalize room.noteAudioShouldForward decay sender now = r at hnoted hafter ⊢
  cases hnoted with
  | active _ => rfl
  | admitted _ _ => rfl
  | displaced _ _ _ _ => rfl
  | shed hnew hfull =>
    -- the active speakers and the sender are heard, one more than the bound
    have hheard : ∀ id ∈ room.scoresAfter decay sender now,
        id ∈ recentSenders now ((sender, now) :: frames) := by
      intro id hid
      rw [ExtTreeMap.mem_iff_isSome_getElem?, Option.isSome_iff_exists] at hid
      obtain ⟨s, hs⟩ := hid
      have hframe := hafter.heard id s hs
      have hrecent := (SFURoom.getElem?_scoresAfter hs).1
      exact List.mem_dedup.mpr (List.mem_map.mpr
        ⟨_, List.mem_filter.mpr ⟨hframe, decide_eq_true hrecent⟩, rfl⟩)
    have hsubset : sender :: room.speakersKept decay sender now ⊆
        recentSenders now ((sender, now) :: frames) := by
      intro id hid
      rcases List.mem_cons.mp hid with rfl | hid
      · exact hheard id (room.mem_scoresAfter_self decay id now)
      · exact hheard id (SFURoom.mem_speakersKept.mp hid).2
    have hlength := (List.nodup_cons.mpr ⟨hnew, hnodup⟩).length_le_of_subset hsubset
    rw [List.length_cons] at hlength
    omega

/-- Whatever is sent to a room and whoever leaves it: at most five speakers are active, each
with a score of the last moments; a frame is forwarded exactly if its sender is active then;
and as long as no more than five were heard in the last moments it is. -/
theorem speakers_gated (decay : Rat → Rat) (roomId roomName : String) (roomType : RoomType)
    (creatorId : String) (es : List SpeakerEvent) {L : SpeakerLog}
    (hrun : run (SpeakerLog.apply decay) (.start roomId roomName roomType creatorId) es = L) :
    L.room.activeSpeakers.Nodup ∧ L.room.activeSpeakers.length ≤ maxActiveSpeakers ∧
      (∀ id ∈ L.room.activeSpeakers, ∃ s, L.room.speakerScores[id]? = some s ∧
        (id, s.lastActive) ∈ L.frames ∧
        ∀ frame ∈ L.frames.head?, frame.2 - s.lastActive ≤ speakerSilenceSecs) ∧
      ∀ sender now,
        ((L.room.noteAudioShouldForward decay sender now).2 = true ↔
          sender ∈ (L.room.noteAudioShouldForward decay sender now).1.activeSpeakers) ∧
        ((recentSenders now ((sender, now) :: L.frames)).length ≤ maxActiveSpeakers →
          (L.room.noteAudioShouldForward decay sender now).2 = true) := by
  subst hrun
  have h := SpeakerLog.speaking_run decay roomId roomName roomType creatorId es
  refine ⟨h.nodup, h.length_le, fun id hid => ?_, fun sender now =>
    ⟨forwarded_iff decay _ sender now, h.forwarded_of_recent decay⟩⟩
  obtain ⟨s, hs⟩ := Option.isSome_iff_exists.mp
    (ExtTreeMap.mem_iff_isSome_getElem?.mp (h.scored id hid))
  exact ⟨s, hs, h.heard id s hs, h.live id s hs⟩

/-- Two speakers of which one leaves. -/
theorem speakers_gated_two :
    (((run (SpeakerLog.apply fun _ => 1) (.start "room" "Room" .publicRoom "owner")
      [.addParticipant "alice", .frame "alice" 0, .frame "bob" (1 / 50),
        .removeParticipant "alice" (1 / 25)]).room.noteAudioShouldForward (fun _ => 1) "carol"
          (1 / 20)).2) = true :=
  ((speakers_gated (fun _ => 1) "room" "Room" .publicRoom "owner"
    [.addParticipant "alice", .frame "alice" 0, .frame "bob" (1 / 50),
      .removeParticipant "alice" (1 / 25)] rfl).2.2.2 "carol" (1 / 20)).2 (by decide +kernel)

end ConquerD.Supernode
