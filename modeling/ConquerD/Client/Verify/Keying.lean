import ConquerD.Client.Manager

/-!
# What keying a room does

Minting, rotating, sealing and resealing keys touch room keys and outstanding
confirmations, and nothing else, and forget no room. Every key they seal for a
room goes to a member of the union of the snapshots held for it.
-/

namespace ConquerD.Client

open Std (ExtTreeMap ExtTreeSet)
open Lib.Rosters Wire

theorem mem_unionMembersForRoom {snapshots : Roster String String} {roomId m : String} :
    m ∈ unionMembersForRoom snapshots roomId ↔
      ∃ key set, snapshots[key]? = some set ∧ endsWithRoom key roomId = true ∧ m ∈ set := by
  have hfold : ∀ (entries : List (String × ExtTreeSet String)) (union : ExtTreeSet String),
      m ∈ entries.foldl (fun union p => if endsWithRoom p.1 roomId then
          union.insertMany p.2.toList else union) union ↔
        m ∈ union ∨ ∃ p ∈ entries, endsWithRoom p.1 roomId = true ∧ m ∈ p.2 := by
    intro entries
    induction entries with
    | nil => simp
    | cons p entries ih =>
      intro union
      rw [List.foldl_cons, ih]
      by_cases hp : endsWithRoom p.1 roomId = true
      · simp [hp, ExtTreeSet.mem_insertMany_list, or_assoc]
      · simp [hp]
  unfold unionMembersForRoom
  rw [ExtTreeMap.foldl_eq_foldl_toList, hfold]
  simp only [ExtTreeSet.not_mem_empty, false_or, Prod.exists,
    ExtTreeMap.mem_toList_iff_getElem?_eq_some]

namespace SenderKeysGroup

variable {g : SenderKeysGroup} {convId r : String} {now epoch : Nat} {key : EpochKey}

theorem mem_newOwnerEpoch (h : r ∈ g.groups) : r ∈ (g.newOwnerEpoch convId now key).1.groups :=
  ExtTreeMap.mem_insert.mpr (.inr h)

theorem mem_rotate (h : r ∈ g.groups) : r ∈ (g.rotate convId now key).1.groups := by
  unfold rotate
  split
  · exact mem_newOwnerEpoch h
  · exact ExtTreeMap.mem_insert.mpr (.inr h)

theorem mem_install (h : r ∈ g.groups) : r ∈ (g.install convId now epoch key).groups :=
  ExtTreeMap.mem_insert.mpr (.inr h)

theorem mem_noteObservedEpoch (h : r ∈ g.groups) : r ∈ (g.noteObservedEpoch convId epoch).groups :=
  ExtTreeMap.mem_insert.mpr (.inr h)

end SenderKeysGroup

/-- What a keying operation on `c` leads to. -/
structure Keying (c : ConnectionManager) (o : Outcome) : Prop where
  state : ∃ keys acks, o.1 = { c with groupKeys := keys, pendingGroupKeyAcks := acks }
  keeps : ∀ r ∈ c.groupKeys.groups, r ∈ o.1.groupKeys.groups
  seals : ∀ {member roomId : String} {epoch : Nat} {key : EpochKey},
    .groupKey member roomId epoch key ∈ o.2 →
      member ∈ unionMembersForRoom c.roomGroupMembers roomId

namespace Keying

variable {c : ConnectionManager} {o : Outcome}

theorem nothing (c : ConnectionManager) : Keying c (c, []) :=
  ⟨⟨c.groupKeys, c.pendingGroupKeyAcks, rfl⟩, fun _ h => h, by simp⟩

theorem peerStore (h : Keying c o) : o.1.peerStore = c.peerStore := by
  obtain ⟨keys, acks, heq⟩ := h.state
  rw [heq]

theorem roomGroupMembers (h : Keying c o) : o.1.roomGroupMembers = c.roomGroupMembers := by
  obtain ⟨keys, acks, heq⟩ := h.state
  rw [heq]

/-- Forgetting confirmations or changing keys before it changes nothing. -/
theorem of_keys {keys : SenderKeysGroup} {acks : List ((String × String) × PendingGroupKeyAck)}
    (hkeys : ∀ r ∈ c.groupKeys.groups, r ∈ keys.groups)
    (h : Keying { c with groupKeys := keys, pendingGroupKeyAcks := acks } o) : Keying c o := by
  obtain ⟨keys', acks', heq⟩ := h.state
  exact ⟨⟨keys', acks', heq⟩, fun r hr => h.keeps r (hkeys r hr), h.seals⟩

theorem andThen {f : ConnectionManager → Outcome} (h : Keying c o) (hf : Keying o.1 (f o.1)) :
    Keying c (o.andThen f) := by
  obtain ⟨keys, acks, heq⟩ := h.state
  obtain ⟨keys', acks', heq'⟩ := hf.state
  refine ⟨⟨keys', acks', ?_⟩, fun r hr => hf.keeps r (h.keeps r hr), ?_⟩
  · rw [Outcome.andThen_fst, heq', heq]
  · intro member roomId epoch key hmem
    rw [Outcome.andThen_snd] at hmem
    rcases List.mem_append.mp hmem with hmem | hmem
    · exact h.seals hmem
    · have hin := hf.seals hmem
      rwa [h.roomGroupMembers] at hin

end Keying

namespace ConnectionManager

variable {P : Platform} {env : Env} {c : ConnectionManager} {roomId : String}

theorem mem_unionList {m : String} :
    m ∈ c.unionList roomId ↔ m ∈ unionMembersForRoom c.roomGroupMembers roomId := by
  simp [unionList]

theorem distributeGroupKey_keying {epoch : Nat} {key : EpochKey} {members : List String}
    (hmem : ∀ m ∈ members, m ∈ unionMembersForRoom c.roomGroupMembers roomId) :
    Keying c (c.distributeGroupKey env roomId epoch key members) := by
  -- the fold starts from nothing sent and each member adds one key at most
  have hfold : ∀ (members : List String) (o : Outcome), Keying c o →
      (∀ m ∈ members, m ∈ unionMembersForRoom c.roomGroupMembers roomId) →
      Keying c (members.foldl (fun o member =>
        if env.canSealTo member then
          (o.1.notePending env roomId member epoch, o.2 ++ [.groupKey member roomId epoch key])
        else o) o) := by
    intro members
    induction members with
    | nil => exact fun _ h _ => h
    | cons m members ih =>
      intro o h hmem
      rw [List.foldl_cons]
      refine ih _ ?_ fun m' hm' => hmem m' (List.mem_cons_of_mem _ hm')
      split
      · obtain ⟨keys, acks, heq⟩ := h.state
        refine ⟨⟨keys, (o.1.notePending env roomId m epoch).pendingGroupKeyAcks, ?_⟩, h.keeps, ?_⟩
        · rw [heq]
          rfl
        · intro member roomId' epoch' key' hin
          rcases List.mem_append.mp hin with hin | hin
          · exact h.seals hin
          · simp only [List.mem_singleton, Outgoing.groupKey.injEq] at hin
            rw [hin.1, hin.2.1]
            exact hmem m List.mem_cons_self
      · exact h
  exact hfold members (c, []) (.nothing c) hmem

theorem keying_dropPending {o : Outcome} {member : String} (h : Keying c o) :
    Keying c (o.1.dropPending roomId member, o.2) := by
  obtain ⟨keys, acks, heq⟩ := h.state
  refine ⟨⟨keys, (o.1.dropPending roomId member).pendingGroupKeyAcks, ?_⟩, h.keeps, h.seals⟩
  rw [heq]
  rfl

/-! ## The timers -/

theorem retryOne_keying {o : Outcome} {entry : (String × String) × PendingGroupKeyAck}
    (h : Keying c o) : Keying c (retryOne P env o entry) := by
  obtain ⟨⟨roomId, member⟩, pending⟩ := entry
  simp only [retryOne]
  split
  · exact keying_dropPending h
  · rename_i hin
    split
    · exact keying_dropPending h
    · split
      · exact keying_dropPending h
      · split
        · split
          · exact keying_dropPending h
          · refine Keying.andThen h (distributeGroupKey_keying ?_)
            intro m hm
            rw [List.mem_singleton.mp hm, ← mem_unionList]
            simpa using hin
        · exact h

theorem retryPendingGroupKeys_keying : Keying c (c.retryPendingGroupKeys P env) := by
  have hfold : ∀ (entries : List ((String × String) × PendingGroupKeyAck)) (o : Outcome),
      Keying c o → Keying c (entries.foldl (retryOne P env) o) := by
    intro entries
    induction entries with
    | nil => exact fun _ h => h
    | cons entry entries ih => exact fun o h => ih _ (retryOne_keying h)
  exact hfold _ _ (.nothing c)

/-! ## Keys after a change, a gap or a lag -/

theorem keyRoom_keying {unionOld : ExtTreeSet String} :
    Keying c (c.keyRoom P env roomId unionOld
      (unionMembersForRoom c.roomGroupMembers roomId)) := by
  simp only [keyRoom]
  split
  · refine @Keying.of_keys c _ _ c.pendingGroupKeyAcks (fun _ => SenderKeysGroup.mem_newOwnerEpoch)
      (distributeGroupKey_keying ?_)
    simp
  · split
    · refine Keying.of_keys (fun _ => SenderKeysGroup.mem_rotate) (distributeGroupKey_keying ?_)
      simp
    · split
      · split
        · exact .nothing c
        · refine distributeGroupKey_keying ?_
          intro m hm
          exact ExtTreeSet.mem_toList.mp (List.mem_of_mem_filter hm)
      · exact .nothing c

theorem rekeyRoomIfBehind_keying : Keying c (c.rekeyRoomIfBehind env roomId) := by
  simp only [rekeyRoomIfBehind]
  split
  · exact .nothing c
  · split
    · exact .nothing c
    · split
      · exact .nothing c
      · refine Keying.of_keys (fun _ => SenderKeysGroup.mem_rotate) (distributeGroupKey_keying ?_)
        intro m hm
        exact mem_unionList.mp hm

theorem resealToLaggingMember_keying {sender : String} {senderEpoch : Nat} :
    Keying c (c.resealToLaggingMember P env roomId sender senderEpoch) := by
  simp only [resealToLaggingMember]
  split
  · exact .nothing c
  · split
    · exact .nothing c
    · split
      · exact .nothing c
      · rename_i member hfind
        split
        · exact .nothing c
        · split
          · exact .nothing c
          · split
            · exact .nothing c
            · refine Keying.of_keys (fun _ h => h) (distributeGroupKey_keying ?_)
              intro m hm
              rw [List.mem_singleton.mp hm]
              exact mem_unionList.mp (List.mem_of_find?_eq_some hfind)

/-! ## Handlers -/

theorem syncRoomMembership_keying {supernodeId : String} {members : List String} :
    Keying { c with
        roomGroupMembers := c.roomGroupMembers.insert (roomScopeKey supernodeId roomId)
          (ExtTreeSet.ofList (members.filter (· ≠ c.publicId))) }
      (c.syncRoomMembership P env supernodeId roomId members) := by
  simp only [syncRoomMembership]
  split
  · exact ⟨⟨_, _, rfl⟩, fun _ h => h, by simp⟩
  · exact @Keying.of_keys _ _ c.groupKeys _ (fun _ h => h) keyRoom_keying

variable {msg : SignalingMessage}

theorem handleSfuGroupKey_keying : Keying c (c.handleSfuGroupKey P env msg) := by
  simp only [handleSfuGroupKey]
  split
  · split
    · exact .nothing c
    · split
      · exact .nothing c
      · split
        · split
          · refine ⟨⟨_, c.pendingGroupKeyAcks, rfl⟩, fun _ => SenderKeysGroup.mem_install, ?_⟩
            intro member roomId epoch key hmem
            simp only [sendGroupKeyAck] at hmem
            split at hmem
            · simp at hmem
            · simp at hmem
          · exact .nothing c
        · exact .nothing c
  · exact .nothing c

theorem handleSfuGroupKeyAck_keying : Keying c (c.handleSfuGroupKeyAck msg, []) := by
  simp only [handleSfuGroupKeyAck]
  split
  · exact .nothing c
  · split
    · exact .nothing c
    · split
      · exact keying_dropPending (.nothing c)
      · exact .nothing c

theorem noteUnopenedFrame_keying {epoch : Nat} :
    Keying c (c.noteUnopenedFrame P env msg roomId epoch) := by
  simp only [noteUnopenedFrame]
  refine @Keying.of_keys c _ (c.groupKeys.noteObservedEpoch roomId epoch) c.pendingGroupKeyAcks
    (fun _ => SenderKeysGroup.mem_noteObservedEpoch) ?_
  exact rekeyRoomIfBehind_keying.andThen resealToLaggingMember_keying

theorem handleSfuChat_keying : Keying c (c.handleSfuChat P env msg) := by
  simp only [handleSfuChat]
  split
  · exact .nothing c
  · split
    · exact .nothing c
    · split
      · exact .nothing c
      · split
        · exact resealToLaggingMember_keying
        · exact noteUnopenedFrame_keying

theorem handleSfuAudio_keying : Keying c (c.handleSfuAudio P env msg) := by
  simp only [handleSfuAudio]
  split
  · exact .nothing c
  · split
    · exact .nothing c
    · split
      · exact .nothing c
      · split
        · exact .nothing c
        · split
          · exact resealToLaggingMember_keying
          · exact noteUnopenedFrame_keying

end ConnectionManager

end ConquerD.Client
