import ConquerD.Client.RoomSystem
import ConquerD.Client.Verify.GroupKey
import ConquerD.Client.Verify.RoomEffect
import Mathlib.Data.List.Pairwise

/-!
# What a keyer mints

The keyer of a room against the record of what it minted: it holds its newest
key, it seals only what it minted, and it mints either the first key or the next
above all it holds and has seen. As long as each new epoch is in reach of the
last sixty-four and does not come round the ring of bytes to the first, the
mints stay in order.
-/

namespace ConquerD.Client

open Std (ExtTreeMap ExtTreeSet)
open Lib.Encoding Lib.Run Wire

/-! ## What is sealed -/

/-- Every key among what was sent is the one held for its epoch. -/
def SealsHeld (P : Platform) (g : SenderKeysGroup) (out : List Outgoing) : Prop :=
  ∀ member roomId epoch key, .groupKey member roomId epoch key ∈ out →
    g.epochKey roomId P epoch = some key

theorem SealsHeld.nil (P : Platform) (g : SenderKeysGroup) : SealsHeld P g [] :=
  fun _ _ _ _ h => absurd h List.not_mem_nil

theorem SealsHeld.append {P : Platform} {g : SenderKeysGroup} {out out' : List Outgoing}
    (h : SealsHeld P g out) (h' : SealsHeld P g out') : SealsHeld P g (out ++ out') := by
  intro member roomId epoch key hmem
  rcases List.mem_append.mp hmem with hmem | hmem
  · exact h member roomId epoch key hmem
  · exact h' member roomId epoch key hmem

namespace ConnectionManager

variable {P : Platform} {env : Env} {c : ConnectionManager} {roomId : String}

theorem mem_distributeGroupKey {epoch : Nat} {key : EpochKey} {members : List String} {m r : String}
    {e : Nat} {k : EpochKey}
    (h : .groupKey m r e k ∈ (c.distributeGroupKey env roomId epoch key members).2) :
    r = roomId ∧ e = epoch ∧ k = key := by
  have hfold : ∀ (members : List String) (o : Outcome),
      .groupKey m r e k ∈ (members.foldl (fun o member =>
        if env.canSealTo member then
          (o.1.notePending env roomId member epoch, o.2 ++ [.groupKey member roomId epoch key])
        else o) o).2 → .groupKey m r e k ∈ o.2 ∨ (r = roomId ∧ e = epoch ∧ k = key) := by
    intro members
    induction members with
    | nil => exact fun _ h => .inl h
    | cons member members ih =>
      intro o hmem
      rw [List.foldl_cons] at hmem
      rcases ih _ hmem with hbefore | hnow
      · split at hbefore
        · rcases List.mem_append.mp hbefore with hbefore | hnow
          · exact .inl hbefore
          · simp only [List.mem_singleton, Outgoing.groupKey.injEq] at hnow
            exact .inr hnow.2
        · exact .inl hbefore
      · exact .inr hnow
  rcases hfold members (c, []) h with hnone | hnow
  · exact absurd hnone List.not_mem_nil
  · exact hnow

theorem sealsHeld_distributeGroupKey {epoch : Nat} {key : EpochKey} {members : List String}
    {g : SenderKeysGroup} (hkey : g.epochKey roomId P epoch = some key) :
    SealsHeld P g (c.distributeGroupKey env roomId epoch key members).2 := by
  intro m r e k hmem
  obtain ⟨rfl, rfl, rfl⟩ := mem_distributeGroupKey hmem
  exact hkey

theorem sealsHeld_resealToLaggingMember {sender : String} {senderEpoch : Nat} :
    SealsHeld P c.groupKeys (c.resealToLaggingMember P env roomId sender senderEpoch).2 := by
  simp only [resealToLaggingMember]
  split
  · exact .nil _ _
  · split
    · exact .nil _ _
    · split
      · exact .nil _ _
      · split
        · exact .nil _ _
        · split
          · exact .nil _ _
          · split
            · exact .nil _ _
            · next key hkey => exact sealsHeld_distributeGroupKey hkey

theorem retryOne_spec {o : Outcome} {entry : (String × String) × PendingGroupKeyAck}
    (h : SealsHeld P o.1.groupKeys o.2) :
    (retryOne P env o entry).1.groupKeys = o.1.groupKeys ∧
      SealsHeld P o.1.groupKeys (retryOne P env o entry).2 := by
  obtain ⟨⟨r, member⟩, pending⟩ := entry
  simp only [retryOne]
  split
  · exact ⟨rfl, h⟩
  · split
    · exact ⟨rfl, h⟩
    · split
      · exact ⟨rfl, h⟩
      · split
        · split
          · exact ⟨rfl, h⟩
          · next key hkey =>
            exact ⟨groupKeys_distributeGroupKey, h.append (sealsHeld_distributeGroupKey hkey)⟩
        · exact ⟨rfl, h⟩

theorem sealsHeld_retryPendingGroupKeys :
    SealsHeld P c.groupKeys (c.retryPendingGroupKeys P env).2 := by
  have hfold : ∀ (entries : List ((String × String) × PendingGroupKeyAck)) (o : Outcome),
      o.1.groupKeys = c.groupKeys → SealsHeld P c.groupKeys o.2 →
      SealsHeld P c.groupKeys (entries.foldl (retryOne P env) o).2 := by
    intro entries
    induction entries with
    | nil => exact fun _ _ h => h
    | cons entry entries ih =>
      intro o hg h
      obtain ⟨hg', h'⟩ := @retryOne_spec P env o entry (hg ▸ h)
      exact ih _ (hg'.trans hg) (hg ▸ h')
  exact hfold _ (c, []) rfl (.nil _ _)

/-! ## When a snapshot mints -/

/-- The mint of a keyer: the first of the room, or the next. -/
def mintRoom (c : ConnectionManager) (env : Env) (roomId : String) : SenderKeysGroup × Nat :=
  if c.groupKeys.hasRealKey roomId then c.groupKeys.rotate roomId env.nowMs env.randomKey
  else c.groupKeys.newOwnerEpoch roomId env.nowMs env.randomKey

theorem syncRoomMembership_of_mints {s : String} {ids : List String}
    (h : c.mintsOnSync roomId s ids = true)
    (hkey : (c.mintRoom env roomId).1.epochKey roomId P (c.mintRoom env roomId).2 =
      some env.randomKey) :
    (c.syncRoomMembership P env s roomId ids).1.groupKeys = (c.mintRoom env roomId).1 ∧
      SealsHeld P (c.mintRoom env roomId).1 (c.syncRoomMembership P env s roomId ids).2 := by
  simp only [mintsOnSync, Bool.and_eq_true, Bool.or_eq_true] at h
  obtain ⟨hkeys, hwhy⟩ := h
  simp only [mintRoom] at hkey
  simp only [syncRoomMembership, hkeys, Bool.not_true, Bool.false_eq_true, if_false, keyRoom,
    mintRoom]
  by_cases hreal : c.groupKeys.hasRealKey roomId = true
  · have hfirst : ∀ n, shouldMintFirstRoomKey true (c.groupKeys.hasRealKey roomId) n = false := by
      simp [shouldMintFirstRoomKey, hreal]
    rw [hfirst] at hwhy
    have hremoved := (hwhy.resolve_left Bool.false_ne_true)
    simp only [hreal, if_true] at hkey
    simp only [hreal, if_true, hremoved.2, Bool.and_self]
    exact ⟨groupKeys_distributeGroupKey, sealsHeld_distributeGroupKey hkey⟩
  · have hfirst := hwhy.resolve_right fun hboth => hreal hboth.1
    simp only [if_neg hreal] at hkey
    simp only [hfirst, if_true, if_neg hreal]
    exact ⟨groupKeys_distributeGroupKey, sealsHeld_distributeGroupKey hkey⟩

theorem syncRoomMembership_of_not_mints (env : Env) {s : String} {ids : List String}
    (h : c.mintsOnSync roomId s ids = false) :
    (c.syncRoomMembership P env s roomId ids).1.groupKeys = c.groupKeys ∧
      SealsHeld P c.groupKeys (c.syncRoomMembership P env s roomId ids).2 ∧
      (c.groupKeys.hasRealKey roomId = false → c.pendingGroupKeyAcks = [] →
        (c.syncRoomMembership P env s roomId ids).2 = [] ∧
          (c.syncRoomMembership P env s roomId ids).1.pendingGroupKeyAcks = []) := by
  by_cases hkeys : (c.withSnapshot s roomId ids).keysRoom roomId = true
  · simp only [mintsOnSync, hkeys, Bool.true_and, Bool.or_eq_false_iff] at h
    simp only [syncRoomMembership, hkeys, Bool.not_true, Bool.false_eq_true, if_false, keyRoom,
      h.1, h.2]
    refine ⟨?_, ?_, fun hreal hpending => ?_⟩
    · split
      · split
        · rfl
        · exact groupKeys_distributeGroupKey
      · rfl
    · split
      · split
        · exact .nil _ _
        · next key hkey => exact sealsHeld_distributeGroupKey hkey
      · exact .nil _ _
    · simp [hreal, hpending]
  · have hnot := Bool.eq_false_iff.mpr hkeys
    simp only [syncRoomMembership, hnot, Bool.not_false, if_true]
    refine ⟨rfl, .nil _ _, fun _ hpending => ?_⟩
    simp [dropPendingOfRoom, hpending]

/-! ## When the room is ahead -/

theorem rekeyRoomIfBehind_of_mints (h : c.mintsWhenBehind roomId = true)
    (hkey : (c.groupKeys.rotate roomId env.nowMs env.randomKey).1.epochKey roomId P
      (c.groupKeys.rotate roomId env.nowMs env.randomKey).2 = some env.randomKey) :
    (c.rekeyRoomIfBehind env roomId).1.groupKeys =
        (c.groupKeys.rotate roomId env.nowMs env.randomKey).1 ∧
      SealsHeld P (c.groupKeys.rotate roomId env.nowMs env.randomKey).1
        (c.rekeyRoomIfBehind env roomId).2 := by
  simp only [mintsWhenBehind, Bool.and_eq_true, Bool.not_eq_true'] at h
  obtain ⟨⟨hbehind, hkeys⟩, hothers⟩ := h
  simp only [rekeyRoomIfBehind, hbehind, hkeys, hothers, Bool.not_true, Bool.false_eq_true,
    if_false]
  exact ⟨groupKeys_distributeGroupKey, sealsHeld_distributeGroupKey hkey⟩

theorem rekeyRoomIfBehind_of_not_mints (h : c.mintsWhenBehind roomId = false) :
    c.rekeyRoomIfBehind env roomId = (c, []) := by
  simp only [rekeyRoomIfBehind]
  split
  · rfl
  · split
    · rfl
    · split
      · rfl
      · rename_i hbehind hkeys hothers
        simp_all [mintsWhenBehind]

theorem resealToLaggingMember_of_no_key {sender : String} {senderEpoch : Nat}
    (h : c.groupKeys.hasRealKey roomId = false) :
    c.resealToLaggingMember P env roomId sender senderEpoch = (c, []) := by
  have hage : c.groupKeys.currentEpochAge roomId env.nowMs = none := by
    unfold SenderKeysGroup.currentEpochAge
    unfold SenderKeysGroup.hasRealKey at h
    cases hst : c.groupKeys.groups[roomId]? with
    | none => rfl
    | some st =>
      simp only [hst, Option.map_some, Option.getD_some] at h
      simp [Option.filter, h]
  simp only [resealToLaggingMember, hage]

end ConnectionManager

/-! ## What was minted -/

/-- From an epoch this much higher, an offer still reads as a rollback on the
ring of bytes. -/
def maxSpread : Nat := 191

/-- The mints so far, newest first, lie close enough together on the ring. -/
structure Ledger (mints : List (Nat × EpochKey)) : Prop where
  descending : mints.Pairwise fun x y => y.1 < x.1
  byte : ∀ x ∈ mints, x.1 < 256
  spread : ∀ x ∈ mints, ∀ y ∈ mints, x.1 ≤ y.1 + maxSpread
  /-- The newest is in reach of the sixty-four before it. -/
  near : ∀ x ∈ mints.head?, ∀ y ∈ mints.take (maxEpochAdvance + 1), x.1 ≤ y.1 + maxEpochAdvance

/-- One epoch above `highest` is in reach of what was minted, if anything was. -/
def Reaches (mints : List (Nat × EpochKey)) (highest : Nat) : Prop :=
  mints ≠ [] → highest < 255 ∧ (∀ x ∈ mints, highest < x.1 + maxSpread) ∧
    ∀ x ∈ mints.take maxEpochAdvance, highest < x.1 + maxEpochAdvance

instance (mints : List (Nat × EpochKey)) (highest : Nat) : Decidable (Reaches mints highest) :=
  inferInstanceAs (Decidable (_ → _))

namespace Ledger

variable {mints : List (Nat × EpochKey)}

theorem first {epoch : Nat} (hbyte : epoch < 256) (key : EpochKey) : Ledger [(epoch, key)] := by
  refine ⟨List.pairwise_singleton _ _, ?_, ?_, ?_⟩
  · simpa using hbyte
  · simp
  · simp [maxEpochAdvance]

theorem next (h : Ledger mints) (hne : mints ≠ []) {highest : Nat} (hreach : Reaches mints highest)
    (habove : ∀ x ∈ mints, x.1 ≤ highest) (key : EpochKey) :
    Ledger ((highest + 1, key) :: mints) := by
  obtain ⟨hbyte, hspread, hnear⟩ := hreach hne
  refine ⟨List.pairwise_cons.mpr ⟨?_, h.descending⟩, ?_, ?_, ?_⟩
  · intro x hx
    exact Nat.lt_succ_of_le (habove x hx)
  · intro x hx
    rcases List.mem_cons.mp hx with rfl | hx
    · simp only
      omega
    · exact h.byte x hx
  · intro x hx y hy
    rcases List.mem_cons.mp hx with rfl | hx
    · rcases List.mem_cons.mp hy with rfl | hy
      · simp
      · exact hspread y hy
    · rcases List.mem_cons.mp hy with rfl | hy
      · have hle := habove x hx
        simp only
        omega
      · exact h.spread x hx y hy
  · rintro x ⟨⟩ y hy
    rw [List.take_succ_cons] at hy
    rcases List.mem_cons.mp hy with rfl | hy
    · simp
    · exact hnear y hy

theorem key_unique (h : Ledger mints) {e : Nat} {k k' : EpochKey} (hk : (e, k) ∈ mints)
    (hk' : (e, k') ∈ mints) : k = k' := by
  have hpair : mints.Pairwise fun x y => x.1 ≠ y.1 := h.descending.imp fun hlt => hlt.ne'
  have hsymm : Std.Symm fun x y : Nat × EpochKey => x.1 ≠ y.1 := ⟨fun _ _ hne => hne.symm⟩
  by_contra hne
  exact hpair.forall hk hk' (fun heq => hne (congrArg Prod.snd heq)) rfl

theorem le_head (h : Ledger mints) {x : Nat × EpochKey} (hx : x ∈ mints.head?) :
    ∀ y ∈ mints, y.1 ≤ x.1 := by
  intro y hy
  obtain ⟨rest, rfl⟩ := List.head?_eq_some_iff.mp hx
  rcases List.mem_cons.mp hy with rfl | hy
  · exact le_refl _
  · exact ((List.pairwise_cons.mp h.descending).1 y hy).le

/-- On the ring of bytes, of two minted epochs within reach means not behind. -/
theorem le_of_wrappingSub_le (h : Ledger mints) {x y : Nat × EpochKey} (hx : x ∈ mints)
    (hy : y ∈ mints) (hle : wrappingSub x.1 y.1 ≤ maxEpochAdvance) : y.1 ≤ x.1 := by
  have hbx := h.byte x hx
  have hby := h.byte y hy
  have hspread := h.spread y hy x hx
  simp only [wrappingSub, maxEpochAdvance, maxSpread] at *
  omega

end Ledger

/-! ## The keyer's keys -/

/-- The highest epoch held or seen. -/
def GroupState.highest (st : GroupState) : Nat :=
  max (st.seenHigh.getD 0) st.current

theorem GroupState.nextEpoch_eq (st : GroupState) : st.nextEpoch = (st.highest + 1) % 256 := by
  unfold GroupState.nextEpoch GroupState.highest
  cases st.seenHigh with
  | none => simp
  | some high =>
    simp only [Option.getD_some, ge_iff_le]
    split
    · next h => rw [max_eq_left h]
    · next h => rw [max_eq_right (not_le.mp h).le]

theorem GroupState.highest_noteSeen (st : GroupState) (epoch : Nat) :
    (st.noteSeen epoch).highest = max epoch st.highest := by
  simp only [GroupState.highest, GroupState.noteSeen]
  cases st.seenHigh with
  | none => simp
  | some high =>
    simp only [Option.getD_some, ge_iff_le]
    split
    · next h => simp only [Option.getD_some]; omega
    · next h => simp only [Option.getD_some]; omega

def SenderKeysGroup.highest (g : SenderKeysGroup) (roomId : String) : Nat :=
  (g.groups[roomId]?.map GroupState.highest).getD 0

theorem SenderKeysGroup.highest_noteObservedEpoch (g : SenderKeysGroup) (roomId : String)
    (epoch : Nat) :
    (g.noteObservedEpoch roomId epoch).highest roomId = max epoch (g.highest roomId) := by
  simp only [highest, noteObservedEpoch, ExtTreeMap.getElem?_insert_self, Option.map_some,
    Option.getD_some, GroupState.highest_noteSeen]
  cases g.groups[roomId]? with
  | none => rfl
  | some st => rfl

/-- The keyer's keys of the room, against what it minted. -/
structure Keyed (st : GroupState) (mints : List (Nat × EpochKey)) : Prop where
  bounded : st.keys.size ≤ maxRetainedEpochs
  latest : ∃ key rest, mints = (st.current, key) :: rest ∧ st.keys[st.current]? = some key
  ledger : Ledger mints
  held : ∀ e k, st.keys[e]? = some k → (e, k) ∈ mints

namespace Keyed

variable {st : GroupState} {mints : List (Nat × EpochKey)}

theorem hasKeys (h : Keyed st mints) : st.hasKeys = true := by
  obtain ⟨key, rest, -, hkey⟩ := h.latest
  unfold GroupState.hasKeys
  rw [Bool.not_eq_true', ExtTreeMap.isEmpty_eq_false_iff]
  intro hempty
  rw [hempty] at hkey
  simp at hkey

theorem ne_nil (h : Keyed st mints) : mints ≠ [] := by
  obtain ⟨key, rest, rfl, -⟩ := h.latest
  exact List.cons_ne_nil _ _

theorem le_current (h : Keyed st mints) : ∀ x ∈ mints, x.1 ≤ st.current := by
  obtain ⟨key, rest, hmints, -⟩ := h.latest
  exact h.ledger.le_head (x := (st.current, key)) (by rw [hmints]; rfl)

theorem noteSeen (h : Keyed st mints) (epoch : Nat) : Keyed (st.noteSeen epoch) mints :=
  ⟨h.bounded, h.latest, h.ledger, h.held⟩

theorem install {now epoch : Nat} {key : EpochKey} (hbounded : st.keys.size ≤ maxRetainedEpochs)
    (hretains : st.Retains epoch) (hledger : Ledger ((epoch, key) :: mints))
    (hheld : ∀ e k, st.keys[e]? = some k → (e, k) ∈ mints) :
    Keyed (st.install now epoch key) ((epoch, key) :: mints) := by
  refine ⟨GroupState.size_capRetained _, ⟨key, mints, rfl, ?_⟩, hledger, ?_⟩
  · exact GroupState.getElem?_capRetained_insert key hbounded hretains
  · intro e k hk
    have hk' := SenderKeysGroup.getElem?_capRetained hk
    rw [ExtTreeMap.getElem?_insert] at hk'
    split at hk'
    · rename_i heq
      cases hk'
      rw [← Std.compare_eq_iff_eq.mp heq]
      exact List.mem_cons_self
    · exact List.mem_cons_of_mem _ (hheld e k hk')

theorem rotate (h : Keyed st mints) (hreach : Reaches mints st.highest) (now : Nat)
    (key : EpochKey) :
    Keyed (st.install now st.nextEpoch key) ((st.nextEpoch, key) :: mints) := by
  obtain ⟨latest, rest, hmints, hlatest⟩ := h.latest
  have habove : st.current ≤ st.highest := le_max_right _ _
  have hnext : st.nextEpoch = st.highest + 1 := by
    have hbyte := (hreach h.ne_nil).1
    rw [GroupState.nextEpoch_eq]
    omega
  rw [hnext]
  refine Keyed.install h.bounded (.inr (.inr ⟨st.current, ?_, Nat.lt_succ_of_le habove⟩)) ?_ h.held
  · rw [ExtTreeMap.mem_keys, ExtTreeMap.mem_iff_contains, ExtTreeMap.contains_eq_isSome_getElem?,
      hlatest]
    rfl
  · exact h.ledger.next h.ne_nil hreach (fun x hx => (h.le_current x hx).trans habove) key

theorem first {epoch : Nat} (hkeys : st.keys = ∅) (hbyte : epoch < 256) (now : Nat)
    (key : EpochKey) : Keyed (st.install now epoch key) [(epoch, key)] := by
  refine Keyed.install ?_ (.inr (.inl ?_)) (Ledger.first hbyte key) ?_
  · simp [hkeys]
  · simp [hkeys, maxRetainedEpochs]
  · simp [hkeys]

end Keyed

theorem SenderKeysGroup.hasRealKey_of_keyed {g : SenderKeysGroup} {roomId : String}
    {st : GroupState} {mints : List (Nat × EpochKey)} (hst : g.groups[roomId]? = some st)
    (h : Keyed st mints) : g.hasRealKey roomId = true := by
  simp [hasRealKey, hst, h.hasKeys]

theorem SenderKeysGroup.currentEpoch_of_keyed {g : SenderKeysGroup} {roomId : String}
    {st : GroupState} {mints : List (Nat × EpochKey)} (hst : g.groups[roomId]? = some st)
    (h : Keyed st mints) : g.currentEpoch roomId = st.current := by
  simp [currentEpoch, hst, Option.filter, h.hasKeys]

theorem SenderKeysGroup.epochKey_of_keyed {g : SenderKeysGroup} {roomId : String}
    {st : GroupState} {mints : List (Nat × EpochKey)} (P : Platform)
    (hst : g.groups[roomId]? = some st) (h : Keyed st mints) (epoch : Nat) :
    g.epochKey roomId P epoch = st.keys[epoch]? := by
  simp [epochKey, hst, Option.filter, h.hasKeys]

/-! ## What the keyer has minted and sealed -/

/-- No key of the room is held, and none awaits confirmation. -/
structure Unkeyed (c : ConnectionManager) (roomId : String) : Prop where
  group : ∀ st ∈ c.groupKeys.groups[roomId]?, st.keys = ∅
  pending : c.pendingGroupKeyAcks = []

theorem Unkeyed.hasRealKey {c : ConnectionManager} {roomId : String} (h : Unkeyed c roomId) :
    c.groupKeys.hasRealKey roomId = false := by
  unfold SenderKeysGroup.hasRealKey
  cases hst : c.groupKeys.groups[roomId]? with
  | none => rfl
  | some st => simp [GroupState.hasKeys, h.group st hst]

/-- The keyer has minted nothing, or holds the newest of what it minted. -/
inductive KeyerOf (roomId : String) (mints : List (Nat × EpochKey)) (c : ConnectionManager) :
    Prop where
  | unkeyed (hmints : mints = []) (h : Unkeyed c roomId)
  | keyed (st : GroupState) (hst : c.groupKeys.groups[roomId]? = some st) (h : Keyed st mints)

namespace KeyerOf

variable {roomId : String} {mints : List (Nat × EpochKey)} {c : ConnectionManager}

theorem observe (h : KeyerOf roomId mints c) (epoch : Nat) :
    KeyerOf roomId mints
      { c with groupKeys := c.groupKeys.noteObservedEpoch roomId epoch } := by
  cases h with
  | unkeyed hmints h =>
    refine .unkeyed hmints ⟨fun st hst => ?_, h.pending⟩
    simp only [SenderKeysGroup.noteObservedEpoch, ExtTreeMap.getElem?_insert_self,
      Option.mem_some_iff] at hst
    subst hst
    cases hc : c.groupKeys.groups[roomId]? with
    | none => rfl
    | some old => exact h.group old hc
  | keyed st hst h =>
    refine .keyed (st.noteSeen epoch) ?_ (h.noteSeen epoch)
    simp [SenderKeysGroup.noteObservedEpoch, hst]

/-- Keys of the room after a mint: the new one is current. -/
def Mints (roomId : String) (mints : List (Nat × EpochKey)) (key : EpochKey)
    (minted : SenderKeysGroup × Nat) : Prop :=
  ∃ st, minted.1.groups[roomId]? = some st ∧ st.current = minted.2 ∧
    Keyed st ((minted.2, key) :: mints)

theorem mints_newOwnerEpoch (g : SenderKeysGroup) (roomId : String) (now : Nat) (key : EpochKey) :
    Mints roomId [] key (g.newOwnerEpoch roomId now key) := by
  refine ⟨_, ExtTreeMap.getElem?_insert_self, rfl, Keyed.first rfl ?_ now key⟩
  cases g.groups[roomId]? with
  | none => decide
  | some st =>
    simp only [Option.map_some, Option.getD_some, GroupState.nextEpoch_eq]
    omega

theorem mints_rotate (h : KeyerOf roomId mints c)
    (hreach : Reaches mints (c.groupKeys.highest roomId)) (now : Nat) (key : EpochKey) :
    Mints roomId mints key (c.groupKeys.rotate roomId now key) := by
  cases h with
  | unkeyed hmints h =>
    subst hmints
    cases hst : c.groupKeys.groups[roomId]? with
    | none =>
      have hnew := mints_newOwnerEpoch c.groupKeys roomId now key
      simpa only [SenderKeysGroup.rotate, hst] using hnew
    | some st =>
      simp only [SenderKeysGroup.rotate, hst]
      refine ⟨_, ExtTreeMap.getElem?_insert_self, rfl, Keyed.first (h.group st hst) ?_ now key⟩
      rw [GroupState.nextEpoch_eq]
      omega
  | keyed st hst h =>
    simp only [SenderKeysGroup.highest, hst, Option.map_some, Option.getD_some] at hreach
    simp only [SenderKeysGroup.rotate, hst]
    exact ⟨_, ExtTreeMap.getElem?_insert_self, rfl, h.rotate hreach now key⟩

theorem mints_mintRoom (h : KeyerOf roomId mints c)
    (hreach : Reaches mints (c.groupKeys.highest roomId)) (env : Env) :
    Mints roomId mints env.randomKey (c.mintRoom env roomId) := by
  unfold ConnectionManager.mintRoom
  split
  · exact h.mints_rotate hreach env.nowMs env.randomKey
  · next hreal =>
    cases h with
    | unkeyed hmints h =>
      subst hmints
      exact mints_newOwnerEpoch c.groupKeys roomId env.nowMs env.randomKey
    | keyed st hst h => exact absurd (SenderKeysGroup.hasRealKey_of_keyed hst h) hreal

theorem Mints.epochKey {key : EpochKey} {minted : SenderKeysGroup × Nat}
    (h : Mints roomId mints key minted) (P : Platform) :
    minted.1.epochKey roomId P minted.2 = some key := by
  obtain ⟨st, hst, hcurrent, hkeyed⟩ := h
  obtain ⟨key', rest, hmints, hkey⟩ := hkeyed.latest
  have hsame : key = key' := congrArg Prod.snd (List.cons.inj hmints).1
  rw [SenderKeysGroup.epochKey_of_keyed P hst hkeyed, ← hcurrent, hkey, hsame]

end KeyerOf

/-! ## The keyer's steps -/

/-- What an operation without a mint does: the keys stay, only held keys are
sealed, and without a key nothing is. -/
structure Quiet (P : Platform) (roomId : String) (c : ConnectionManager) (o : Outcome) : Prop where
  keys : o.1.groupKeys = c.groupKeys
  seals : SealsHeld P c.groupKeys o.2
  idle : c.groupKeys.hasRealKey roomId = false → c.pendingGroupKeyAcks = [] →
    o.2 = [] ∧ o.1.pendingGroupKeyAcks = []

namespace Quiet

variable {P : Platform} {env : Env} {roomId : String} {c : ConnectionManager}

theorem resealToLaggingMember {sender : String} {senderEpoch : Nat} :
    Quiet P roomId c (c.resealToLaggingMember P env roomId sender senderEpoch) := by
  refine ⟨ConnectionManager.groupKeys_resealToLaggingMember,
    ConnectionManager.sealsHeld_resealToLaggingMember, fun hreal hpending => ?_⟩
  rw [ConnectionManager.resealToLaggingMember_of_no_key hreal]
  exact ⟨rfl, hpending⟩

theorem retryPendingGroupKeys : Quiet P roomId c (c.retryPendingGroupKeys P env) := by
  refine ⟨ConnectionManager.groupKeys_retryPendingGroupKeys,
    ConnectionManager.sealsHeld_retryPendingGroupKeys, fun _ hpending => ?_⟩
  unfold ConnectionManager.retryPendingGroupKeys
  rw [hpending]
  exact ⟨rfl, hpending⟩

theorem handleSfuGroupKeyAck {msg : SignalingMessage} :
    Quiet P roomId c (c.handleSfuGroupKeyAck msg, []) := by
  refine ⟨?_, .nil _ _, fun _ hpending => ⟨rfl, ?_⟩⟩
  · simp only [ConnectionManager.handleSfuGroupKeyAck]
    repeat' split
    all_goals rfl
  · simp only [ConnectionManager.handleSfuGroupKeyAck, ConnectionManager.dropPending]
    repeat' split
    all_goals simp [hpending]

end Quiet

/-- The keyer's part of the invariant: all that was sealed was minted. -/
structure KeyerInv (roomId : String) (s : RoomSystem) : Prop where
  keyer : KeyerOf roomId s.mints s.keyer
  offers : ∀ o ∈ s.offers, (o.epoch, o.key) ∈ s.mints

theorem mem_offersOf {roomId : String} {out : List Outgoing} {o : Offer} :
    o ∈ offersOf roomId out ↔ .groupKey o.member roomId o.epoch o.key ∈ out := by
  unfold offersOf
  rw [List.mem_filterMap]
  constructor
  · rintro ⟨x, hx, heq⟩
    split at heq
    · split at heq
      · next hr =>
        cases heq
        exact hr ▸ hx
      · cases heq
    · cases heq
  · exact fun hmem => ⟨_, hmem, by simp⟩

namespace RoomSystem

variable {P : Platform} {roomId : String} {s : RoomSystem}

theorem keyerInv_of_quiet {c : ConnectionManager} {o : Outcome}
    (hkeyer : KeyerOf roomId s.mints c) (hoffers : ∀ o ∈ s.offers, (o.epoch, o.key) ∈ s.mints)
    (h : Quiet P roomId c o) : KeyerInv roomId (s.keyerDid roomId o none) := by
  refine ⟨?_, ?_⟩
  · cases hkeyer with
    | unkeyed hmints hun =>
      obtain ⟨-, hpending⟩ := h.idle hun.hasRealKey hun.pending
      exact .unkeyed hmints ⟨fun st hst => hun.group st (h.keys ▸ hst), hpending⟩
    | keyed st hst hkeyed =>
      have hsame : o.1.groupKeys.groups[roomId]? = some st := by
        rw [h.keys]
        exact hst
      exact .keyed st hsame hkeyed
  · intro offer hoffer
    rcases List.mem_append.mp hoffer with hold | hnew
    · exact hoffers offer hold
    · have hmem := mem_offersOf.mp hnew
      cases hkeyer with
      | unkeyed hmints hun =>
        obtain ⟨hout, -⟩ := h.idle hun.hasRealKey hun.pending
        rw [hout] at hmem
        exact absurd hmem List.not_mem_nil
      | keyed st hst hkeyed =>
        have hheld := h.seals _ _ _ _ hmem
        rw [SenderKeysGroup.epochKey_of_keyed P hst hkeyed] at hheld
        exact hkeyed.held _ _ hheld

theorem keyerInv_of_mint {o : Outcome} {key : EpochKey} {minted : SenderKeysGroup × Nat}
    (hoffers : ∀ o ∈ s.offers, (o.epoch, o.key) ∈ s.mints)
    (hmint : KeyerOf.Mints roomId s.mints key minted) (hkeys : o.1.groupKeys = minted.1)
    (hseals : SealsHeld P minted.1 o.2) : KeyerInv roomId (s.keyerDid roomId o (some key)) := by
  obtain ⟨st, hst, hcurrent, hkeyed⟩ := hmint
  have hmints : (s.keyerDid roomId o (some key)).mints = (minted.2, key) :: s.mints := by
    simp only [keyerDid, Option.map_some, Option.toList_some, List.cons_append, List.nil_append,
      hkeys, SenderKeysGroup.currentEpoch_of_keyed hst hkeyed, hcurrent]
  have hsame : o.1.groupKeys.groups[roomId]? = some st := by
    rw [hkeys]
    exact hst
  refine ⟨.keyed st hsame (hmints ▸ hkeyed), ?_⟩
  intro offer hoffer
  rw [hmints]
  rcases List.mem_append.mp hoffer with hold | hnew
  · exact List.mem_cons_of_mem _ (hoffers offer hold)
  · have hheld := hseals _ _ _ _ (mem_offersOf.mp hnew)
    rw [SenderKeysGroup.epochKey_of_keyed P hst hkeyed] at hheld
    exact hkeyed.held _ _ hheld

/-- The highest epoch the keyer holds or has seen, an event's own included. -/
def highest (s : RoomSystem) (roomId : String) : RoomSystemEvent → Nat
  | .keyerUnopened _ _ epoch => max epoch.toNat (s.keyer.groupKeys.highest roomId)
  | _ => s.keyer.groupKeys.highest roomId

/-- If the keyer mints, its next epoch is in reach of what it minted. -/
def InReach (roomId : String) (s : RoomSystem) (e : RoomSystemEvent) : Prop :=
  (s.minted roomId e).isSome = true → Reaches s.mints (s.highest roomId e)

theorem keyerInv_keyerSync (h : KeyerInv roomId s) {env : Env} {supernodeId : String}
    {ids : List String} (hreach : s.InReach roomId (.keyerSync env supernodeId ids)) :
    KeyerInv roomId (s.keyerDid roomId (s.keyer.syncRoomMembership P env supernodeId roomId ids)
      (s.minted roomId (.keyerSync env supernodeId ids))) := by
  unfold InReach at hreach
  simp only [minted] at hreach ⊢
  by_cases hmints : s.keyer.mintsOnSync roomId supernodeId ids = true
  · simp only [hmints, if_true, Option.isSome_some, forall_const] at hreach ⊢
    have hmint := h.keyer.mints_mintRoom hreach env
    obtain ⟨hkeys, hseals⟩ :=
      ConnectionManager.syncRoomMembership_of_mints (P := P) hmints (hmint.epochKey P)
    exact keyerInv_of_mint h.offers hmint hkeys hseals
  · rw [if_neg hmints]
    obtain ⟨hkeys, hseals, hidle⟩ :=
      ConnectionManager.syncRoomMembership_of_not_mints (P := P) env
        (Bool.eq_false_iff.mpr hmints)
    exact keyerInv_of_quiet h.keyer h.offers ⟨hkeys, hseals, hidle⟩

theorem keyerInv_keyerUnopened (h : KeyerInv roomId s) {env : Env} {frame : SignalingMessage}
    {epoch : UInt8} (hreach : s.InReach roomId (.keyerUnopened env frame epoch)) :
    KeyerInv roomId (s.keyerDid roomId
      (s.keyer.noteUnopenedFrame P env frame roomId epoch.toNat)
      (s.minted roomId (.keyerUnopened env frame epoch))) := by
  have hseen := h.keyer.observe epoch.toNat
  unfold InReach at hreach
  simp only [minted, highest, ← SenderKeysGroup.highest_noteObservedEpoch] at hreach ⊢
  simp only [ConnectionManager.noteUnopenedFrame]
  generalize hc : { s.keyer with
    groupKeys := s.keyer.groupKeys.noteObservedEpoch roomId epoch.toNat } = c at *
  by_cases hmints : c.mintsWhenBehind roomId = true
  · have hgroups : s.keyer.groupKeys.noteObservedEpoch roomId epoch.toNat = c.groupKeys :=
      hc ▸ rfl
    simp only [hmints, if_true, Option.isSome_some, forall_const, hgroups] at hreach ⊢
    have hmint := hseen.mints_rotate hreach env.nowMs env.randomKey
    obtain ⟨hkeys, hseals⟩ :=
      ConnectionManager.rekeyRoomIfBehind_of_mints hmints (hmint.epochKey P)
    refine keyerInv_of_mint (P := P) h.offers hmint ?_ ?_
    · rw [Outcome.andThen_fst, ConnectionManager.groupKeys_resealToLaggingMember, hkeys]
    · rw [Outcome.andThen_snd]
      exact hseals.append (hkeys ▸ ConnectionManager.sealsHeld_resealToLaggingMember)
  · rw [if_neg hmints,
      ConnectionManager.rekeyRoomIfBehind_of_not_mints (Bool.eq_false_iff.mpr hmints)]
    exact keyerInv_of_quiet hseen h.offers .resealToLaggingMember

end RoomSystem

end ConquerD.Client
