import ConquerD.Client.GroupKey
import ConquerD.Lib.Run
import ConquerD.Wire.Space
import Mathlib.Logic.Function.Iterate

/-!
# Client: the key of the current epoch

Installing a key makes its epoch the current one and then drops the
lowest-numbered epochs over the bound. The number says nothing of the age: an
epoch below all retained ones, as after a wrap or when a key arrives late, is
dropped as soon as it is installed, and the conversation is left with a current
epoch it has no key for. In runs where no such epoch is installed on a full set
of keys, the current key is the one that came last.
-/

namespace ConquerD.Client

open Std (ExtTreeMap)
open Lib.Run Wire

namespace GroupState

/-! ## The bound on retained keys -/

theorem size_dropOldest (keys : ExtTreeMap Nat EpochKey) :
    (dropOldest keys).size = keys.size - 1 := by
  unfold dropOldest
  cases hmin : keys.minKey? with
  | none =>
    have hempty : keys = ∅ := ExtTreeMap.minKey?_eq_none_iff.mp hmin
    simp [hempty]
  | some oldest =>
    have hmem := ExtTreeMap.contains_minKey? hmin
    simp [ExtTreeMap.size_erase, hmem]

theorem size_iterate_dropOldest (n : Nat) (keys : ExtTreeMap Nat EpochKey) :
    (dropOldest^[n] keys).size = keys.size - n := by
  induction n generalizing keys with
  | zero => rfl
  | succ n ih =>
    rw [Function.iterate_succ_apply, ih, size_dropOldest]
    omega

theorem size_capRetained (keys : ExtTreeMap Nat EpochKey) :
    (capRetained keys).size ≤ maxRetainedEpochs := by
  rw [capRetained, size_iterate_dropOldest]
  omega

/-- A key installed at the epoch is not dropped on the spot: the epoch is held
already, there is room, or a lower one goes in its place. -/
def Retains (st : GroupState) (epoch : Nat) : Prop :=
  st.keys.contains epoch = true ∨ st.keys.size < maxRetainedEpochs ∨
    ∃ k ∈ st.keys.keys, k < epoch

instance (st : GroupState) (epoch : Nat) : Decidable (st.Retains epoch) :=
  inferInstanceAs (Decidable (_ ∨ _ ∨ _))

theorem getElem?_dropOldest {keys : ExtTreeMap Nat EpochKey} {k epoch : Nat} (hk : k ∈ keys)
    (hlt : k < epoch) : (dropOldest keys)[epoch]? = keys[epoch]? := by
  unfold dropOldest
  cases hmin : keys.minKey? with
  | none => rfl
  | some oldest =>
    have hle : (compare oldest k).isLE :=
      (ExtTreeMap.minKey?_eq_some_iff_mem_and_forall.mp hmin).2 k hk
    have hne : oldest ≠ epoch := by
      rw [Nat.isLE_compare] at hle
      omega
    simp [ExtTreeMap.getElem?_erase, hne]

theorem getElem?_capRetained_insert {st : GroupState} {epoch : Nat} (key : EpochKey)
    (hsize : st.keys.size ≤ maxRetainedEpochs) (h : st.Retains epoch) :
    (capRetained (st.keys.insert epoch key))[epoch]? = some key := by
  unfold capRetained
  have hinsert : (st.keys.insert epoch key)[epoch]? = some key := by simp
  -- without a lower epoch the insertion stays within the bound
  have hcases : (st.keys.insert epoch key).size - maxRetainedEpochs = 0 ∨
      (st.keys.insert epoch key).size - maxRetainedEpochs = 1 ∧ ∃ k ∈ st.keys, k < epoch := by
    rw [ExtTreeMap.size_insert]
    rcases h with hheld | hroom | ⟨k, hk, hlt⟩
    · left
      rw [if_pos hheld]
      omega
    · left
      split <;> omega
    · by_cases hheld : st.keys.contains epoch = true
      · left
        rw [if_pos hheld]
        omega
      · rw [if_neg hheld]
        have hmem : k ∈ st.keys := ExtTreeMap.mem_keys.mp hk
        by_cases hfull : st.keys.size = maxRetainedEpochs
        · exact .inr ⟨by omega, k, hmem, hlt⟩
        · exact .inl (by omega)
  rcases hcases with hzero | ⟨hone, k, hk, hlt⟩
  · rw [hzero]
    exact hinsert
  · rw [hone, Function.iterate_one, getElem?_dropOldest _ hlt, hinsert]
    exact ExtTreeMap.mem_insert.mpr (.inr hk)

theorem getElem?_capRetained_insert_of_not {st : GroupState} {epoch : Nat} (key : EpochKey)
    (hsize : st.keys.size ≤ maxRetainedEpochs) (h : ¬ st.Retains epoch) :
    (capRetained (st.keys.insert epoch key)).size = maxRetainedEpochs ∧
    (capRetained (st.keys.insert epoch key))[epoch]? = none := by
  simp only [Retains, not_or, not_exists, not_and, Nat.not_lt] at h
  obtain ⟨hnew, hfull, hlow⟩ := h
  have hfive : (st.keys.insert epoch key).size - maxRetainedEpochs = 1 := by
    rw [ExtTreeMap.size_insert, if_neg hnew]
    omega
  have hmin : (st.keys.insert epoch key).minKey? = some epoch := by
    refine ExtTreeMap.minKey?_eq_some_iff_mem_and_forall.mpr ⟨?_, fun k hk => ?_⟩
    · exact ExtTreeMap.mem_insert.mpr (.inl (Std.compare_eq_iff_eq.mpr rfl))
    · rw [Nat.isLE_compare]
      rcases ExtTreeMap.mem_insert.mp hk with heq | hmem
      · exact (Std.compare_eq_iff_eq.mp heq).le
      · exact hlow k (ExtTreeMap.mem_keys.mpr hmem)
  refine ⟨?_, ?_⟩
  · rw [capRetained, size_iterate_dropOldest, hfive]
    omega
  · simp [capRetained, hfive, dropOldest, hmin]

end GroupState

/-! ## Runs -/

/-- The operations on room keys. Epochs are bytes. -/
inductive KeyEvent where
  | newOwnerEpoch (convId : String) (now : Nat) (key : EpochKey)
  | rotate (convId : String) (now : Nat) (key : EpochKey)
  | install (convId : String) (now : Nat) (epoch : UInt8) (key : EpochKey)
  | noteObservedEpoch (convId : String) (epoch : UInt8)
  | forget (convId : String)

/-- The keys, and for each conversation the key installed or minted last. -/
structure KeyLog where
  group : SenderKeysGroup
  latest : ExtTreeMap String EpochKey

namespace KeyLog

def start : KeyLog :=
  ⟨.new, ∅⟩

def apply (L : KeyLog) : KeyEvent → KeyLog
  | .newOwnerEpoch convId now key =>
    ⟨(L.group.newOwnerEpoch convId now key).1, L.latest.insert convId key⟩
  | .rotate convId now key =>
    ⟨(L.group.rotate convId now key).1, L.latest.insert convId key⟩
  | .install convId now epoch key =>
    ⟨L.group.install convId now epoch.toNat key, L.latest.insert convId key⟩
  | .noteObservedEpoch convId epoch =>
    { L with group := L.group.noteObservedEpoch convId epoch.toNat }
  | .forget convId => ⟨L.group.forget convId, L.latest.erase convId⟩

/-- The epoch an operation installs is not below a full set of retained ones. -/
def Keeps (L : KeyLog) : KeyEvent → Prop
  | .newOwnerEpoch _ _ _ => True
  | .rotate convId _ _ => ∀ st ∈ L.group.groups[convId]?, st.Retains st.nextEpoch
  | .install convId _ epoch _ => ∀ st ∈ L.group.groups[convId]?, st.Retains epoch.toNat
  | .noteObservedEpoch _ _ => True
  | .forget _ => True

/-- A conversation keeps to the bound, and its current key is the one that came
last. -/
structure Current (st : GroupState) (latest : Option EpochKey) : Prop where
  bounded : st.keys.size ≤ maxRetainedEpochs
  held : st.hasKeys = true → ∃ key, latest = some key ∧ st.keys[st.current]? = some key

theorem current_default (latest : Option EpochKey) : Current .default latest := by
  refine ⟨Nat.zero_le _, fun h => ?_⟩
  simp [GroupState.hasKeys, GroupState.default] at h

theorem Current.install {st : GroupState} {latest : Option EpochKey} (h : Current st latest)
    {epoch : Nat} (hretains : st.Retains epoch) (now : Nat) (key : EpochKey) :
    Current (st.install now epoch key) (some key) :=
  ⟨GroupState.size_capRetained _,
    fun _ => ⟨key, rfl, GroupState.getElem?_capRetained_insert key h.bounded hretains⟩⟩

theorem Current.noteSeen {st : GroupState} {latest : Option EpochKey} (h : Current st latest)
    (epoch : Nat) : Current (st.noteSeen epoch) latest :=
  ⟨h.bounded, h.held⟩

theorem retains_default (seenHigh : Option Nat) (epoch : Nat) :
    ({ GroupState.default with seenHigh := seenHigh } : GroupState).Retains epoch := by
  refine .inr (.inl ?_)
  simp [GroupState.default, maxRetainedEpochs]

def Inv (L : KeyLog) : Prop :=
  ∀ convId : String, ∀ st ∈ L.group.groups[convId]?, Current st L.latest[convId]?

theorem inv_start : start.Inv := by
  intro convId st hst
  simp [start, SenderKeysGroup.new] at hst

theorem Inv.insert {L : KeyLog} (h : L.Inv) {convId : String} {st : GroupState}
    {latest : ExtTreeMap String EpochKey} (hst : Current st latest[convId]?)
    (hlatest : ∀ other, convId ≠ other → latest[other]? = L.latest[other]?) :
    Inv ⟨⟨L.group.groups.insert convId st⟩, latest⟩ := by
  intro other st' hst'
  by_cases ho : convId = other
  · subst ho
    simp only [ExtTreeMap.getElem?_insert_self, Option.mem_some_iff] at hst'
    subst hst'
    exact hst
  · simp only [ExtTreeMap.getElem?_insert, Std.compare_eq_iff_eq, ho, if_false] at hst'
    have hcurrent := h other st' hst'
    rw [← hlatest other ho] at hcurrent
    exact hcurrent

theorem Inv.install {L : KeyLog} (h : L.Inv) {convId : String} {st : GroupState}
    {latest : Option EpochKey} (hst : Current st latest) {epoch : Nat}
    (hretains : st.Retains epoch) (now : Nat) (key : EpochKey) :
    Inv ⟨⟨L.group.groups.insert convId (st.install now epoch key)⟩,
      L.latest.insert convId key⟩ := by
  refine h.insert ?_ fun other ho => ?_
  · rw [ExtTreeMap.getElem?_insert_self]
    exact hst.install hretains now key
  · simp [ExtTreeMap.getElem?_insert, ho]

theorem Inv.newOwnerEpoch {L : KeyLog} (h : L.Inv) (convId : String) (now : Nat)
    (key : EpochKey) :
    Inv ⟨(L.group.newOwnerEpoch convId now key).1, L.latest.insert convId key⟩ := by
  have hcurrent : Current { GroupState.default with
      seenHigh := L.group.groups[convId]?.bind GroupState.seenHigh } none := by
    refine ⟨Nat.zero_le _, fun hkeys => ?_⟩
    simp [GroupState.hasKeys, GroupState.default] at hkeys
  exact h.install hcurrent (retains_default _ _) now key

theorem Inv.apply {L : KeyLog} (h : L.Inv) {e : KeyEvent} (hkeeps : L.Keeps e) :
    (L.apply e).Inv := by
  cases e with
  | newOwnerEpoch convId now key => exact h.newOwnerEpoch convId now key
  | rotate convId now key =>
    simp only [KeyLog.apply, SenderKeysGroup.rotate]
    cases hst : L.group.groups[convId]? with
    | none => exact h.newOwnerEpoch convId now key
    | some st => exact h.install (h convId st hst) (hkeeps st hst) now key
  | install convId now epoch key =>
    simp only [KeyLog.apply, SenderKeysGroup.install]
    cases hst : L.group.groups[convId]? with
    | none => exact h.install (current_default none) (retains_default none _) now key
    | some st => exact h.install (h convId st hst) (hkeeps st hst) now key
  | noteObservedEpoch convId epoch =>
    simp only [KeyLog.apply, SenderKeysGroup.noteObservedEpoch]
    refine h.insert ?_ fun _ _ => rfl
    cases hst : L.group.groups[convId]? with
    | none => exact (current_default _).noteSeen _
    | some st => exact (h convId st hst).noteSeen _
  | forget convId =>
    intro other st hst
    simp only [KeyLog.apply, SenderKeysGroup.forget, ExtTreeMap.getElem?_erase] at hst ⊢
    split at hst
    · exact absurd hst (Option.not_mem_none st)
    · next ho =>
      rw [if_neg ho]
      exact h other st hst

/-- After any operations of which none installs an epoch below a full set of
retained ones: every conversation with a real key holds the key of its current
epoch, which is the key installed or minted last, and at most four epochs. -/
theorem current_key_retained (P : Platform) (es : List KeyEvent)
    (hkeeps : Along apply Keeps start es) (convId : String)
    (hreal : (run apply start es).group.hasRealKey convId = true) :
    (∃ key, (run apply start es).latest[convId]? = some key ∧
      (run apply start es).group.epochKey convId P
        ((run apply start es).group.currentEpoch convId) = some key) ∧
    ∀ st ∈ (run apply start es).group.groups[convId]?, st.keys.size ≤ maxRetainedEpochs := by
  have hinv := hkeeps.run_inv Inv inv_start fun L e hi he => hi.apply he
  generalize run apply start es = L at hreal hinv ⊢
  unfold SenderKeysGroup.hasRealKey at hreal
  cases hst : L.group.groups[convId]? with
  | none => simp [hst] at hreal
  | some st =>
    simp only [hst, Option.map_some, Option.getD_some] at hreal
    obtain ⟨key, hlatest, hkey⟩ := (hinv convId st hst).held hreal
    refine ⟨⟨key, hlatest, ?_⟩, fun st' hst' => ?_⟩
    · simp [SenderKeysGroup.epochKey, SenderKeysGroup.currentEpoch, hst, Option.filter, hreal, hkey]
    · exact Option.some.inj hst' ▸ (hinv convId st hst).bounded

/-! ## An epoch that comes late -/

theorem install_below_drops (L : KeyLog) (P : Platform) (convId : String) (now : Nat)
    (epoch : UInt8) (key : EpochKey)
    (hsize : (L.group.groups[convId]?.getD .default).keys.size ≤ maxRetainedEpochs)
    (h : ¬ (L.group.groups[convId]?.getD .default).Retains epoch.toNat) :
    (L.apply (.install convId now epoch key)).group.hasRealKey convId = true ∧
    (L.apply (.install convId now epoch key)).group.epochKey convId P
      ((L.apply (.install convId now epoch key)).group.currentEpoch convId) = none := by
  obtain ⟨hfull, hnone⟩ := GroupState.getElem?_capRetained_insert_of_not key hsize h
  have hkeys : ((L.group.groups[convId]?.getD .default).install now epoch.toNat key).hasKeys =
      true := by
    simp only [GroupState.hasKeys, GroupState.install, ExtTreeMap.isEmpty_eq_size_beq_zero, hfull]
    rfl
  have hnone' : ((L.group.groups[convId]?.getD .default).install now epoch.toNat key).keys[
      ((L.group.groups[convId]?.getD .default).install now epoch.toNat key).current]? = none :=
    hnone
  constructor
  · simp [apply, SenderKeysGroup.install, SenderKeysGroup.hasRealKey, hkeys]
  · simp [apply, SenderKeysGroup.install, SenderKeysGroup.epochKey, SenderKeysGroup.currentEpoch,
      Option.filter, hkeys, hnone']

theorem hasRealKey_install {L : KeyLog} {convId : String} {now : Nat} {epoch : UInt8}
    {key : EpochKey}
    (hsize : (L.group.groups[convId]?.getD .default).keys.size ≤ maxRetainedEpochs)
    (h : (L.group.groups[convId]?.getD .default).Retains epoch.toNat) :
    (L.apply (.install convId now epoch key)).group.hasRealKey convId = true := by
  have hheld := GroupState.getElem?_capRetained_insert key hsize h
  simp only [KeyLog.apply, SenderKeysGroup.install, SenderKeysGroup.hasRealKey,
    ExtTreeMap.getElem?_insert_self, Option.map_some, Option.getD_some, GroupState.hasKeys]
  by_contra hnone
  have hempty : ((L.group.groups[convId]?.getD .default).install now epoch.toNat key).keys = ∅ := by
    simpa using hnone
  rw [show GroupState.capRetained _ = ∅ from hempty] at hheld
  simp at hheld

/-- The keys of four epochs in order. -/
def fourKeys : List KeyEvent :=
  [.install "room" 0 10 [1], .install "room" 0 11 [2], .install "room" 0 12 [3],
    .install "room" 0 13 [4]]

/-- A fifth key comes late, of an earlier epoch, and is lost: the conversation
has a real key and none for its current epoch. -/
theorem late_key_lost :
    (run apply start (fourKeys ++ [.install "room" 0 5 [5]])).group.hasRealKey "room" = true ∧
    (run apply start (fourKeys ++ [.install "room" 0 5 [5]])).group.epochKey "room" .symbolic
      ((run apply start (fourKeys ++ [.install "room" 0 5 [5]])).group.currentEpoch "room") =
        none := by
  rw [run_append]
  exact install_below_drops (run apply start fourKeys) .symbolic "room" 0 5 [5]
    (by decide +kernel) (by decide +kernel)

/-- A fifth key of a later epoch takes the place of the first, and is the current one. -/
theorem fiveKeys_retained :
    ∃ key, (run apply start (fourKeys ++ [.install "room" 0 14 [5]])).latest["room"]? = some key ∧
      (run apply start (fourKeys ++ [.install "room" 0 14 [5]])).group.epochKey "room" .symbolic
        ((run apply start (fourKeys ++ [.install "room" 0 14 [5]])).group.currentEpoch "room") =
          some key := by
  have hroom : ((run apply start fourKeys).group.groups["room"]?.getD .default).Retains 14 := by
    decide +kernel
  have hreal : (run apply start (fourKeys ++ [.install "room" 0 14 [5]])).group.hasRealKey "room" =
      true := by
    rw [run_append]
    exact hasRealKey_install (by decide +kernel) hroom
  refine (current_key_retained .symbolic (fourKeys ++ [.install "room" 0 14 [5]]) ?_ "room"
    hreal).1
  refine ⟨?_, ?_, ?_, ?_, ?_, trivial⟩
  all_goals
    unfold Keeps
    decide +kernel

end KeyLog

end ConquerD.Client
