import ConquerD.Client.Verify.GroupKey
import ConquerD.Client.Verify.SealDomains

/-!
# Client: minted epochs are ahead of all that was seen

A keyer mints one above the highest epoch it has installed, minted or observed, and what
it seals then opens. The exception is the end of the bytes: once 255 was seen, by a
rotation or in a single frame of anyone, the mint wraps to zero.
-/

namespace ConquerD.Client

open Std (ExtTreeMap)
open Lib.Encoding Lib.Run Wire

variable {P : Platform} {A : Aesgcm} {convId : String} {seen : List Nat}

/-! ## What a conversation has seen -/

namespace GroupState

variable {st : GroupState}

/-- The state against the epochs that were installed, minted or observed. -/
structure Sees (st : GroupState) (seen : List Nat) : Prop where
  seenHigh : st.seenHigh = seen.max?
  current : st.current ≤ seen.max?.getD 0
  held : ∀ e ∈ st.keys, e ∈ seen
  bounded : st.keys.size ≤ maxRetainedEpochs
  byte : ∀ e ∈ seen, e < 256

theorem sees_default : default.Sees [] where
  seenHigh := rfl
  current := Nat.zero_le _
  held _ he := absurd he ExtTreeMap.not_mem_empty
  bounded := Nat.zero_le _
  byte _ he := absurd he List.not_mem_nil

theorem seenHigh_noteSeen (st : GroupState) (epoch : Nat) :
    (st.noteSeen epoch).seenHigh = some (st.seenHigh.elim epoch (max epoch)) := by
  unfold noteSeen
  cases st.seenHigh with
  | none => rfl
  | some high =>
    dsimp only [Option.elim]
    split
    · next h => rw [max_eq_right h]
    · next h => rw [max_eq_left (Nat.le_of_not_ge h)]

theorem le_max?_cons (epoch : Nat) (seen : List Nat) :
    seen.max?.getD 0 ≤ (epoch :: seen).max?.getD 0 ∧ epoch ≤ (epoch :: seen).max?.getD 0 := by
  rw [List.max?_cons]
  cases seen.max? with
  | none => exact ⟨Nat.zero_le _, Nat.le_refl _⟩
  | some high => exact ⟨Nat.le_max_right _ _, Nat.le_max_left _ _⟩

theorem Sees.noteSeen (h : st.Sees seen) {epoch : Nat} (hbyte : epoch < 256) :
    (st.noteSeen epoch).Sees (epoch :: seen) where
  seenHigh := by rw [seenHigh_noteSeen, h.seenHigh, List.max?_cons]
  current := h.current.trans (le_max?_cons epoch seen).1
  held e he := List.mem_cons_of_mem _ (h.held e he)
  bounded := h.bounded
  byte e he := by
    rcases List.mem_cons.mp he with rfl | he
    · exact hbyte
    · exact h.byte e he

theorem mem_of_mem_dropOldest {keys : ExtTreeMap Nat EpochKey} {e : Nat}
    (h : e ∈ dropOldest keys) : e ∈ keys := by
  unfold dropOldest at h
  split at h
  · exact h
  · exact ExtTreeMap.mem_of_mem_erase h

theorem mem_of_mem_capRetained {keys : ExtTreeMap Nat EpochKey} {e : Nat}
    (h : e ∈ capRetained keys) : e ∈ keys := by
  have hdropped : ∀ n (keys : ExtTreeMap Nat EpochKey), e ∈ dropOldest^[n] keys → e ∈ keys := by
    intro n
    induction n with
    | zero => exact fun _ h => h
    | succ n ih => exact fun keys h => mem_of_mem_dropOldest (ih (dropOldest keys) h)
  exact hdropped _ keys h

theorem Sees.install (h : st.Sees seen) (now : Nat) {epoch : Nat} (hbyte : epoch < 256)
    (key : EpochKey) : (st.install now epoch key).Sees (epoch :: seen) where
  seenHigh := (h.noteSeen hbyte).seenHigh
  current := (le_max?_cons epoch seen).2
  held e he := by
    rcases ExtTreeMap.mem_insert.mp (mem_of_mem_capRetained he) with hsame | he
    · rw [Std.compare_eq_iff_eq.mp hsame]
      exact List.mem_cons_self
    · exact List.mem_cons_of_mem _ (h.held e he)
  bounded := size_capRetained _
  byte := (h.noteSeen hbyte).byte

theorem Sees.anew (h : st.Sees seen) : Sees { default with seenHigh := st.seenHigh } seen where
  seenHigh := h.seenHigh
  current := Nat.zero_le _
  held _ he := absurd he ExtTreeMap.not_mem_empty
  bounded := Nat.zero_le _
  byte := h.byte

theorem Sees.nextEpoch_eq (h : st.Sees seen) :
    st.nextEpoch = (seen.max?.getD 0 + 1) % 256 := by
  have hcurrent := h.current
  unfold nextEpoch
  rw [h.seenHigh]
  cases hmax : seen.max? with
  | none =>
    rw [hmax] at hcurrent
    rw [Nat.le_zero.mp hcurrent]
    rfl
  | some high =>
    rw [hmax, Option.getD_some] at hcurrent
    dsimp only
    rw [if_pos hcurrent, Option.getD_some]

theorem Sees.nextEpoch_lt (h : st.Sees seen) : st.nextEpoch < 256 := by
  rw [h.nextEpoch_eq]
  exact Nat.mod_lt _ (by decide)

theorem Sees.lt_nextEpoch (h : st.Sees seen) (hroom : 255 ∉ seen) {e : Nat} (he : e ∈ seen) :
    e < st.nextEpoch := by
  obtain ⟨high, hmax⟩ := Option.isSome_iff_exists.mp (List.isSome_max?_of_mem he)
  obtain ⟨hmem, hle⟩ := List.max?_eq_some_iff.mp hmax
  have hbyte := h.byte high hmem
  have hne : high ≠ 255 := fun heq => hroom (heq ▸ hmem)
  have hhigh := hle e he
  rw [h.nextEpoch_eq, hmax, Option.getD_some, Nat.mod_eq_of_lt (by omega)]
  omega

theorem Sees.nextEpoch_eq_zero (h : st.Sees seen) (hlast : 255 ∈ seen) : st.nextEpoch = 0 := by
  have hmax : seen.max? = some 255 :=
    List.max?_eq_some_iff.mpr ⟨hlast, fun e he => Nat.le_of_lt_succ (h.byte e he)⟩
  rw [h.nextEpoch_eq, hmax]
  rfl

end GroupState

/-! ## Runs -/

/-- The keys, and the epochs that were installed, minted or observed for the conversation
since it was forgotten last. -/
structure EpochLog where
  group : SenderKeysGroup
  seen : List Nat

namespace EpochLog

def start : EpochLog :=
  ⟨.new, []⟩

/-- An epoch that is about the conversation is noted. -/
def note (convId other : String) (epoch : Nat) (seen : List Nat) : List Nat :=
  if other = convId then epoch :: seen else seen

def apply (convId : String) (L : EpochLog) : KeyEvent → EpochLog
  | .newOwnerEpoch other now key =>
    ⟨(L.group.newOwnerEpoch other now key).1,
      note convId other (L.group.newOwnerEpoch other now key).2 L.seen⟩
  | .rotate other now key =>
    ⟨(L.group.rotate other now key).1,
      note convId other (L.group.rotate other now key).2 L.seen⟩
  | .install other now epoch key =>
    ⟨L.group.install other now epoch.toNat key, note convId other epoch.toNat L.seen⟩
  | .noteObservedEpoch other epoch =>
    ⟨L.group.noteObservedEpoch other epoch.toNat, note convId other epoch.toNat L.seen⟩
  | .forget other => ⟨L.group.forget other, if other = convId then [] else L.seen⟩

variable {L : EpochLog}

/-- The keys of the conversation have seen what the log has. -/
structure Tracks (convId : String) (L : EpochLog) : Prop where
  sees : (L.group.groups[convId]?.getD .default).Sees L.seen
  fresh : L.group.groups[convId]? = none → L.seen = []

theorem tracks_start (convId : String) : start.Tracks convId where
  sees := GroupState.sees_default
  fresh _ := rfl

theorem Tracks.insert (h : L.Tracks convId) {other : String} {st : GroupState} {epoch : Nat}
    (hst : other = convId → st.Sees (epoch :: L.seen)) :
    Tracks convId ⟨⟨L.group.groups.insert other st⟩, note convId other epoch L.seen⟩ := by
  unfold note
  by_cases hother : other = convId
  · subst hother
    refine ⟨?_, fun hnone => ?_⟩
    · rw [if_pos rfl, ExtTreeMap.getElem?_insert_self]
      exact hst rfl
    · rw [ExtTreeMap.getElem?_insert_self] at hnone
      cases hnone
  · have hsame : (L.group.groups.insert other st)[convId]? = L.group.groups[convId]? := by
      simp only [ExtTreeMap.getElem?_insert, Std.compare_eq_iff_eq, hother, if_false]
    refine ⟨?_, fun hnone => ?_⟩
    · rw [if_neg hother, hsame]
      exact h.sees
    · rw [if_neg hother]
      exact h.fresh (hsame ▸ hnone)

theorem Tracks.newOwnerEpoch (h : L.Tracks convId) (other : String) (now : Nat) (key : EpochKey) :
    Tracks convId ⟨(L.group.newOwnerEpoch other now key).1,
      note convId other (L.group.newOwnerEpoch other now key).2 L.seen⟩ := by
  refine h.insert fun hother => ?_
  subst hother
  have hsees := h.sees
  unfold SenderKeysGroup.newOwnerEpoch
  cases hst : L.group.groups[other]? with
  | none =>
    rw [hst] at hsees
    exact hsees.anew.install now (by decide) key
  | some st =>
    rw [hst] at hsees
    exact hsees.anew.install now hsees.nextEpoch_lt key

theorem Tracks.apply (h : L.Tracks convId) (e : KeyEvent) : (L.apply convId e).Tracks convId := by
  cases e with
  | newOwnerEpoch other now key => exact h.newOwnerEpoch other now key
  | rotate other now key =>
    simp only [EpochLog.apply, SenderKeysGroup.rotate]
    cases hst : L.group.groups[other]? with
    | none => exact h.newOwnerEpoch other now key
    | some st =>
      refine h.insert fun hother => ?_
      subst hother
      have hsees := h.sees
      rw [hst] at hsees
      exact hsees.install now hsees.nextEpoch_lt key
  | install other now epoch key =>
    refine h.insert fun hother => ?_
    subst hother
    exact h.sees.install now epoch.toNat_lt key
  | noteObservedEpoch other epoch =>
    refine h.insert fun hother => ?_
    subst hother
    exact h.sees.noteSeen epoch.toNat_lt
  | forget other =>
    simp only [EpochLog.apply, SenderKeysGroup.forget]
    by_cases hother : other = convId
    · subst hother
      rw [if_pos rfl]
      refine ⟨?_, fun _ => rfl⟩
      rw [ExtTreeMap.getElem?_erase_self]
      exact GroupState.sees_default
    · have hsame : (L.group.groups.erase other)[convId]? = L.group.groups[convId]? := by
        simp only [ExtTreeMap.getElem?_erase, Std.compare_eq_iff_eq, hother, if_false]
      rw [if_neg hother]
      refine ⟨?_, fun hnone => h.fresh (hsame ▸ hnone)⟩
      rw [hsame]
      exact h.sees

theorem tracks_run (convId : String) (es : List KeyEvent) :
    (run (apply convId) start es).Tracks convId :=
  run_inv (Tracks convId) (tracks_start convId) fun _ e h => h.apply e

end EpochLog

/-! ## Mints -/

structure Forward (P : Platform) (A : Aesgcm) (convId : String) (seen : List Nat)
    (minted : SenderKeysGroup × Nat) (key : EpochKey) : Prop where
  above : ∀ e ∈ seen, e < minted.2
  notBehind : minted.1.isBehind convId = false
  opens : ∀ kind sender sequence nonce plaintext ct, nonce.length = voiceNonceLen →
    A.encrypt key nonce plaintext (mediaAad kind convId sender sequence) = some ct →
      sealMediaFrame A (minted.1.source P) kind convId sender sequence nonce plaintext =
          some (.ofNat minted.2 :: (nonce ++ ct)) ∧
        openMediaFrame A (minted.1.source P) kind convId sender sequence
          (.ofNat minted.2 :: (nonce ++ ct)) = some plaintext

theorem forward_install (hA : A.Exact) {st : GroupState} (hst : st.Sees seen) {epoch : Nat}
    (habove : ∀ e ∈ seen, e < epoch) (hbyte : epoch < 256) (hretains : st.Retains epoch)
    (g : SenderKeysGroup) (now : Nat) (key : EpochKey) :
    Forward P A convId seen (⟨g.groups.insert convId (st.install now epoch key)⟩, epoch) key := by
  have hkey : (st.install now epoch key).keys[epoch]? = some key :=
    GroupState.getElem?_capRetained_insert key hst.bounded hretains
  have hkeys : (st.install now epoch key).hasKeys = true := by
    unfold GroupState.hasKeys
    rw [Bool.not_eq_true', ExtTreeMap.isEmpty_eq_false_iff]
    intro hempty
    rw [hempty, ExtTreeMap.getElem?_empty] at hkey
    cases hkey
  have hhigh : (st.install now epoch key).seenHigh = some epoch := by
    rw [(hst.install now hbyte key).seenHigh]
    refine List.max?_eq_some_iff.mpr ⟨List.mem_cons_self, fun e he => ?_⟩
    rcases List.mem_cons.mp he with rfl | he
    · exact Nat.le_refl _
    · exact (habove e he).le
  refine ⟨habove, ?_, ?_⟩
  · simp only [SenderKeysGroup.isBehind, ExtTreeMap.getElem?_insert_self, hhigh]
    rw [ExtTreeMap.contains_eq_isSome_getElem?, hkey]
    rfl
  · intro kind sender sequence nonce plaintext ct hnonce hct
    generalize hsource : SenderKeysGroup.source P
      ⟨g.groups.insert convId (st.install now epoch key)⟩ = keys
    have hcurrent : keys.currentEpoch convId = .ofNat epoch := by
      rw [← hsource]
      simp only [SenderKeysGroup.source, SenderKeysGroup.currentEpoch,
        ExtTreeMap.getElem?_insert_self, Option.filter, hkeys, if_true, Option.map_some,
        Option.getD_some]
      rfl
    have hheld : keys.epochKey convId (.ofNat epoch) = some key := by
      have hround : (UInt8.ofNat epoch).toNat = epoch := UInt8.toNat_ofNat_of_lt hbyte
      rw [← hsource]
      simp only [SenderKeysGroup.source, SenderKeysGroup.epochKey,
        ExtTreeMap.getElem?_insert_self, Option.filter, hkeys, if_true, hround, hkey]
    have hsealed : sealUnder A keys convId (mediaAad kind convId sender sequence) nonce plaintext =
        some (.ofNat epoch, nonce ++ ct) :=
      sealUnder_eq_some_iff.mpr ⟨hcurrent.symm, key, hheld, ct, hct, rfl⟩
    constructor
    · rw [sealMediaFrame_eq, hsealed]
      rfl
    · rw [openMediaFrame_cons, openUnder_append hnonce, hheld, Option.bind_some]
      exact hA.opens _ _ _ _ _ hct

theorem retains_nextEpoch {st : GroupState} (hst : st.Sees seen) (hroom : 255 ∉ seen) :
    st.Retains st.nextEpoch := by
  by_cases hfull : st.keys.size < maxRetainedEpochs
  · exact .inr (.inl hfull)
  · have hpos : 0 < st.keys.keys.length := by
      rw [ExtTreeMap.length_keys]
      unfold maxRetainedEpochs at hfull
      omega
    obtain ⟨k, hk⟩ := List.exists_mem_of_length_pos hpos
    have hseen := hst.held k (ExtTreeMap.mem_keys.mp hk)
    exact .inr (.inr ⟨k, hk, hst.lt_nextEpoch hroom hseen⟩)

theorem not_forward_zero {minted : SenderKeysGroup × Nat} {key : EpochKey} (hzero : minted.2 = 0)
    (hlast : 255 ∈ seen) : ¬ Forward P A convId seen minted key := by
  intro h
  have habove := h.above 255 hlast
  omega

namespace EpochLog

variable {L : EpochLog}

theorem Tracks.forward_newOwnerEpoch (h : L.Tracks convId) (P : Platform) (hA : A.Exact)
    (now : Nat) (key : EpochKey) :
    Forward P A convId L.seen (L.group.newOwnerEpoch convId now key) key ↔ 255 ∉ L.seen := by
  have hsees := h.sees
  have hfresh := h.fresh
  unfold SenderKeysGroup.newOwnerEpoch
  cases hst : L.group.groups[convId]? with
  | none =>
    rw [hst] at hsees
    rw [hfresh hst] at hsees ⊢
    exact iff_of_true (forward_install hA hsees.anew (fun e he => absurd he List.not_mem_nil)
      (by decide) (KeyLog.retains_default _ _) _ _ _) List.not_mem_nil
  | some st =>
    rw [hst, Option.getD_some] at hsees
    constructor
    · exact fun hforward hlast => not_forward_zero (hsees.nextEpoch_eq_zero hlast) hlast hforward
    · intro hroom
      exact forward_install hA hsees.anew (fun e he => hsees.lt_nextEpoch hroom he)
        hsees.nextEpoch_lt (KeyLog.retains_default _ _) _ _ _

theorem Tracks.forward_rotate (h : L.Tracks convId) (P : Platform) (hA : A.Exact) (now : Nat)
    (key : EpochKey) :
    Forward P A convId L.seen (L.group.rotate convId now key) key ↔ 255 ∉ L.seen := by
  have hsees := h.sees
  unfold SenderKeysGroup.rotate
  cases hst : L.group.groups[convId]? with
  | none => exact h.forward_newOwnerEpoch P hA now key
  | some st =>
    rw [hst, Option.getD_some] at hsees
    constructor
    · exact fun hforward hlast => not_forward_zero (hsees.nextEpoch_eq_zero hlast) hlast hforward
    · intro hroom
      exact forward_install hA hsees (fun e he => hsees.lt_nextEpoch hroom he)
        hsees.nextEpoch_lt (retains_nextEpoch hsees hroom) _ _ _

end EpochLog

/-- After any run, a mint of either kind is above all that was installed, minted or observed
and takes effect, exactly if epoch 255 was not among them. -/
theorem minted_forward_iff (P : Platform) (hA : A.Exact) (convId : String) (es : List KeyEvent)
    (now : Nat) (key : EpochKey) {L : EpochLog}
    (hrun : run (EpochLog.apply convId) .start es = L) :
    (Forward P A convId L.seen (L.group.newOwnerEpoch convId now key) key ↔ 255 ∉ L.seen) ∧
      (Forward P A convId L.seen (L.group.rotate convId now key) key ↔ 255 ∉ L.seen) := by
  subst hrun
  have htracks := EpochLog.tracks_run convId es
  exact ⟨htracks.forward_newOwnerEpoch P hA now key, htracks.forward_rotate P hA now key⟩

/-- A member restarts, sees that the room is at epoch four, and mints. -/
theorem minted_forward_five : Forward .symbolic markingCipher "room" [4]
    ((SenderKeysGroup.new.noteObservedEpoch "room" 4).newOwnerEpoch "room" 0 [7]) [7] :=
  (minted_forward_iff .symbolic exact_markingCipher "room" [.noteObservedEpoch "room" 4] 0 [7]
    rfl).1.mpr (by decide)

/-- After one frame of epoch 255. -/
def sawLast : EpochLog :=
  run (EpochLog.apply "room") .start [.noteObservedEpoch "room" 255]

/-- The mint is at zero, below the frame, and the conversation is behind still. -/
theorem mint_wraps :
    sawLast.seen = [255] ∧ (sawLast.group.newOwnerEpoch "room" 0 [7]).2 = 0 ∧
      (sawLast.group.newOwnerEpoch "room" 0 [7]).1.isBehind "room" = true := by
  decide +kernel

end ConquerD.Client
