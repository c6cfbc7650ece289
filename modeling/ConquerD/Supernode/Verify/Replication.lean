import ConquerD.Lib.Window
import ConquerD.Supernode.Replication
import ConquerD.Supernode.Verify.Frame
import Std.Data.String.ToNat

/-!
# Replicated frames are delivered once

The cache of seen ids of a node is the tail of the ids it has processed. As long
as an id stands for one frame, a copy the cache knows is a copy of a frame
processed before, and within the window of the cache a frame is processed once.
Whether an id stands for one frame is up to the clients for chat and audio; for
game frames it is up to the counter, which starts again at zero when its node
does.
-/

namespace ConquerD.Supernode

open Lib.Recent Lib.Rosters Lib.Run Wire

/-! ## Ids of game frames -/

theorem gameFrameId_toList (publicId : String) (seq : Nat) :
    (gameFrameId publicId seq).toList =
      ("game:".toList ++ publicId.toList) ++ ':' :: (toString seq).toList := by
  simp [gameFrameId]

/-- The id names the node and the number: digits follow the last colon. -/
theorem gameFrameId_inj {p q : String} {i j : Nat} (h : gameFrameId p i = gameFrameId q j) :
    p = q ∧ i = j := by
  have hl := congrArg String.toList h
  rw [gameFrameId_toList, gameFrameId_toList] at hl
  have hcolon := Lib.Text.notMem_toString_of_not_isDigit (c := ':') (by decide)
  obtain ⟨hname, hnum⟩ := Lib.Text.append_sep_inj (hcolon i) (hcolon j) hl
  refine ⟨String.toList_inj.mp (List.append_cancel_left hname), ?_⟩
  exact Nat.repr_inj.mp (String.toList_inj.mp hnum)

/-- The id is one a game frame could be handed over under. -/
def IsGameId (id : String) : Prop := "game:".toList <+: id.toList

instance (id : String) : Decidable (IsGameId id) :=
  inferInstanceAs (Decidable (_ <+: _))

theorem isGameId_gameFrameId (publicId : String) (seq : Nat) :
    IsGameId (gameFrameId publicId seq) := by
  unfold IsGameId
  rw [gameFrameId_toList, List.append_assoc]
  exact List.prefix_append _ _

theorem gameFrameId_ne_empty (publicId : String) (seq : Nat) : gameFrameId publicId seq ≠ "" := by
  intro h
  have hl := congrArg String.toList h
  rw [gameFrameId_toList] at hl
  simp at hl

/-! ## The cache -/

/-- The cache after a history of ids, none of them empty. -/
def SeenCache.ofHistory (cap : Nat) (ids : List String) : SeenCache :=
  ⟨lastN cap ids, cap⟩

theorem SeenCache.insertNew_empty (cache : SeenCache) : cache.insertNew "" = (cache, true) := by
  simp [SeenCache.insertNew]

theorem SeenCache.insertNew_seen {cap : Nat} {ids : List String} {id : String} (hne : id ≠ "")
    (h : id ∈ lastN cap ids) : (ofHistory cap ids).insertNew id = (ofHistory cap ids, false) := by
  simp [SeenCache.insertNew, ofHistory, hne, h]

theorem SeenCache.insertNew_fresh {cap : Nat} {ids : List String} {id : String} (hne : id ≠ "")
    (h : id ∉ lastN cap ids) :
    (ofHistory cap ids).insertNew id = (ofHistory cap (ids ++ [id]), true) := by
  simp [SeenCache.insertNew, ofHistory, hne, h, lastN_concat]

/-! ## One delivery -/

section Delivery

variable {P : Platform} {env : Env} {st : SupernodeState} {roomId messageId raw : String}

theorem nodup_getChatRecipients {mgr : SFURoomManager} (hwf : SfuWf mgr) (r : String) :
    (mgr.getChatRecipients r).Nodup := by
  unfold SFURoomManager.getChatRecipients
  cases hroom : mgr.getRoom r with
  | none => exact List.nodup_nil
  | some room =>
    refine List.nodup_append.mpr ⟨room.participants.nodup_keys, nodup_toList, ?_⟩
    rintro p hp _ hs rfl
    exact (hwf r room hroom).disjoint p (Std.ExtTreeMap.mem_keys.mp hp)
      (Std.ExtTreeSet.mem_toList.mp hs)

theorem deliveredTo_flatMap_sublist {send : String → List Outgoing} (l : List String)
    (h : ∀ p, ((send p).filterMap Outgoing.deliveredTo).Sublist [p]) :
    ((l.flatMap send).filterMap Outgoing.deliveredTo).Sublist l := by
  induction l with
  | nil => exact List.Sublist.refl _
  | cons p l ih =>
    rw [List.flatMap_cons, List.filterMap_append]
    exact (h p).append ih

theorem sendFeatureDatagram_sublist {p feature : String} {size : Nat} {datagram : Outgoing}
    {out : List Outgoing} (h : st.sendFeatureDatagram env p feature size datagram = some out) :
    out.Sublist [datagram] := by
  unfold SupernodeState.sendFeatureDatagram at h
  split at h
  · cases h
    split
    · exact List.Sublist.refl _
    · exact List.nil_sublist _
  · cases h

theorem deliveredTo_nodup (hwf : SfuWf st.sfu) :
    ((st.deliverReplicatedRoomFrame P env roomId messageId raw).2.filterMap
      Outgoing.deliveredTo).Nodup := by
  unfold SupernodeState.deliverReplicatedRoomFrame
  split
  · unfold SupernodeState.deliverReplicatedGameDatagram
    simp only
    split
    · exact List.nodup_nil
    · split
      · exact List.nodup_nil
      · split
        · exact List.nodup_nil
        · refine (deliveredTo_flatMap_sublist _ ?_).nodup (nodup_toList.filter _)
          intro member
          cases hsend : SupernodeState.sendFeatureDatagram _ _ member "game.relay.v1" _ _ with
          | none => exact List.nil_sublist _
          | some out => exact (sendFeatureDatagram_sublist hsend).filterMap _
  · split
    · unfold SupernodeState.deliverReplicatedAudio
      simp only
      split
      · exact List.nodup_nil
      · refine (deliveredTo_flatMap_sublist _ ?_).nodup (List.Nodup.filter _ ?_)
        · intro peer
          split
          · rename_i out hsend
            exact (sendFeatureDatagram_sublist hsend).filterMap _
          · split
            · exact List.Sublist.refl _
            · exact List.nil_sublist _
        · cases SFURoomManager.getRoom _ roomId with
          | none => exact List.nodup_nil
          | some room => exact room.participants.nodup_keys
    · unfold SupernodeState.deliverReplicatedChat
      simp only
      split
      · exact List.nodup_nil
      · have hsfu : SfuWf (st.insertSeen messageId).1.sfu := hwf
        rw [List.filterMap_map]
        simpa [Outgoing.deliveredTo, Function.comp_def] using
          (nodup_getChatRecipients hsfu roomId).filter _

theorem delivered_of_seen (h : (st.insertSeen messageId).2 = false) :
    (st.deliverReplicatedRoomFrame P env roomId messageId raw).2 = [] := by
  unfold SupernodeState.deliverReplicatedRoomFrame SupernodeState.deliverReplicatedGameDatagram
    SupernodeState.deliverReplicatedAudio SupernodeState.deliverReplicatedChat
  simp [h]

end Delivery

/-! ## The condition -/

section Condition

variable {ν : Type} [DecidableEq ν]

/-- Fewer than 16384 frames were processed at a node between two copies of one
frame. -/
def Cluster.WithinWindow (c : Cluster ν) : ClusterEvent ν → Prop
  | .copy m f _ => (c.processed m).length ≤ (c.processed m).idxOf f + 16384
  | _ => True

instance (c : Cluster ν) : (e : ClusterEvent ν) → Decidable (c.WithinWindow e)
  | .copy .. => inferInstanceAs (Decidable (_ ≤ _))
  | .node .. => .isTrue trivial
  | .restart .. => .isTrue trivial

/-- A client frame that is handed over brings no id, or one no other frame has
and no game frame can have. -/
def Cluster.FreshIds (c : Cluster ν) (frames : List (Frame ν)) : Prop :=
  ∀ f ∈ frames, f.messageId ≠ "" → ¬ IsGameId f.messageId ∧
    ∀ g ∈ c.originated ++ frames, g.messageId = f.messageId → g = f

instance (c : Cluster ν) (frames : List (Frame ν)) : Decidable (c.FreshIds frames) :=
  inferInstanceAs (Decidable (∀ f ∈ frames, _ → _ ∧ ∀ g ∈ c.originated ++ frames, _ → _))

/-- The step does not bring an id to stand for two frames, nor a frame back to a
node that has forgotten it: client frames have ids of their own, a node's game
counter stands at the number of game frames it has originated in all its
lifetimes, and no copy reaches a node that processed the frame before it
restarted. -/
def Cluster.OneFramePerId (P : Platform) (c : Cluster ν) : ClusterEvent ν → Prop
  | .node _ (.replicated ..) => True
  | .node n (.gameDatagram ..) =>
    (c.nodes n).config.clustered = true → (c.nodes n).gameReplicationSeq = c.minted n
  | .node n e => c.FreshIds (handedOver none ((c.nodes n).handle P e).2)
  | .copy m f _ => f ∉ c.forgotten m
  | .restart .. => True

end Condition

/-! ## The invariant -/

section Invariant

variable {ν : Type} {P : Platform} {config : ν → Config} {c : Cluster ν}

/-- A node: its cache holds the last ids of the frames it has processed. -/
structure MemberInv (config : Config) (st : SupernodeState) (processed : List (Frame ν)) :
    Prop where
  config : st.config = config
  wf : SfuWf st.sfu
  seen : st.replicationSeen = .ofHistory 16384 (processed.map Frame.messageId)
  nodup : processed.Nodup

/-- The frames handed over: an id stands for one frame, and tells a game frame
from the others. -/
structure OriginatedInv (config : ν → Config) (minted : ν → Nat) (frames : List (Frame ν)) :
    Prop where
  one : ∀ f ∈ frames, ∀ g ∈ frames, f.messageId ≠ "" → g.messageId = f.messageId → g = f
  game : ∀ f ∈ frames, ∀ n k, f.serial = some (n, k) →
    k < minted n ∧ f.messageId = gameFrameId (config n).publicId k
  client : ∀ f ∈ frames, f.serial = none → f.messageId ≠ "" → ¬ IsGameId f.messageId

def Cluster.identified (c : Cluster ν) : List (ν × Frame ν × String) :=
  c.deliveries.filter fun d => d.2.1.messageId ≠ ""

structure ClusterInv (config : ν → Config) (c : Cluster ν) : Prop where
  member : ∀ n, MemberInv (config n) (c.nodes n) (c.processed n)
  originated : OriginatedInv config c.minted c.originated
  processed : ∀ n, ∀ f ∈ c.processed n, f ∈ c.originated ∧ f.messageId ≠ ""
  delivered : ∀ d ∈ c.identified, d.2.1 ∈ c.processed d.1 ∨ d.2.1 ∈ c.forgotten d.1
  once : c.identified.Nodup

theorem MemberInv.start (config : Config) (peers : PeerStore) (handshake : HandshakeManager) :
    MemberInv config (.start config peers handshake) ([] : List (Frame ν)) where
  config := rfl
  wf := SfuWf.new
  seen := by simp [SupernodeState.start, SeenCache.new, SeenCache.ofHistory]
  nodup := List.nodup_nil

theorem ClusterInv.start (config : ν → Config) (peers : ν → PeerStore)
    (handshake : ν → HandshakeManager) : ClusterInv config (Cluster.start config peers handshake) where
  member n := MemberInv.start _ _ _
  originated := ⟨by simp [Cluster.start], by simp [Cluster.start], by simp [Cluster.start]⟩
  processed n := by simp [Cluster.start]
  delivered := by simp [Cluster.start, Cluster.identified]
  once := List.nodup_nil

/-! ## Nodes and their caches -/

variable {st : SupernodeState} {processed : List (Frame ν)}

theorem handle_keepsSeen {e : Event} (hrepl : ∀ env r i raw, e ≠ .replicated env r i raw) :
    (st.handle P e).1.config = st.config ∧
      (st.handle P e).1.replicationSeen = st.replicationSeen := by
  by_cases hgame : ∃ s p b, e = .gameDatagram s p b
  · obtain ⟨s, p, b, rfl⟩ := hgame
    simp only [SupernodeState.handle, SupernodeState.replicateGameDatagram]
    split
    · exact ⟨rfl, rfl⟩
    · exact ⟨rfl, rfl⟩
  · push Not at hgame
    have hk : SupernodeState.KeepsLink P st (st.handle P e).1 :=
      SupernodeState.handle_keepsLink hgame hrepl
    exact ⟨hk.config, hk.replicationSeen⟩

theorem MemberInv.handle {conf : Config} (h : MemberInv conf st processed) {e : Event}
    (hrepl : ∀ env r i raw, e ≠ .replicated env r i raw) :
    MemberInv conf (st.handle P e).1 processed where
  config := (handle_keepsSeen hrepl).1.trans h.config
  wf := SupernodeState.step_wf h.wf e
  seen := (handle_keepsSeen hrepl).2.trans h.seen
  nodup := h.nodup

/-- The three things a copy can be: without an id, of a frame the cache knows, or
new to the cache. -/
theorem MemberInv.insertSeen {conf : Config} (h : MemberInv conf st processed) (id : String) :
    (id = "" ∧ st.insertSeen id = (st, true)) ∨
      (id ≠ "" ∧ id ∈ lastN 16384 (processed.map Frame.messageId) ∧
        st.insertSeen id = (st, false)) ∨
      (id ≠ "" ∧ id ∉ lastN 16384 (processed.map Frame.messageId) ∧
        st.insertSeen id = ({ st with
          replicationSeen := .ofHistory 16384 (processed.map Frame.messageId ++ [id]) }, true)) := by
  have hself : { st with
      replicationSeen := .ofHistory 16384 (processed.map Frame.messageId) } = st := by
    rw [← h.seen]
  by_cases hne : id = ""
  · subst hne
    exact .inl ⟨rfl, by rw [SupernodeState.insertSeen, SeenCache.insertNew_empty]⟩
  · by_cases hmem : id ∈ lastN 16384 (processed.map Frame.messageId)
    · refine .inr (.inl ⟨hne, hmem, ?_⟩)
      rw [SupernodeState.insertSeen, h.seen, SeenCache.insertNew_seen hne hmem, hself]
    · refine .inr (.inr ⟨hne, hmem, ?_⟩)
      rw [SupernodeState.insertSeen, h.seen, SeenCache.insertNew_fresh hne hmem]

theorem MemberInv.processed_concat {conf : Config} (h : MemberInv conf st processed) {f : Frame ν}
    (hnew : f ∉ processed) :
    MemberInv conf { st with
      replicationSeen := .ofHistory 16384 (processed.map Frame.messageId ++ [f.messageId]) }
      (processed ++ [f]) := by
  refine ⟨h.config, h.wf, ?_, ?_⟩
  · rw [List.map_append, List.map_singleton]
  · refine List.nodup_append.mpr ⟨h.nodup, List.nodup_singleton f, ?_⟩
    rintro g hg _ hg' rfl
    exact hnew (List.mem_singleton.mp hg' ▸ hg)

theorem ClusterInv.processed_of_cache (h : ClusterInv config c) {m : ν} {f : Frame ν}
    (hf : f ∈ c.originated) (hne : f.messageId ≠ "")
    (hmem : f.messageId ∈ lastN 16384 ((c.processed m).map Frame.messageId)) :
    f ∈ c.processed m := by
  obtain ⟨g, hg, hid⟩ := List.mem_map.mp (mem_of_mem_lastN hmem)
  have hgf : g = f := h.originated.one f hf g (h.processed m g hg).1 hne hid
  exact hgf ▸ hg

theorem ClusterInv.of_identified_eq (h : ClusterInv config c) {c' : Cluster ν}
    (hnodes : c'.nodes = c.nodes) (horig : c'.originated = c.originated)
    (hminted : c'.minted = c.minted) (hproc : c'.processed = c.processed)
    (hforg : c'.forgotten = c.forgotten) (hid : c'.identified = c.identified) :
    ClusterInv config c' where
  member n := by
    rw [hnodes, hproc]
    exact h.member n
  originated := by
    rw [hminted, horig]
    exact h.originated
  processed n := by
    rw [hproc, horig]
    exact h.processed n
  delivered := by
    rw [hid, hproc, hforg]
    exact h.delivered
  once := by
    rw [hid]
    exact h.once

/-- A copy that is dropped as seen is a copy of a frame processed before. -/
def Cluster.DropsOnlySeen (c : Cluster ν) : ClusterEvent ν → Prop
  | .copy m f _ => f ∈ c.originated → ((c.nodes m).insertSeen f.messageId).2 = false →
    f ∈ c.processed m
  | _ => True

theorem ClusterInv.dropsOnlySeen (h : ClusterInv config c) (e : ClusterEvent ν) :
    c.DropsOnlySeen e := by
  cases e with
  | copy m f env =>
    intro hf hdropped
    rcases (h.member m).insertSeen f.messageId with ⟨-, hseen⟩ | ⟨hne, hmem, -⟩ | ⟨-, -, hseen⟩
    · rw [hseen] at hdropped
      cases hdropped
    · exact h.processed_of_cache hf hne hmem
    · rw [hseen] at hdropped
      cases hdropped
  | node n e => trivial
  | restart n peers handshake => trivial

/-! ## Frames handed over -/

theorem serial_of_mem_handedOver {serial : Option (ν × Nat)} {out : List Outgoing} {f : Frame ν}
    (h : f ∈ handedOver serial out) : f.serial = serial := by
  simp only [handedOver, List.mem_filterMap] at h
  obtain ⟨o, -, ho⟩ := h
  split at ho
  · cases ho
    rfl
  · cases ho

theorem handedOver_gameDatagram {serial : Option (ν × Nat)} {s p : String}
    {b : Lib.Encoding.Bytes} (hcl : st.config.clustered = true) :
    ∃ raw, handedOver serial (st.handle P (.gameDatagram s p b)).2 =
      [⟨serial, s, gameFrameId st.config.publicId st.gameReplicationSeq, raw⟩] := by
  refine ⟨P.jsonToString (st.gameEnvelope P s p b), ?_⟩
  simp [SupernodeState.handle, SupernodeState.replicateGameDatagram, hcl, handedOver,
    SupernodeState.gameMessageId]

theorem OriginatedInv.append_client {minted : ν → Nat} {new : List (Frame ν)}
    (h : OriginatedInv config minted c.originated) (hnew : ∀ f ∈ new, f.serial = none)
    (hfresh : c.FreshIds new) : OriginatedInv config minted (c.originated ++ new) where
  one f hf g hg hne heq := by
    rcases List.mem_append.mp hf with hf | hf
    · rcases List.mem_append.mp hg with hg | hg
      · exact h.one f hf g hg hne heq
      · exact ((hfresh g hg (heq ▸ hne)).2 f (List.mem_append_left _ hf) heq.symm).symm
    · exact (hfresh f hf hne).2 g hg heq
  game f hf n k hs := by
    rcases List.mem_append.mp hf with hf | hf
    · exact h.game f hf n k hs
    · rw [hnew f hf] at hs
      cases hs
  client f hf hs hne := by
    rcases List.mem_append.mp hf with hf | hf
    · exact h.client f hf hs hne
    · exact (hfresh f hf hne).1

theorem OriginatedInv.game_id_fresh {minted : ν → Nat} {frames : List (Frame ν)}
    (hinj : Function.Injective fun n => (config n).publicId)
    (h : OriginatedInv config minted frames) {f : Frame ν} (hf : f ∈ frames) (n : ν) :
    f.messageId ≠ gameFrameId (config n).publicId (minted n) := by
  intro heq
  cases hs : f.serial with
  | none =>
    refine h.client f hf hs ?_ ?_
    · rw [heq]
      exact gameFrameId_ne_empty _ _
    · rw [heq]
      exact isGameId_gameFrameId _ _
  | some nk =>
    obtain ⟨n', k⟩ := nk
    obtain ⟨hlt, hid⟩ := h.game f hf n' k hs
    obtain ⟨hpub, hnum⟩ := gameFrameId_inj (hid.symm.trans heq)
    have hn : n' = n := hinj hpub
    subst hn
    omega

variable [DecidableEq ν]

/-- The next game frame of a node whose counter stands where it should. -/
theorem OriginatedInv.append_game {minted : ν → Nat} {frames : List (Frame ν)}
    (hinj : Function.Injective fun n => (config n).publicId)
    (h : OriginatedInv config minted frames) {new : Frame ν} {n : ν}
    (hserial : new.serial = some (n, minted n))
    (hid : new.messageId = gameFrameId (config n).publicId (minted n)) :
    OriginatedInv config (Function.update minted n (minted n + 1)) (frames ++ [new]) where
  one f hf g hg hne heq := by
    rcases List.mem_append.mp hf with hf | hf
    · rcases List.mem_append.mp hg with hg | hg
      · exact h.one f hf g hg hne heq
      · rw [List.mem_singleton.mp hg, hid] at heq
        exact absurd heq.symm (h.game_id_fresh hinj hf n)
    · rw [List.mem_singleton.mp hf] at heq ⊢
      rcases List.mem_append.mp hg with hg | hg
      · rw [hid] at heq
        exact absurd heq (h.game_id_fresh hinj hg n)
      · exact List.mem_singleton.mp hg
  game f hf n' k hs := by
    rcases List.mem_append.mp hf with hf | hf
    · obtain ⟨hlt, hfid⟩ := h.game f hf n' k hs
      refine ⟨?_, hfid⟩
      by_cases hn : n' = n
      · subst hn
        simp only [Function.update_self]
        omega
      · simpa [Function.update_of_ne hn] using hlt
    · rw [List.mem_singleton.mp hf, hserial] at hs
      cases hs
      simpa [List.mem_singleton.mp hf] using hid
  client f hf hs hne := by
    rcases List.mem_append.mp hf with hf | hf
    · exact h.client f hf hs hne
    · rw [List.mem_singleton.mp hf, hserial] at hs
      cases hs

/-! ## Every step keeps the invariant -/

theorem ClusterInv.handleAt (h : ClusterInv config c) {n : ν} {serial : Option (ν × Nat)}
    {e : Event} {minted : ν → Nat} (hrepl : ∀ env r i raw, e ≠ .replicated env r i raw)
    (horig : OriginatedInv config minted
      (c.originated ++ handedOver serial ((c.nodes n).handle P e).2)) :
    ClusterInv config { c.handleAt P n serial e with minted := minted } where
  member m := by
    by_cases hm : m = n
    · subst hm
      simpa [Cluster.handleAt] using (h.member m).handle hrepl
    · simpa [Cluster.handleAt, Function.update_of_ne hm] using h.member m
  originated := horig
  processed m f hf :=
    ⟨List.mem_append_left _ (h.processed m f hf).1, (h.processed m f hf).2⟩
  delivered := h.delivered
  once := h.once

theorem mem_cache_of_processed {f : Frame ν} (hf : f ∈ processed)
    (hwin : processed.length ≤ processed.idxOf f + 16384) :
    f.messageId ∈ lastN 16384 (processed.map Frame.messageId) := by
  rw [← map_lastN]
  exact List.mem_map_of_mem (mem_lastN_of_idxOf hf hwin)

theorem ClusterInv.deliverCopy (h : ClusterInv config c) {m : ν} {f : Frame ν} {env : Env}
    (hf : f ∈ c.originated) (hwin : c.WithinWindow (.copy m f env))
    (hforg : f ∉ c.forgotten m) : ClusterInv config (c.deliverCopy P m f env) := by
  have hstate := @SupernodeState.deliverReplicatedRoomFrame_state P env (c.nodes m) f.raw f.roomId
    f.messageId
  rcases (h.member m).insertSeen f.messageId with
    ⟨hid, hseen⟩ | ⟨hne, -, hseen⟩ | ⟨hne, hmem, hseen⟩
  · -- frames without an id leave no trace among the identified deliveries
    refine h.of_identified_eq ?_ rfl rfl ?_ rfl ?_
    · simp [Cluster.deliverCopy, hstate, hseen]
    · simp [Cluster.deliverCopy, hid]
    · simp [Cluster.deliverCopy, Cluster.identified, hid, List.filter_map]
  · refine h.of_identified_eq ?_ rfl rfl ?_ rfl ?_
    · simp [Cluster.deliverCopy, hstate, hseen]
    · simp [Cluster.deliverCopy, hseen]
    · have hout := @delivered_of_seen P env (c.nodes m) f.roomId f.messageId f.raw
        (congrArg Prod.snd hseen)
      simp [Cluster.deliverCopy, Cluster.identified, hout]
  · have hnew : f ∉ c.processed m := fun hin => hmem (mem_cache_of_processed hin hwin)
    have hnodes : (c.deliverCopy P m f env).nodes = Function.update c.nodes m
        { c.nodes m with
          replicationSeen :=
            .ofHistory 16384 ((c.processed m).map Frame.messageId ++ [f.messageId]) } := by
      simp [Cluster.deliverCopy, hstate, hseen]
    have hproc : (c.deliverCopy P m f env).processed =
        Function.update c.processed m (c.processed m ++ [f]) := by
      simp [Cluster.deliverCopy, hseen, hne]
    have hident : (c.deliverCopy P m f env).identified = c.identified ++
        (((c.nodes m).deliverReplicatedRoomFrame P env f.roomId f.messageId f.raw).2.filterMap
          Outgoing.deliveredTo).map (m, f, ·) := by
      simp only [Cluster.deliverCopy, Cluster.identified, List.filter_append, List.filter_map]
      congr 2
      exact List.filter_eq_self.mpr (by simp [hne])
    refine ⟨?_, h.originated, ?_, ?_, ?_⟩
    · intro n
      rw [hnodes, hproc]
      by_cases hn : n = m
      · subst hn
        simpa using (h.member n).processed_concat hnew
      · simpa [Function.update_of_ne hn] using h.member n
    · intro n g hg
      rw [hproc] at hg
      by_cases hn : n = m
      · subst hn
        rw [Function.update_self, List.mem_append, List.mem_singleton] at hg
        rcases hg with hg | rfl
        · exact h.processed n g hg
        · exact ⟨hf, hne⟩
      · rw [Function.update_of_ne hn] at hg
        exact h.processed n g hg
    · intro d hd
      rw [hident, List.mem_append] at hd
      rw [hproc]
      rcases hd with hd | hd
      · rcases h.delivered d hd with hin | hin
        · refine .inl ?_
          by_cases hn : d.1 = m
          · rw [hn, Function.update_self]
            exact List.mem_append_left _ (hn ▸ hin)
          · rwa [Function.update_of_ne hn]
        · exact .inr hin
      · obtain ⟨p, -, rfl⟩ := List.mem_map.mp hd
        exact .inl (by simp)
    · -- earlier deliveries of the frame at this node would have it processed
      rw [hident, List.nodup_append]
      refine ⟨h.once, (deliveredTo_nodup (h.member m).wf).map ?_, ?_⟩
      · intro p q heq
        simpa using heq
      · rintro d hd _ hd' rfl
        obtain ⟨p, -, rfl⟩ := List.mem_map.mp hd'
        rcases h.delivered _ hd with hin | hin
        · exact hnew hin
        · exact hforg hin

theorem ClusterInv.restart (h : ClusterInv config c) (n : ν) (peers : PeerStore)
    (handshake : HandshakeManager) : ClusterInv config (c.step P (.restart n peers handshake)) where
  member m := by
    by_cases hm : m = n
    · subst hm
      simpa [Cluster.step, (h.member m).config] using MemberInv.start (config m) peers handshake
    · simpa [Cluster.step, Function.update_of_ne hm] using h.member m
  originated := h.originated
  processed m f hf := by
    by_cases hm : m = n
    · subst hm
      simp [Cluster.step] at hf
    · simp only [Cluster.step, Function.update_of_ne hm] at hf
      exact h.processed m f hf
  delivered d hd := by
    by_cases hm : d.1 = n
    · simp only [Cluster.step, hm, Function.update_self]
      exact .inr (List.mem_append.mpr (hm ▸ (h.delivered d hd).symm))
    · simpa [Cluster.step, Function.update_of_ne hm] using h.delivered d hd
  once := h.once

theorem ClusterInv.gameDatagram (hinj : Function.Injective fun n => (config n).publicId)
    (h : ClusterInv config c) {n : ν} {s p : String} {b : Lib.Encoding.Bytes}
    (hok : c.OneFramePerId P (.node n (.gameDatagram s p b))) :
    ClusterInv config (c.step P (.node n (.gameDatagram s p b))) := by
  refine h.handleAt (by simp) ?_
  split
  · rename_i hcl
    obtain ⟨raw, hframes⟩ := @handedOver_gameDatagram ν P (c.nodes n) (some (n, c.minted n)) s p b
      hcl
    rw [hframes]
    refine h.originated.append_game hinj rfl ?_
    rw [(h.member n).config, hok hcl]
  · rename_i hcl
    have hnone : handedOver (some (n, c.minted n))
        ((c.nodes n).handle P (.gameDatagram s p b)).2 = [] := by
      simp [SupernodeState.handle, SupernodeState.replicateGameDatagram, hcl, handedOver]
    rw [hnone, List.append_nil]
    exact h.originated

theorem ClusterInv.step (hinj : Function.Injective fun n => (config n).publicId)
    (h : ClusterInv config c) (e : ClusterEvent ν) (hwin : c.WithinWindow e)
    (hok : c.OneFramePerId P e) : ClusterInv config (c.step P e) := by
  cases e with
  | node n e =>
    by_cases hrepl : ∃ env r i raw, e = .replicated env r i raw
    · obtain ⟨env, r, i, raw, rfl⟩ := hrepl
      exact h
    · by_cases hgame : ∃ s p b, e = .gameDatagram s p b
      · obtain ⟨s, p, b, rfl⟩ := hgame
        exact h.gameDatagram hinj hok
      · push Not at hrepl hgame
        have hstep : c.step P (.node n e) = c.handleAt P n none e := by
          cases e <;>
            first | rfl | exact absurd rfl (hrepl _ _ _ _) | exact absurd rfl (hgame _ _ _)
        have hfresh : c.FreshIds (handedOver none ((c.nodes n).handle P e).2) := by
          cases e <;>
            first | exact hok | exact absurd rfl (hrepl _ _ _ _) | exact absurd rfl (hgame _ _ _)
        rw [hstep]
        exact h.handleAt hrepl (h.originated.append_client
          (fun f hf => serial_of_mem_handedOver hf) hfresh)
  | copy m f env =>
    simp only [Cluster.step]
    split
    · rename_i hf
      exact h.deliverCopy hf hwin hok
    · exact h
  | restart n peers handshake => exact h.restart n peers handshake

/-! ## The property -/

/-- What is delivered after the step went to each recipient once, and the step
suppresses nothing else. -/
def Cluster.DeliversOnce (P : Platform) (c : Cluster ν) (e : ClusterEvent ν) : Prop :=
  (c.step P e).identified.Nodup ∧ c.DropsOnlySeen e

/-- In every run in which an id never comes to stand for two frames, replicated
frames are delivered at most once and none is suppressed for another. -/
theorem replicatedFrames_delivered_once (config : ν → Config)
    (hinj : Function.Injective fun n => (config n).publicId) (peers : ν → PeerStore)
    (handshake : ν → HandshakeManager) (es : List (ClusterEvent ν))
    (hwin : Along (Cluster.step P) Cluster.WithinWindow (.start config peers handshake) es)
    (hids : Along (Cluster.step P) (Cluster.OneFramePerId P) (.start config peers handshake) es) :
    Along (Cluster.step P) (Cluster.DeliversOnce P) (.start config peers handshake) es := by
  have hboth := hwin.and hids
  refine hboth.imp_inv (ClusterInv config) (ClusterInv.start config peers handshake) ?_ ?_
  · intro c e hc he
    exact hc.step hinj e he.1 he.2
  · intro c e hc he
    exact ⟨(hc.step hinj e he.1 he.2).once, hc.dropsOnlySeen e⟩

end Invariant

/-! ## A game across two nodes -/

/-- The ids of two nodes. -/
def nodeId : Bool → String
  | false => "_FHNjmIYoaONpH7QAjDwWAgW7RO6MwOsXeuRFUiQgCU="
  | true => "J4EX_BRMcjQPZ9DyMW6Dhs7_vyskKMnFH-98WX8dQm4="

/-- The peers both nodes trust. -/
def players : PeerStore :=
  .load [SupernodeState.roomGuestRecord .symbolic .permissive alice.text,
    SupernodeState.roomGuestRecord .symbolic .permissive bob.text]

def twoNodes : Cluster Bool :=
  .start (fun n => ⟨nodeId n, true, ⟨true, true⟩, true⟩) (fun _ => players) (fun _ => ⟨"", ∅⟩)

def gameJoin (p : PublicId) : Event :=
  .message .permissive
    { msgType := .gameRelayJoin, sender := p, payload := .obj [("room", .str "pong")],
      signature := none } ""

def bobPlays (payload : Lib.Encoding.Bytes) : List (ClusterEvent Bool) :=
  [.node false (gameJoin bob), .node false (.gameDatagram "game:pong" (bare bob.text) payload)]

/-- The frame that originates when Bob plays, by its number. The node numbers
frames from zero each time it starts. -/
def bobsFrame (number : Nat) (payload : Lib.Encoding.Bytes) : Frame Bool where
  serial := some (false, number)
  roomId := "game:pong"
  messageId := gameFrameId (nodeId false) 0
  raw := Platform.symbolic.jsonToString
    ((twoNodes.nodes false).gameEnvelope .symbolic "game:pong" (bare bob.text) payload)

def bobsCopy (number : Nat) (payload : Lib.Encoding.Bytes) : ClusterEvent Bool :=
  .copy true (bobsFrame number payload) .permissive

/-- Two copies of what Bob plays reach the second node. -/
def oneGame : List (ClusterEvent Bool) :=
  bobPlays [1] ++ [bobsCopy 0 [1], bobsCopy 0 [1]]

/-- Alice waits in the game at the second node, and the first node restarts
between two inputs of Bob's. -/
def twoGames : List (ClusterEvent Bool) :=
  .node true (gameJoin alice) :: bobPlays [1] ++
    [bobsCopy 0 [1], .restart false players ⟨"", ∅⟩] ++ bobPlays [2] ++
    [bobsCopy 1 [2]]

theorem oneGame_delivered_once :
    bobsFrame 0 [1] ∈ (run (Cluster.step .symbolic) twoNodes oneGame).processed true ∧
      Along (Cluster.step .symbolic) (Cluster.DeliversOnce .symbolic) twoNodes oneGame := by
  have hrun : bobsFrame 0 [1] ∈ (run (Cluster.step .symbolic) twoNodes oneGame).processed true ∧
      Along (Cluster.step .symbolic) Cluster.WithinWindow twoNodes oneGame ∧
      twoNodes.FreshIds (handedOver none
        ((twoNodes.nodes false).handle .symbolic (gameJoin bob)).2) ∧
      bobsFrame 0 [1] ∉
        (run (Cluster.step .symbolic) twoNodes oneGame.dropLast).forgotten true := by
    decide +kernel
  obtain ⟨hprocessed, hwin, hjoin, hforgotten⟩ := hrun
  have hids : Along (Cluster.step .symbolic) (Cluster.OneFramePerId .symbolic) twoNodes
      (oneGame.dropLast ++ [bobsCopy 0 [1]]) :=
    along_append.mpr ⟨⟨hjoin, fun _ => rfl, List.not_mem_nil, trivial⟩, hforgotten, trivial⟩
  refine ⟨hprocessed, replicatedFrames_delivered_once _ ?_ _ _ oneGame hwin hids⟩
  intro m n hid
  revert m n
  decide

/-- The cluster when the copy of Bob's second input arrives. -/
def beforeSecondInput : Cluster Bool :=
  run (Cluster.step .symbolic) twoNodes twoGames.dropLast

/-- After the restart Bob's second input comes under the id of the first, and the
second node drops it. -/
theorem restart_suppresses_frame :
    Along (Cluster.step .symbolic) Cluster.WithinWindow twoNodes twoGames ∧
      ¬ Along (Cluster.step .symbolic) (Cluster.DeliversOnce .symbolic) twoNodes twoGames := by
  have hdropped : Along (Cluster.step .symbolic) Cluster.WithinWindow twoNodes twoGames ∧
      bobsFrame 1 [2] ∈ beforeSecondInput.originated ∧
      ((beforeSecondInput.nodes true).insertSeen (bobsFrame 1 [2]).messageId).2 = false ∧
      bobsFrame 1 [2] ∉ beforeSecondInput.processed true := by
    decide +kernel
  obtain ⟨hwin, horig, hseen, hnew⟩ := hdropped
  refine ⟨hwin, ?_⟩
  rintro hall
  have hsplit : twoGames = twoGames.dropLast ++ [bobsCopy 1 [2]] := rfl
  rw [hsplit, along_append] at hall
  exact hnew (hall.2.1.2 horig hseen)

end ConquerD.Supernode
