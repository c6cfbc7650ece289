import ConquerD.Client.Verify.SpaceProofs

/-!
# Client: the root of a Space and its nodes

The root is that of a set of nodes: ids stay distinct whatever the edits, so that the
order of the leaves does not depend on the order the nodes came in. Nor do two sets of
nodes have one root, unless two inputs of the hash do.
-/

namespace ConquerD.Client

open Lib Lib.Encoding Lib.JsonText Wire

variable {P : Platform} {S : FloatSyntax FiniteF64} {space a b : Space}

/-! ## One order for a set of nodes -/

namespace Space

def Reached (P : Platform) (space : Space) : Prop :=
  ∃ (start : Space) (edits : List SpaceEdit),
    (start.nodes = [] ∨ ∃ ownerPub serverName, start = newServer P ownerPub serverName) ∧
      space = Run.run SpaceEdit.apply start edits

theorem Reached.distinctIds (h : space.Reached P) : space.DistinctIds := by
  obtain ⟨start, edits, hstart, rfl⟩ := h
  have hids : start.DistinctIds := by
    rcases hstart with hempty | ⟨ownerPub, serverName, rfl⟩
    · unfold DistinctIds
      rw [hempty]
      exact List.nodup_nil
    · exact distinctIds_newServer P ownerPub serverName
  exact Run.run_inv DistinctIds hids fun _ edit h => h.apply edit

theorem DistinctIds.nodup_sortedNodes (h : space.DistinctIds) : space.sortedNodes.Nodup :=
  space.perm_sortedNodes.nodup_iff.mpr (List.Nodup.of_map _ h)

theorem sortedNodes_congr (ha : a.DistinctIds) (hb : b.DistinctIds)
    (h : ∀ n, n ∈ a.nodes ↔ n ∈ b.nodes) : a.sortedNodes = b.sortedNodes := by
  have hperm : a.sortedNodes.Perm b.sortedNodes := by
    rw [List.perm_ext_iff_of_nodup ha.nodup_sortedNodes hb.nodup_sortedNodes]
    intro n
    rw [mem_sortedNodes, mem_sortedNodes, h]
  apply hperm.eq_of_pairwise _ ha.pairwise_lt hb.pairwise_lt
  intro x y _ _ hxy hyx
  exact absurd hyx (String.lt_asymm hxy)

end Space

/-! ## The root tells the nodes -/

/-- What is hashed for two Spaces, and for one without nodes. -/
def rootInputs (P : Platform) (a b : Space) : List Bytes :=
  [] :: (a.hashInputs P ++ b.hashInputs P)

theorem mem_rootInputs_left {x : Bytes} (h : x ∈ a.hashInputs P) : x ∈ rootInputs P a b :=
  List.mem_cons_of_mem _ (List.mem_append_left _ h)

theorem mem_rootInputs_right {x : Bytes} (h : x ∈ b.hashInputs P) : x ∈ rootInputs P a b :=
  List.mem_cons_of_mem _ (List.mem_append_right _ h)

theorem merkleRoot_ne (hinputs : ∀ x ∈ space.hashInputs P, x ∈ rootInputs P a b)
    (hfree : CollisionFree P (rootInputs P a b)) (hne : space.sortedLeaves P ≠ []) :
    merkleRoot P (space.sortedLeaves P) ≠ merkleRoot P [] := by
  have hnil : merkleRoot P [] = P.sha256 [] := by
    unfold merkleRoot
    rw [Merkle.root]
  rw [hnil]
  apply Merkle.root_ne_empty hne
  · intro leaf hleaf heq
    obtain ⟨n, hn, rfl⟩ := List.mem_map.mp hleaf
    cases hfree _ (hinputs _ (leafInput_mem_hashInputs hn)) [] List.mem_cons_self heq
  · intro q hq heq
    cases hfree _ (hinputs _ (interiorInput_mem_hashInputs hq)) [] List.mem_cons_self heq

section Sizes

variable (hsize : ∀ bs, (P.sha256 bs).length = 32)
include hsize

/-- Where the hashes of two trees tell their inputs, the trees have the same leaves. -/
theorem sortedLeaves_eq_of_root_eq (hfree : CollisionFree P (rootInputs P a b))
    (h : merkleRoot P (a.sortedLeaves P) = merkleRoot P (b.sortedLeaves P)) :
    a.sortedLeaves P = b.sortedLeaves P := by
  by_cases hane : a.sortedLeaves P = []
  · by_cases hbne : b.sortedLeaves P = []
    · rw [hane, hbne]
    · rw [hane] at h
      exact absurd h.symm (merkleRoot_ne (fun x hx => mem_rootInputs_right hx) hfree hbne)
  · by_cases hbne : b.sortedLeaves P = []
    · rw [hbne] at h
      exact absurd h (merkleRoot_ne (fun x hx => mem_rootInputs_left hx) hfree hane)
    · refine Merkle.eq_of_root_eq hane hbne ?_ ?_ ?_ h
      · intro p hp q hq heq
        exact interiorInput_inj (length_of_mem_pairs hsize hp).1 (length_of_mem_pairs hsize hq).1
          (hfree _ (mem_rootInputs_left (interiorInput_mem_hashInputs hp)) _
            (mem_rootInputs_right (interiorInput_mem_hashInputs hq)) heq)
      · intro leaf hleaf q hq heq
        obtain ⟨n, hn, rfl⟩ := List.mem_map.mp hleaf
        exact leafInput_ne_interiorInput n q
          (hfree _ (mem_rootInputs_left (leafInput_mem_hashInputs hn)) _
            (mem_rootInputs_right (interiorInput_mem_hashInputs hq)) heq)
      · intro leaf hleaf p hp heq
        obtain ⟨n, hn, rfl⟩ := List.mem_map.mp hleaf
        exact leafInput_ne_interiorInput n p
          (hfree _ (mem_rootInputs_right (leafInput_mem_hashInputs hn)) _
            (mem_rootInputs_left (interiorInput_mem_hashInputs hp)) heq)

end Sizes

theorem mem_of_sortedLeaves_eq (hjson : P.WritesSerde S)
    (hfree : CollisionFree P (a.hashInputs P ++ b.hashInputs P))
    (h : a.sortedLeaves P = b.sortedLeaves P) {n : SpaceNode} (hn : n ∈ a.nodes) : n ∈ b.nodes := by
  have hleaf : n.leafHash P ∈ b.sortedLeaves P := by
    rw [← h]
    exact List.mem_map_of_mem (Space.mem_sortedNodes.mpr hn)
  obtain ⟨n', hn', hhash⟩ := List.mem_map.mp hleaf
  have hinput := hfree.eq (leafInput_mem_hashInputs (Space.mem_sortedNodes.mpr hn))
    (leafInput_mem_hashInputs hn') hhash.symm
  rw [leafInput_inj hjson hinput]
  exact Space.mem_sortedNodes.mp hn'

/-- The root of a Space is told by the set of its nodes, and tells it, whatever the counts. -/
theorem rootHash_tells_nodes (hsize : ∀ bs, (P.sha256 bs).length = 32) (hjson : P.WritesSerde S)
    (ha : a.Reached P) (hb : b.Reached P) :
    ((∀ n, n ∈ a.nodes ↔ n ∈ b.nodes) → a.rootHash P = b.rootHash P) ∧
      (CollisionFree P (rootInputs P a b) → a.rootHash P = b.rootHash P →
        ∀ n, n ∈ a.nodes ↔ n ∈ b.nodes) := by
  constructor
  · intro h
    unfold Space.rootHash Space.sortedLeaves
    rw [Space.sortedNodes_congr ha.distinctIds hb.distinctIds h]
  · intro hfree h n
    have hleaves := sortedLeaves_eq_of_root_eq hsize hfree (hexEncode_injective h)
    have hboth : CollisionFree P (a.hashInputs P ++ b.hashInputs P) := fun x hx y hy =>
      hfree x (List.mem_cons_of_mem _ hx) y (List.mem_cons_of_mem _ hy)
    have hswapped : CollisionFree P (b.hashInputs P ++ a.hashInputs P) := fun x hx y hy =>
      hboth x (List.perm_append_comm.subset hx) y (List.perm_append_comm.subset hy)
    exact ⟨mem_of_sortedLeaves_eq hjson hboth hleaves,
      mem_of_sortedLeaves_eq hjson hswapped hleaves.symm⟩

/-! ## Two rooms in either order -/

def hallNode : SpaceNode :=
  { lobbyNode with nodeId := "hall", name := "Hall" }

/-- A Space that had no nodes. -/
def roomsSpace (edits : List SpaceEdit) : Space :=
  Run.run SpaceEdit.apply ⟨"", "owner", 0, []⟩ edits

def hallFirst : Space :=
  roomsSpace [.upsertNode hallNode, .upsertNode lobbyNode]

def lobbyFirst : Space :=
  roomsSpace [.upsertNode lobbyNode, .upsertNode hallNode]

theorem reached_hallFirst : hallFirst.Reached checksumPlatform :=
  ⟨_, _, .inl rfl, rfl⟩

theorem reached_lobbyFirst : lobbyFirst.Reached checksumPlatform :=
  ⟨_, _, .inl rfl, rfl⟩

theorem mem_rooms (n : SpaceNode) : n ∈ hallFirst.nodes ↔ n ∈ lobbyFirst.nodes := by
  have hhall : hallFirst.nodes = [hallNode, lobbyNode] := by decide
  have hlobby : lobbyFirst.nodes = [lobbyNode, hallNode] := by decide
  rw [hhall, hlobby]
  exact (List.Perm.swap lobbyNode hallNode []).mem_iff

theorem hashInputs_hallFirst : hallFirst.hashInputs checksumPlatform =
    [leafInput checksumPlatform hallNode, leafInput checksumPlatform lobbyNode,
      interiorInput (hallNode.leafHash checksumPlatform, lobbyNode.leafHash checksumPlatform)] := by
  have hsorted : hallFirst.sortedNodes = hallFirst.nodes := by
    apply List.mergeSort_of_pairwise
    decide +kernel
  have hnodes : hallFirst.nodes = [hallNode, lobbyNode] := by decide
  rw [Space.hashInputs, Space.sortedLeaves, hsorted, hnodes]
  simp only [List.map_cons, List.map_nil, Merkle.pairs_pair, List.cons_append, List.nil_append]

theorem collisionFree_rooms :
    CollisionFree checksumPlatform (rootInputs checksumPlatform hallFirst lobbyFirst) := by
  have hsame : lobbyFirst.hashInputs checksumPlatform = hallFirst.hashInputs checksumPlatform := by
    unfold Space.hashInputs Space.sortedLeaves
    rw [Space.sortedNodes_congr reached_hallFirst.distinctIds reached_lobbyFirst.distinctIds
      mem_rooms]
  rw [rootInputs, hsame, hashInputs_hallFirst]
  decide +kernel

theorem rootHash_rooms :
    hallFirst.rootHash checksumPlatform = lobbyFirst.rootHash checksumPlatform ∧
      ∀ n, n ∈ hallFirst.nodes ↔ n ∈ lobbyFirst.nodes := by
  obtain ⟨hroot, hnodes⟩ := rootHash_tells_nodes length_sha256_checksumPlatform
    (checksumPlatform_writesSerde FloatSyntax.sample) reached_hallFirst reached_lobbyFirst
  exact ⟨hroot mem_rooms, hnodes collisionFree_rooms (hroot mem_rooms)⟩

end ConquerD.Client
