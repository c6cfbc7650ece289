import ConquerD.Client.Space
import ConquerD.Client.Verify.SigningDomains
import Mathlib.Data.List.Nodup

/-!
# Client: inclusion proofs of a Space

A proof that verifies against the root an owner signed shows a node of the
Space, at its place in the order of the node ids: leaf and interior inputs start
with different bytes, so that a climb meets the tree at every level. Every node
of a Space the owner has edited has a proof that verifies.
-/

namespace ConquerD.Client

open Lib Lib.Encoding Lib.JsonText Wire

variable {P : Platform} {S : FloatSyntax FiniteF64} {space : Space} {proof : SpaceInclusionProof}
  {nodeId : String} {node : SpaceNode} {issuedAt : Nat} {sign : Bytes → Bytes}

/-! ## The order of the leaves -/

namespace Space

/-- No two nodes have one id. -/
def DistinctIds (space : Space) : Prop :=
  (space.nodes.map SpaceNode.nodeId).Nodup

theorem nodeLe_iff {a b : SpaceNode} : nodeLe a b = true ↔ a.nodeId ≤ b.nodeId := by
  unfold nodeLe
  exact isLE_compareOfLessAndEq String.le_antisymm String.not_le String.le_total

theorem perm_sortedNodes (space : Space) : space.sortedNodes.Perm space.nodes :=
  List.mergeSort_perm _ _

theorem mem_sortedNodes : node ∈ space.sortedNodes ↔ node ∈ space.nodes :=
  space.perm_sortedNodes.mem_iff

@[simp] theorem length_sortedNodes : space.sortedNodes.length = space.nodes.length :=
  space.perm_sortedNodes.length_eq

@[simp] theorem length_sortedLeaves : (space.sortedLeaves P).length = space.nodes.length := by
  rw [sortedLeaves, List.length_map, length_sortedNodes]

theorem pairwise_sortedNodes (space : Space) :
    space.sortedNodes.Pairwise fun a b => a.nodeId ≤ b.nodeId := by
  have hsorted : space.sortedNodes.Pairwise fun a b => nodeLe a b = true := by
    apply List.pairwise_mergeSort
    · intro a b c hab hbc
      exact nodeLe_iff.mpr (String.le_trans (nodeLe_iff.mp hab) (nodeLe_iff.mp hbc))
    · intro a b
      rw [Bool.or_eq_true, nodeLe_iff, nodeLe_iff]
      exact String.le_total a.nodeId b.nodeId
  exact hsorted.imp nodeLe_iff.mp

theorem DistinctIds.pairwise_lt (h : space.DistinctIds) :
    space.sortedNodes.Pairwise fun a b => a.nodeId < b.nodeId := by
  have hne : space.sortedNodes.Pairwise fun a b => a.nodeId ≠ b.nodeId :=
    List.pairwise_map.mp ((space.perm_sortedNodes.map SpaceNode.nodeId).nodup_iff.mpr h)
  refine (space.pairwise_sortedNodes.and hne).imp fun ⟨hle, hne⟩ => ?_
  by_contra hge
  exact hne (String.le_antisymm hle (String.not_lt.mp hge))

theorem DistinctIds.index_eq (h : space.DistinctIds) {i : Nat}
    (hi : space.sortedNodes[i]? = some node) :
    i = space.nodes.countP fun n => n.nodeId < node.nodeId := by
  obtain ⟨hlt, hget⟩ := List.getElem?_eq_some_iff.mp hi
  have hsplit : space.sortedNodes =
      space.sortedNodes.take i ++ node :: space.sortedNodes.drop (i + 1) := by
    rw [← hget, List.cons_getElem_drop_succ, List.take_append_drop]
  have hsorted := h.pairwise_lt
  rw [hsplit, List.pairwise_append, List.pairwise_cons] at hsorted
  obtain ⟨-, ⟨hafter, -⟩, hbefore⟩ := hsorted
  have hbelow : (space.sortedNodes.take i).countP (fun n => n.nodeId < node.nodeId) = i := by
    rw [List.countP_eq_length.mpr, List.length_take, Nat.min_eq_left hlt.le]
    intro n hn
    exact decide_eq_true (hbefore n hn node List.mem_cons_self)
  have habove : (node :: space.sortedNodes.drop (i + 1)).countP
      (fun n => n.nodeId < node.nodeId) = 0 := by
    rw [List.countP_eq_zero]
    intro n hn
    rw [decide_eq_true_iff]
    rcases List.mem_cons.mp hn with rfl | hn
    · exact String.lt_irrefl _
    · exact String.lt_asymm (hafter n hn)
  rw [← space.perm_sortedNodes.countP_eq, hsplit, List.countP_append, hbelow, habove,
    Nat.add_zero]

/-! ## Edits keep ids apart -/

theorem DistinctIds.upsertNode (h : space.DistinctIds) (node : SpaceNode) :
    (space.upsertNode node).DistinctIds := by
  unfold DistinctIds Space.upsertNode
  cases hfind : space.nodes.findIdx? fun n => n.nodeId == node.nodeId with
  | none =>
    rw [List.findIdx?_eq_none_iff] at hfind
    dsimp only
    rw [List.map_append, List.map_singleton, List.nodup_append]
    refine ⟨h, List.nodup_singleton _, ?_⟩
    rintro a ha b hb rfl
    obtain ⟨n, hn, rfl⟩ := List.mem_map.mp ha
    have hother := hfind n hn
    rw [List.mem_singleton.mp hb, beq_self_eq_true] at hother
    cases hother
  | some i =>
    obtain ⟨hlt, hid, -⟩ := List.findIdx?_eq_some_iff_getElem.mp hfind
    dsimp only
    have hsame : (space.nodes.set i node).map SpaceNode.nodeId =
        space.nodes.map SpaceNode.nodeId := by
      have hmap : i < (space.nodes.map SpaceNode.nodeId).length := by
        rw [List.length_map]
        exact hlt
      rw [List.map_set, ← beq_iff_eq.mp hid, ← List.getElem_map SpaceNode.nodeId (h := hmap)]
      exact List.set_getElem_self hmap
    rw [hsame]
    exact h

theorem DistinctIds.removeNode (h : space.DistinctIds) (nodeId : String) :
    (space.removeNode nodeId).1.DistinctIds := by
  have hfilter := List.Nodup.sublist
    ((List.filter_sublist (p := fun n => n.nodeId != nodeId)).map SpaceNode.nodeId) h
  unfold Space.removeNode
  dsimp only
  split
  · exact hfilter
  · exact hfilter

theorem distinctIds_newServer (P : Platform) (ownerPub serverName : String) :
    (newServer P ownerPub serverName).DistinctIds :=
  List.nodup_singleton _

theorem DistinctIds.apply (h : space.DistinctIds) (edit : SpaceEdit) :
    (SpaceEdit.apply space edit).DistinctIds := by
  cases edit with
  | upsertNode node => exact h.upsertNode node
  | removeNode nodeId => exact h.removeNode nodeId

theorem distinctIds_edited (P : Platform) (ownerPub serverName : String)
    (edits : List SpaceEdit) : (edited P ownerPub serverName edits).DistinctIds :=
  Run.run_inv DistinctIds (distinctIds_newServer P ownerPub serverName) fun _ edit h =>
    h.apply edit

theorem DistinctIds.eq_of_nodeId_eq (h : space.DistinctIds) {a b : SpaceNode}
    (ha : a ∈ space.nodes) (hb : b ∈ space.nodes) (hid : a.nodeId = b.nodeId) : a = b :=
  List.inj_on_of_nodup_map h ha hb hid

end Space

/-! ## What is hashed -/

/-- What the hash of a leaf is taken of. -/
def leafInput (P : Platform) (node : SpaceNode) : Bytes :=
  0x00 :: labelled P spaceLeafLabel node.canonicalJson

/-- What the hash of a pair is taken of. -/
def interiorInput (pair : Bytes × Bytes) : Bytes :=
  0x01 :: pair.1 ++ pair.2

/-- What is hashed for the root of the Space. -/
def Space.hashInputs (P : Platform) (space : Space) : List Bytes :=
  space.sortedNodes.map (leafInput P) ++
    (Merkle.pairs (interiorHash P) (P.sha256 []) (space.sortedLeaves P)).map interiorInput

/-- What is hashed to verify the proof in a tree of `n` nodes. -/
def proofHashInputs (P : Platform) (proof : SpaceInclusionProof) (n : Nat) : List Bytes :=
  leafInput P proof.node ::
    match proof.path.mapM decodeHash with
    | none => []
    | some path =>
      (Merkle.climbPairs (interiorHash P) (proof.node.leafHash P) proof.leafIndex n
        path.reverse).map interiorInput

/-- No two of the inputs have one hash. -/
def CollisionFree (P : Platform) (inputs : List Bytes) : Prop :=
  ∀ x ∈ inputs, ∀ y ∈ inputs, P.sha256 x = P.sha256 y → x = y

instance (P : Platform) (inputs : List Bytes) : Decidable (CollisionFree P inputs) :=
  inferInstanceAs (Decidable (∀ x ∈ inputs, ∀ y ∈ inputs, P.sha256 x = P.sha256 y → x = y))

theorem leafInput_ne_interiorInput (node : SpaceNode) (pair : Bytes × Bytes) :
    leafInput P node ≠ interiorInput pair := by
  intro h
  have hlead := (List.cons.inj h).1
  cases hlead

theorem interiorInput_inj {p q : Bytes × Bytes} (hp : p.1.length = 32) (hq : q.1.length = 32)
    (h : interiorInput p = interiorInput q) : p = q := by
  obtain ⟨hleft, hright⟩ := List.append_inj (List.cons.inj h).2 (hp.trans hq.symm)
  exact Prod.ext hleft hright

/-- The fields of a node, as values. -/
def nodeValues (node : SpaceNode) : List (String × SerdeValue) :=
  [("inherit", .bool node.inherit),
    ("invite_policy", .str node.invitePolicy),
    ("key_commit", .str node.keyCommit),
    ("kind", .str node.kind),
    ("name", .str node.name),
    ("node_id", .str node.nodeId),
    ("node_type", .str node.nodeType),
    ("owner_pub", .str node.ownerPub),
    ("parent_id", .str node.parentId)]

theorem leafInput_inj (hjson : P.WritesSerde S) {a b : SpaceNode}
    (h : leafInput P a = leafInput P b) : a = b := by
  have hvalues : nodeValues a = nodeValues b := labelled_inj hjson (List.cons.inj h).2
  obtain ⟨_, _, _, _, _, _, _, _, _⟩ := a
  obtain ⟨_, _, _, _, _, _, _, _, _⟩ := b
  simp only [nodeValues, List.cons.injEq, Prod.mk.injEq, true_and, Value.bool.injEq,
    Value.str.injEq, and_true] at hvalues
  obtain ⟨rfl, rfl, rfl, rfl, rfl, rfl, rfl, rfl, rfl⟩ := hvalues
  rfl

/-! ## The verifier climbs the tree -/

theorem rootFromAuditTop_eq (leaf : Bytes) (m n : Nat) (path : List Bytes) :
    rootFromAuditTop P leaf m n path = Merkle.climb (interiorHash P) leaf m n path := by
  induction path generalizing m n with
  | nil => rfl
  | cons top rest ih =>
    have hcut : largestPow2Below n = Merkle.cut n := rfl
    rw [rootFromAuditTop, Merkle.climb]
    dsimp only
    rw [hcut, ih, ih]

theorem length_of_decodeHash {text : String} {hash : Bytes} (h : decodeHash text = some hash) :
    hash.length = 32 := by
  have hlen := (Option.filter_eq_some_iff.mp h).2
  exact of_decide_eq_true hlen

theorem decodeHash_hexEncode {hash : Bytes} (h : hash.length = 32) :
    decodeHash (hexEncode hash) = some hash := by
  rw [decodeHash, hexDecode_hexEncode]
  exact Option.filter_eq_some_iff.mpr ⟨rfl, decide_eq_true h⟩

theorem verifyAgainst_signedRoot_iff :
    proof.verifyAgainst P (space.signedRoot P issuedAt sign) = true ↔
      proof.epoch = space.epoch.toNat ∧ proof.path.length ≤ maxProofDepth ∧
        ∃ path, proof.path.mapM decodeHash = some path ∧
          Merkle.climb (interiorHash P) (proof.node.leafHash P) proof.leafIndex
            (space.nodes.length % 2 ^ 32) path.reverse =
              some (merkleRoot P (space.sortedLeaves P)) := by
  unfold SpaceInclusionProof.verifyAgainst Space.signedRoot
  dsimp only
  split
  · next h => exact iff_of_false Bool.false_ne_true fun hall => h hall.1
  · next hepoch =>
    rw [not_not] at hepoch
    split
    · next h => exact iff_of_false Bool.false_ne_true fun hall => absurd hall.2.1 (by omega)
    · next hdepth =>
      split
      · next h =>
        refine iff_of_false Bool.false_ne_true ?_
        rintro ⟨-, -, path, -, hclimb⟩
        have hlt := Merkle.lt_of_climb hclimb
        omega
      · next hlt =>
        cases hpath : proof.path.mapM decodeHash with
        | none => simp
        | some path =>
          dsimp only
          rw [rootFromAudit, rootFromAuditTop_eq, Space.rootHash]
          cases hclimb : Merkle.climb (interiorHash P) (proof.node.leafHash P) proof.leafIndex
              (space.nodes.length % 2 ^ 32) path.reverse with
          | none =>
            dsimp only
            refine iff_of_false Bool.false_ne_true ?_
            rintro ⟨-, -, path', hpath', hclimb'⟩
            cases hpath'
            rw [hclimb] at hclimb'
            cases hclimb'
          | some computed =>
            dsimp only
            constructor
            · intro h
              rw [hexEncode_injective (beq_iff_eq.mp h)] at hclimb
              exact ⟨hepoch, by omega, path, rfl, hclimb⟩
            · rintro ⟨-, -, path', hpath', hclimb'⟩
              cases hpath'
              rw [hclimb] at hclimb'
              rw [Option.some.inj hclimb', beq_self_eq_true]

/-! ## A Space of two nodes -/

/-- Serde's JSON, and a checksum of 32 bytes for a hash. -/
def checksumPlatform : Platform :=
  { Platform.serde with sha256 := fun bs => List.replicate 32 (bs.foldl (· + ·) 0) }

theorem checksumPlatform_writesSerde (S : FloatSyntax FiniteF64) :
    checksumPlatform.WritesSerde S :=
  Platform.serde_writesSerde S

theorem length_sha256_checksumPlatform (bs : Bytes) : (checksumPlatform.sha256 bs).length = 32 :=
  List.length_replicate

def lobbyNode : SpaceNode where
  nodeId := "lobby"
  parentId := ""
  kind := "room"
  name := "Lobby"
  nodeType := "public"
  ownerPub := "owner"
  invitePolicy := "owner"
  inherit := false
  keyCommit := ""

/-- Inputs among some that hash to different values collide with none of them. -/
theorem CollisionFree.of_nodup {P : Platform} {distinct inputs : List Bytes}
    (hhashes : (distinct.map P.sha256).Nodup) (hmem : ∀ x ∈ inputs, x ∈ distinct) :
    CollisionFree P inputs := by
  intro x hx y hy hsame
  exact List.inj_on_of_nodup_map hhashes (hmem x hx) (hmem y hy) hsame

/-- The node of the server itself, under its derived id. -/
def serverNode : SpaceNode where
  nodeId := "fafafafafafafafa"
  parentId := ""
  kind := "server"
  name := "srv"
  nodeType := "public"
  ownerPub := "owner"
  invitePolicy := "owner"
  inherit := false
  keyCommit := ""

/-- A server with a lobby. -/
def lobbySpace : Space :=
  .edited checksumPlatform "owner" "srv" [.upsertNode lobbyNode]

/-- The proof that the lobby is in it: the sibling is the leaf of the server. -/
def lobbyProof : SpaceInclusionProof where
  schema := 1
  node := lobbyNode
  leafIndex := 1
  path := [hexEncode (List.replicate 32 0xA8)]
  epoch := 1

theorem nodes_lobbySpace : lobbySpace.nodes = [serverNode, lobbyNode] := by
  decide +kernel

theorem sortedNodes_lobbySpace : lobbySpace.sortedNodes = lobbySpace.nodes := by
  apply List.mergeSort_of_pairwise
  rw [nodes_lobbySpace]
  decide

theorem leafHash_serverNode : serverNode.leafHash checksumPlatform = List.replicate 32 0xA8 := by
  decide +kernel

theorem sortedLeaves_lobbySpace : lobbySpace.sortedLeaves checksumPlatform =
    [List.replicate 32 0xA8, lobbyNode.leafHash checksumPlatform] := by
  rw [Space.sortedLeaves, sortedNodes_lobbySpace, nodes_lobbySpace, List.map_cons,
    leafHash_serverNode]
  rfl

theorem decoded_lobbyProof :
    lobbyProof.path.mapM decodeHash = some [List.replicate 32 0xA8] := by
  rw [lobbyProof, List.mapM_cons, decodeHash_hexEncode List.length_replicate]
  rfl

theorem verifyAgainst_lobbyProof :
    lobbyProof.verifyAgainst checksumPlatform (lobbySpace.signedRoot checksumPlatform 5 id) =
      true := by
  rw [verifyAgainst_signedRoot_iff]
  refine ⟨rfl, by decide, [List.replicate 32 0xA8], decoded_lobbyProof, ?_⟩
  rw [sortedLeaves_lobbySpace, merkleRoot, Merkle.root_pair, nodes_lobbySpace]
  exact Merkle.climb_pair

theorem proofHashInputs_lobbyProof : proofHashInputs checksumPlatform lobbyProof 2 =
    [leafInput checksumPlatform lobbyNode,
      interiorInput (List.replicate 32 0xA8, lobbyNode.leafHash checksumPlatform)] := by
  rw [proofHashInputs, decoded_lobbyProof]
  exact congrArg (fun pairs => _ :: pairs.map interiorInput) Merkle.climbPairs_pair

theorem collisionFree_lobby : CollisionFree checksumPlatform
    (lobbySpace.hashInputs checksumPlatform ++
      proofHashInputs checksumPlatform lobbyProof (lobbySpace.nodes.length % 2 ^ 32)) := by
  have hlength : lobbySpace.nodes.length % 2 ^ 32 = 2 := by
    rw [nodes_lobbySpace]
    rfl
  rw [Space.hashInputs, sortedNodes_lobbySpace, sortedLeaves_lobbySpace, Merkle.pairs_pair,
    hlength, proofHashInputs_lobbyProof, nodes_lobbySpace]
  apply @CollisionFree.of_nodup _ [leafInput checksumPlatform serverNode,
    leafInput checksumPlatform lobbyNode,
    interiorInput (List.replicate 32 0xA8, lobbyNode.leafHash checksumPlatform)]
  · decide +kernel
  · simp

/-! ## Soundness -/

theorem leafInput_mem_hashInputs (hnode : node ∈ space.sortedNodes) :
    leafInput P node ∈ space.hashInputs P :=
  List.mem_append_left _ (List.mem_map_of_mem hnode)

theorem interiorInput_mem_hashInputs {pair : Bytes × Bytes}
    (hpair : pair ∈ Merkle.pairs (interiorHash P) (P.sha256 []) (space.sortedLeaves P)) :
    interiorInput pair ∈ space.hashInputs P :=
  List.mem_append_right _ (List.mem_map_of_mem hpair)

theorem leafInput_mem_proofHashInputs {n : Nat} :
    leafInput P proof.node ∈ proofHashInputs P proof n :=
  List.mem_cons_self

theorem interiorInput_mem_proofHashInputs {n : Nat} {path : List Bytes} {pair : Bytes × Bytes}
    (hpath : proof.path.mapM decodeHash = some path)
    (hpair : pair ∈ Merkle.climbPairs (interiorHash P) (proof.node.leafHash P) proof.leafIndex n
      path.reverse) : interiorInput pair ∈ proofHashInputs P proof n := by
  rw [proofHashInputs, hpath]
  exact List.mem_cons_of_mem _ (List.mem_map_of_mem hpair)

theorem CollisionFree.eq {left right : List Bytes} (h : CollisionFree P (left ++ right))
    {x y : Bytes} (hx : x ∈ left) (hy : y ∈ right) (heq : P.sha256 x = P.sha256 y) : x = y :=
  h x (List.mem_append_left _ hx) y (List.mem_append_right _ hy) heq

section Sizes

variable (hsize : ∀ bs, (P.sha256 bs).length = 32)
include hsize

theorem length_of_mem_sortedLeaves : ∀ leaf ∈ space.sortedLeaves P, leaf.length = 32 := by
  intro leaf hleaf
  obtain ⟨n, -, rfl⟩ := List.mem_map.mp hleaf
  exact hsize _

theorem length_of_mem_pairs {pair : Bytes × Bytes}
    (h : pair ∈ Merkle.pairs (interiorHash P) (P.sha256 []) (space.sortedLeaves P)) :
    pair.1.length = 32 ∧ pair.2.length = 32 :=
  Merkle.forall_pairs (p := fun hash => hash.length = 32) (hsize [])
    (length_of_mem_sortedLeaves hsize) (fun _ _ => hsize _) pair h

theorem length_of_mem_climbPairs {n : Nat} {path : List Bytes} {pair : Bytes × Bytes}
    (hpath : proof.path.mapM decodeHash = some path)
    (h : pair ∈ Merkle.climbPairs (interiorHash P) (proof.node.leafHash P) proof.leafIndex n
      path.reverse) : pair.1.length = 32 ∧ pair.2.length = 32 := by
  refine Merkle.forall_climbPairs (p := fun hash => hash.length = 32) (hsize _) ?_
    (fun _ _ => hsize _) pair h
  intro hash hhash
  obtain ⟨text, -, htext⟩ :=
    exists_of_mem_read (mapM_eq_some_iff.mp hpath) (List.mem_reverse.mp hhash)
  exact length_of_decodeHash htext

theorem leafHash_of_climb {path : List Bytes}
    (hfree : CollisionFree P
      (space.hashInputs P ++ proofHashInputs P proof (space.nodes.length % 2 ^ 32)))
    (hpath : proof.path.mapM decodeHash = some path)
    (hclimb : Merkle.climb (interiorHash P) (proof.node.leafHash P) proof.leafIndex
      (space.nodes.length % 2 ^ 32) path.reverse = some (merkleRoot P (space.sortedLeaves P))) :
    (space.sortedLeaves P)[proof.leafIndex]? = some (proof.node.leafHash P) := by
  have hleaves : space.sortedLeaves P ≠ [] := by
    intro hnil
    have hlength := congrArg List.length hnil
    have hlt := Merkle.lt_of_climb hclimb
    rw [Space.length_sortedLeaves, List.length_nil] at hlength
    rw [hlength] at hlt
    exact Nat.not_lt_zero _ hlt
  rw [← Space.length_sortedLeaves (P := P)] at hclimb hfree
  apply Merkle.leaf_of_climb hleaves _ _ _ hclimb
  · intro pair hpair treePair htreePair heq
    exact (interiorInput_inj (length_of_mem_pairs hsize htreePair).1
      (length_of_mem_climbPairs hsize hpath hpair).1
      (hfree.eq (interiorInput_mem_hashInputs htreePair)
        (interiorInput_mem_proofHashInputs hpath hpair) heq.symm)).symm
  · intro treePair htreePair heq
    exact leafInput_ne_interiorInput _ _ (hfree.eq (interiorInput_mem_hashInputs htreePair)
      leafInput_mem_proofHashInputs heq.symm).symm
  · intro pair hpair leaf hleaf heq
    obtain ⟨n, hn, rfl⟩ := List.mem_map.mp hleaf
    exact leafInput_ne_interiorInput _ _ (hfree.eq (leafInput_mem_hashInputs hn)
      (interiorInput_mem_proofHashInputs hpath hpair) heq.symm)

/-- A proof that verifies against the root of a Space is about one of its nodes, at its
place in the order of the ids. -/
theorem inclusion_sound (hjson : P.WritesSerde S) (hids : space.DistinctIds)
    (hfree : CollisionFree P
      (space.hashInputs P ++ proofHashInputs P proof (space.nodes.length % 2 ^ 32)))
    (hverified : proof.verifyAgainst P (space.signedRoot P issuedAt sign) = true) :
    proof.node ∈ space.nodes ∧ space.sortedNodes[proof.leafIndex]? = some proof.node ∧
      proof.leafIndex = space.nodes.countP fun n => n.nodeId < proof.node.nodeId := by
  obtain ⟨-, -, path, hpath, hclimb⟩ := verifyAgainst_signedRoot_iff.mp hverified
  have hplace := leafHash_of_climb hsize hfree hpath hclimb
  rw [Space.sortedLeaves, List.getElem?_map] at hplace
  obtain ⟨n, hn, hhash⟩ := Option.map_eq_some_iff.mp hplace
  have hmem := List.mem_of_getElem? hn
  have hnode : n = proof.node := leafInput_inj hjson
    (hfree.eq (leafInput_mem_hashInputs hmem) leafInput_mem_proofHashInputs hhash)
  rw [hnode] at hn hmem
  exact ⟨Space.mem_sortedNodes.mp hmem, hn, hids.index_eq hn⟩

end Sizes

theorem inclusion_sound_lobby :
    lobbyNode ∈ lobbySpace.nodes ∧ lobbySpace.sortedNodes[1]? = some lobbyNode ∧
      1 = lobbySpace.nodes.countP fun n => n.nodeId < lobbyNode.nodeId :=
  inclusion_sound length_sha256_checksumPlatform (checksumPlatform_writesSerde FloatSyntax.sample)
    (Space.distinctIds_edited _ _ _ _) collisionFree_lobby verifyAgainst_lobbyProof

/-! ## Completeness -/

theorem exists_prove (hids : space.DistinctIds) (hnode : node ∈ space.nodes) :
    ∃ i, space.sortedNodes[i]? = some node ∧
      space.prove P node.nodeId = some {
        schema := spaceSchema
        node := node
        leafIndex := i % 2 ^ 32
        path := (auditPath P i (space.sortedLeaves P)).map hexEncode
        epoch := space.epoch.toNat } := by
  cases hfind : space.sortedNodes.findIdx? fun n => n.nodeId == node.nodeId with
  | none =>
    have hother := List.findIdx?_eq_none_iff.mp hfind node (Space.mem_sortedNodes.mpr hnode)
    rw [beq_self_eq_true] at hother
    cases hother
  | some i =>
    obtain ⟨hlt, hid, -⟩ := List.findIdx?_eq_some_iff_getElem.mp hfind
    have hsame : space.sortedNodes[i] = node :=
      hids.eq_of_nodeId_eq (Space.mem_sortedNodes.mp (List.getElem_mem hlt)) hnode
        (beq_iff_eq.mp hid)
    have hget : space.sortedNodes[i]? = some node := by rw [List.getElem?_eq_getElem hlt, hsame]
    refine ⟨i, hget, ?_⟩
    simp only [Space.prove, hfind, hget, Option.bind_eq_bind, Option.bind_some, Option.pure_def]

section Sizes

variable (hsize : ∀ bs, (P.sha256 bs).length = 32)
include hsize

theorem length_of_mem_auditPath {m : Nat} :
    ∀ hash ∈ auditPath P m (space.sortedLeaves P), hash.length = 32 :=
  Merkle.forall_auditPath (p := fun hash : Bytes => hash.length = 32) (hsize [])
    (length_of_mem_sortedLeaves hsize) fun _ _ => hsize _

theorem mapM_decodeHash_auditPath {m : Nat} :
    ((auditPath P m (space.sortedLeaves P)).map hexEncode).mapM decodeHash =
      some (auditPath P m (space.sortedLeaves P)) := by
  rw [mapM_eq_some_iff, List.map_map]
  exact List.map_congr_left fun hash hhash =>
    decodeHash_hexEncode (length_of_mem_auditPath hsize hash hhash)

/-- Every node has a proof that verifies, however the Space was edited. -/
theorem inclusion_complete {ownerPub serverName : String} {edits : List SpaceEdit}
    (hcount : (Space.edited P ownerPub serverName edits).nodes.length < 2 ^ 32)
    (hnode : node ∈ (Space.edited P ownerPub serverName edits).nodes) :
    ∃ p, (Space.edited P ownerPub serverName edits).prove P node.nodeId = some p ∧
      p.node = node ∧ p.path.length ≤ maxProofDepth ∧
        ∀ issuedAt sign, p.verifyAgainst P
          ((Space.edited P ownerPub serverName edits).signedRoot P issuedAt sign) = true := by
  have hids := Space.distinctIds_edited P ownerPub serverName edits
  generalize Space.edited P ownerPub serverName edits = space at *
  obtain ⟨i, hi, hprove⟩ := exists_prove (P := P) hids hnode
  have hlt : i < space.nodes.length := by
    rw [← Space.length_sortedNodes]
    exact (List.getElem?_eq_some_iff.mp hi).1
  have hdepth : (auditPath P i (space.sortedLeaves P)).length ≤ maxProofDepth := by
    apply Merkle.length_auditPath_le
    rw [Space.length_sortedLeaves]
    exact hcount.le
  have hleaf : (space.sortedLeaves P)[i]? = some (node.leafHash P) := by
    rw [Space.sortedLeaves, List.getElem?_map, hi, Option.map_some]
  have hclimb : Merkle.climb (interiorHash P) (node.leafHash P) i (space.sortedLeaves P).length
      (auditPath P i (space.sortedLeaves P)).reverse =
        some (merkleRoot P (space.sortedLeaves P)) := Merkle.climb_auditPath hleaf
  refine ⟨_, hprove, rfl, by rw [List.length_map]; exact hdepth, fun issuedAt sign => ?_⟩
  rw [verifyAgainst_signedRoot_iff]
  refine ⟨rfl, by rw [List.length_map]; exact hdepth, _, mapM_decodeHash_auditPath hsize, ?_⟩
  rw [Nat.mod_eq_of_lt hcount, Nat.mod_eq_of_lt (hlt.trans hcount), ← Space.length_sortedLeaves]
  exact hclimb

end Sizes

theorem inclusion_complete_lobby :
    ∃ p, lobbySpace.prove checksumPlatform lobbyNode.nodeId = some p ∧ p.node = lobbyNode ∧
      p.path.length ≤ maxProofDepth ∧ ∀ issuedAt sign,
        p.verifyAgainst checksumPlatform (lobbySpace.signedRoot checksumPlatform issuedAt sign) =
          true := by
  have hcount : lobbySpace.nodes.length < 2 ^ 32 := by
    rw [nodes_lobbySpace]
    decide
  have hnode : lobbyNode ∈ lobbySpace.nodes := by
    rw [nodes_lobbySpace]
    exact List.mem_cons_of_mem _ List.mem_cons_self
  exact inclusion_complete length_sha256_checksumPlatform hcount hnode

end ConquerD.Client
