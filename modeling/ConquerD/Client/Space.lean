import ConquerD.Client.RoomStore
import ConquerD.Lib.Merkle
import ConquerD.Wire.Space

/-!
# Client: an owner's Space

The owner edits the nodes of a Space, signs the root of the Merkle tree over
their leaf hashes and proves that a node is in it. The leaves are taken in the
order of the node ids.
-/

namespace ConquerD.Client

open Lib Lib.Encoding Wire

variable (P : Platform)

def spaceSchema : Nat := 1

/-! ## Merkle hashing -/

def merkleRoot (leaves : List Bytes) : Bytes :=
  Merkle.root (interiorHash P) (P.sha256 []) leaves

/-- The siblings of the leaf at `m`, deepest first. -/
def auditPath (m : Nat) (leaves : List Bytes) : List Bytes :=
  Merkle.auditPath (interiorHash P) (P.sha256 []) m leaves

namespace Space

/-! ## Edits -/

/-- Removes a node and tells whether there was one. -/
def removeNode (space : Space) (nodeId : String) : Space × Bool :=
  let nodes := space.nodes.filter fun n => n.nodeId != nodeId
  if nodes.length = space.nodes.length then ({ space with nodes := nodes }, false)
  else ({ space with nodes := nodes, epoch := space.epoch + 1 }, true)

/-! ## Roots and proofs -/

variable (space : Space)

def nodeLe (a b : SpaceNode) : Bool :=
  (compare a.nodeId b.nodeId).isLE

def sortedNodes : List SpaceNode :=
  space.nodes.mergeSort nodeLe

def sortedLeaves : List Bytes :=
  space.sortedNodes.map (SpaceNode.leafHash P)

def rootHash : String :=
  hexEncode (merkleRoot P (space.sortedLeaves P))

/-- The root of the current epoch. The count of nodes is cut to 32 bits. -/
def signedRoot (issuedAt : Nat) (sign : Bytes → Bytes) : SignedSpaceRoot :=
  let root : SignedSpaceRoot := {
    schema := spaceSchema
    spaceId := space.spaceId
    epoch := space.epoch.toNat
    rootHash := space.rootHash P
    nodeCount := space.nodes.length % 2 ^ 32
    issuedAt := issuedAt
    signer := space.ownerPub
    signature := "" }
  { root with signature := b64UrlEncode (sign (root.signingBytes P)) }

/-- A proof that the node is in the tree; there is none for an absent node. -/
def prove (nodeId : String) : Option SpaceInclusionProof := do
  let idx ← space.sortedNodes.findIdx? fun n => n.nodeId == nodeId
  let node ← space.sortedNodes[idx]?
  return {
    schema := spaceSchema
    node := node
    leafIndex := idx % 2 ^ 32
    path := (auditPath P idx (space.sortedLeaves P)).map hexEncode
    epoch := space.epoch.toNat }

end Space

/-! ## Runs -/

inductive SpaceEdit where
  | upsertNode (node : SpaceNode)
  | removeNode (nodeId : String)

def SpaceEdit.apply (space : Space) : SpaceEdit → Space
  | .upsertNode node => space.upsertNode node
  | .removeNode nodeId => (space.removeNode nodeId).1

/-- The Space an owner has started and edited. -/
def Space.edited (ownerPub serverName : String) (edits : List SpaceEdit) : Space :=
  Run.run SpaceEdit.apply (.newServer P ownerPub serverName) edits

end ConquerD.Client
