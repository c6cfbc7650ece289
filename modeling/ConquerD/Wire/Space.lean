import ConquerD.Wire.Platform

/-!
# Space roots, inclusion proofs and grants

A Space is an owner's authenticated tree of rooms. The owner signs a root per
epoch; a client presents the current root, an inclusion proof for one node and,
for a private node, a grant signed by the owner. Client and supernode carry the
same code for hashing and verification.
-/

namespace ConquerD.Wire

open Lib.Encoding

variable (P : Platform)

/-! ## Hashing -/

def spaceLeafLabel : String := "conquerd-space-leaf-v1"
def spaceRootLabel : String := "conquerd-space-root-v1"
def spaceGrantLabel : String := "conquerd-space-grant-v1"
def maxProofDepth : Nat := 32

/-- A label, a bar and the text of a JSON object: what roots and grants sign. -/
def labelled (label : String) (fields : List (String × Json)) : Bytes :=
  utf8Bytes label ++ 0x7C :: P.jsonToVec (.obj fields)

/-- The canonical JSON of a node, fields in alphabetical order. -/
def SpaceNode.canonicalJson (node : SpaceNode) : List (String × Json) :=
  [("inherit", .bool node.inherit),
    ("invite_policy", .str node.invitePolicy),
    ("key_commit", .str node.keyCommit),
    ("kind", .str node.kind),
    ("name", .str node.name),
    ("node_id", .str node.nodeId),
    ("node_type", .str node.nodeType),
    ("owner_pub", .str node.ownerPub),
    ("parent_id", .str node.parentId)]

def SpaceNode.leafHash (node : SpaceNode) : Bytes :=
  P.sha256 (0x00 :: labelled P spaceLeafLabel node.canonicalJson)

def interiorHash (left right : Bytes) : Bytes :=
  P.sha256 (0x01 :: left ++ right)

/-- The largest power of two strictly below `n`, for `n ≥ 2`. -/
def largestPow2Below (n : Nat) : Nat :=
  2 ^ (n - 1).log2

/-- Folds an audit path, topmost sibling first, back to a root hash. -/
def rootFromAuditTop (leaf : Bytes) : Nat → Nat → List Bytes → Option Bytes
  | m, n, [] => if n = 0 ∨ m ≥ n then none else if n = 1 then some leaf else none
  | m, n, top :: rest =>
    if n = 0 ∨ m ≥ n then none
    else if n = 1 then none
    else
      let k := largestPow2Below n
      if m < k then (rootFromAuditTop leaf m k rest).map fun left => interiorHash P left top
      else (rootFromAuditTop leaf (m - k) (n - k) rest).map fun right => interiorHash P top right

/-- The same for a path in the order it is sent, deepest sibling first. -/
def rootFromAudit (leaf : Bytes) (m n : Nat) (path : List Bytes) : Option Bytes :=
  rootFromAuditTop P leaf m n path.reverse

/-- A 32-byte hash in hexadecimal. -/
def decodeHash (hexStr : String) : Option Bytes :=
  (hexDecode (utf8Bytes hexStr)).filter (·.length = 32)

/-! ## Verification -/

def SignedSpaceRoot.signingBytes (root : SignedSpaceRoot) : Bytes :=
  labelled P spaceRootLabel
    [("epoch", .int root.epoch),
      ("issued_at", .int root.issuedAt),
      ("node_count", .int root.nodeCount),
      ("root_hash", .str root.rootHash),
      ("schema", .int root.schema),
      ("signer", .str root.signer),
      ("space_id", .str root.spaceId)]

def SpaceGrant.signingBytes (grant : SpaceGrant) : Bytes :=
  labelled P spaceGrantLabel
    [("epoch", .int grant.epoch),
      ("expires_at", .int grant.expiresAt),
      ("grantee_pub", .str grant.granteePub),
      ("node_id", .str grant.nodeId),
      ("schema", .int grant.schema)]

/-- A signature on `message` under the key an id spells. -/
def verifyWithId (id signature : String) (message : Bytes) : Bool :=
  match P.b64urlDecode id, P.b64urlDecode signature with
  | some pk, some sig => P.ed25519Verify pk sig message
  | _, _ => false

def SignedSpaceRoot.verify (root : SignedSpaceRoot) : Bool :=
  verifyWithId P root.signer root.signature (root.signingBytes P)

def SpaceGrant.verify (grant : SpaceGrant) (ownerPub : String) : Bool :=
  verifyWithId P ownerPub grant.signature (grant.signingBytes P)

def SpaceInclusionProof.verifyAgainst (proof : SpaceInclusionProof) (root : SignedSpaceRoot) :
    Bool :=
  if proof.epoch ≠ root.epoch then false
  else if proof.path.length > maxProofDepth then false
  else if proof.leafIndex ≥ root.nodeCount then false
  else
    match proof.path.mapM decodeHash with
    | none => false
    | some path =>
      match rootFromAudit P (proof.node.leafHash P) proof.leafIndex root.nodeCount path with
      | some computed => hexEncode computed == root.rootHash
      | none => false

/-! ## A symbolic platform -/

def SpaceNode.fromValue (j : Json) : Option SpaceNode := do
  some {
    nodeId := ← j.str? "node_id"
    parentId := ← j.str? "parent_id"
    kind := ← j.str? "kind"
    name := ← j.str? "name"
    nodeType := ← j.str? "node_type"
    ownerPub := ← j.str? "owner_pub"
    invitePolicy := (j.str? "invite_policy").getD ""
    inherit := ((j.get? "inherit").bind Json.asBool?).getD false
    keyCommit := (j.str? "key_commit").getD "" }

def SignedSpaceRoot.fromValue (j : Json) : Option SignedSpaceRoot := do
  some {
    schema := ← (← j.get? "schema").asU64?
    spaceId := ← j.str? "space_id"
    epoch := ← (← j.get? "epoch").asU64?
    rootHash := ← j.str? "root_hash"
    nodeCount := ← (← j.get? "node_count").asU64?
    issuedAt := ← (← j.get? "issued_at").asU64?
    signer := ← j.str? "signer"
    signature := (j.str? "signature").getD "" }

def SpaceInclusionProof.fromValue (j : Json) : Option SpaceInclusionProof := do
  some {
    schema := ← (← j.get? "schema").asU64?
    node := ← SpaceNode.fromValue (← j.get? "node")
    leafIndex := ← (← j.get? "leaf_index").asU64?
    path := ← (← (← j.get? "path").asArray?).mapM Json.asStr?
    epoch := ← (← j.get? "epoch").asU64? }

def SpaceGrant.fromValue (j : Json) : Option SpaceGrant := do
  some {
    schema := ← (← j.get? "schema").asU64?
    nodeId := ← j.str? "node_id"
    epoch := ← (← j.get? "epoch").asU64?
    granteePub := ← j.str? "grantee_pub"
    expiresAt := ← (← j.get? "expires_at").asU64?
    signature := (j.str? "signature").getD "" }

/-- The text of a flat object: its fields in order. -/
def flatText : Json → String
  | .obj fields => fields.foldl (fun text e => text ++ e.1 ++ ":" ++ leafText e.2 ++ ",") ""
  | _ => ""
where
  leafText : Json → String
    | .str s => s
    | .int n => toString n
    | .bool b => toString b
    | _ => ""

/-- The object a flat text spells: fields end in a comma, names in a colon. -/
def unflatText (s : String) : Option Json :=
  some (.obj (((s.toList.splitOn ',').filter (· ≠ [])).map fun field =>
    (String.ofList (field.takeWhile (· ≠ ':')),
      .str (String.ofList ((field.dropWhile (· ≠ ':')).drop 1)))))

/-- The platform of the symbolic model: a hash is its own preimage, a signature
is the key followed by the message, a derived key is what it is derived from,
base64 is the text itself, and records are read by field name. -/
def Platform.symbolic : Platform where
  sha256 bs := bs
  ed25519Verify key sig message := sig == key ++ message
  x25519Exchange secret pub := secret ++ pub
  hkdfDeriveKey material info := some (material ++ info)
  decodeB64UrlNoPad s := some (utf8Bytes s)
  decodeB64Url s := some (utf8Bytes s)
  decodeErrorText _ := "invalid base64"
  jsonToVec j := utf8Bytes (flatText j)
  jsonToString := flatText
  jsonFromStr := unflatText
  encodeB64Std bs := String.ofList (bs.map fun b => Char.ofNat b.toNat)
  decodeB64Std s := some (utf8Bytes s)
  spaceProofFromValue := SpaceInclusionProof.fromValue
  spaceRootFromValue := SignedSpaceRoot.fromValue
  spaceGrantFromValue := SpaceGrant.fromValue
  decay _ := 1

/-- A platform in a world where one peer has signed everything in sight and nobody
else has signed anything. The hash is a check sum. -/
def platformOf (signer : PublicId) : Platform :=
  { Platform.symbolic with
    sha256 := fun bs => [bs.foldl (· + ·) 0]
    ed25519Verify := fun key _ _ => key == utf8Bytes (bare signer.text) }

end ConquerD.Wire
