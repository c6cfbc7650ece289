import ConquerD.Lib.Encoding
import ConquerD.Wire.Json
import ConquerD.Wire.PublicId

/-!
# Library functions and Space records

What both programs call and do not define: hashing, signatures, key exchange,
base64, and the reading and writing of JSON. Among what is read from JSON are
the records of a Space, which client and supernode share byte for byte: a node
of the tree, the signed root of an epoch, the inclusion proof of one node and
an owner's grant.
-/

namespace ConquerD.Wire

open Lib.Encoding

/-! ## Space records -/

structure SpaceNode where
  nodeId : String
  parentId : String
  kind : String
  name : String
  nodeType : String
  ownerPub : String
  invitePolicy : String
  inherit : Bool
  keyCommit : String
  deriving DecidableEq, Repr

structure SignedSpaceRoot where
  schema : Nat
  spaceId : String
  epoch : Nat
  rootHash : String
  nodeCount : Nat
  issuedAt : Nat
  signer : String
  signature : String
  deriving DecidableEq, Repr

structure SpaceInclusionProof where
  schema : Nat
  node : SpaceNode
  leafIndex : Nat
  path : List String
  epoch : Nat
  deriving DecidableEq, Repr

structure SpaceGrant where
  schema : Nat
  nodeId : String
  epoch : Nat
  granteePub : String
  expiresAt : Nat
  signature : String
  deriving DecidableEq, Repr

/-! ## The platform -/

/-- The library functions the code is built on. -/
structure Platform where
  sha256 : Bytes → Bytes
  /-- `ed25519Verify key signature message`. -/
  ed25519Verify : Bytes → Bytes → Bytes → Bool
  /-- `x25519Exchange secret public`. -/
  x25519Exchange : Bytes → Bytes → Bytes
  /-- `hkdfDeriveKey material info`. -/
  hkdfDeriveKey : Bytes → Bytes → Option Bytes
  /-- Decoding of unpadded base64url text. -/
  decodeB64UrlNoPad : String → Option Bytes
  /-- Decoding of padded base64url text. -/
  decodeB64Url : String → Option Bytes
  /-- The library's text for a decoding failure. -/
  decodeErrorText : String → String
  /-- The text form of a JSON value, as bytes. -/
  jsonToVec : Json → Bytes
  /-- The text form of a JSON value. -/
  jsonToString : Json → String
  /-- Reading of a JSON text. -/
  jsonFromStr : String → Option Json
  /-- Standard base64 with padding. -/
  encodeB64Std : Bytes → String
  decodeB64Std : String → Option Bytes
  spaceProofFromValue : Json → Option SpaceInclusionProof
  spaceRootFromValue : Json → Option SignedSpaceRoot
  spaceGrantFromValue : Json → Option SpaceGrant
  /-- The decay of a speaker's score over a pause of the given length. -/
  decay : Rat → Rat

variable (P : Platform)

/-- Decoding of base64url text with or without its padding. -/
def Platform.b64urlDecode (s : String) : Option Bytes :=
  P.decodeB64UrlNoPad (bare s)

def Platform.sha256Hex (bs : Bytes) : String :=
  hexEncode (P.sha256 bs)

def Platform.derivePeerId (pubKeyBytes : Bytes) : String :=
  P.sha256Hex pubKeyBytes

/-- The first sixteen hexadecimal digits of the hash of creator and name. -/
def Platform.deriveRoomId (creatorPubId roomName : String) : String :=
  String.ofList ((P.sha256Hex (utf8Bytes (creatorPubId ++ ":" ++ roomName))).toList.take 16)

end ConquerD.Wire
