import ConquerD.Wire.AppUrl
import ConquerD.Wire.Serde

/-!
# Supernode: minting of invites

An invite names a supernode and how to reach it, and is signed by it. Signed is
the object of all fields in the order of their names, absent ones as null. A
link leaves absent fields out; so does the file the invite is saved in, from
which the manager makes the same link again. The manager's own record of an
invite knows ten of the fields and requires them all.
-/

namespace ConquerD.Supernode

open Lib.Encoding Lib.JsonText Wire

/-! ## The payload -/

structure InvitePayload where
  inviterPeerId : String
  inviterIdentityPub : String
  inviteId : String
  expiresAt : Int64
  inviterEphemeralPub : String
  relayHint : Option String
  inviterHandle : Option String
  udpHolePunchHint : Option String
  lanHint : Option String
  isSupernode : Option Bool
  supernodeInfo : Option (List SerdeValue)
  supernodeRelayHints : Option (List String)
  stunHints : Option (List String)
  turnHints : Option (List String)
  signature : Option String

namespace InvitePayload

theorem fits64_int64 (n : Int64) : Fits64 n.toInt := by
  have hle := n.le_toInt
  have hlt := n.toInt_lt
  exact ⟨hle, by omega⟩

def texts (hints : List String) : SerdeValue :=
  .arr (hints.map .str)

/-- A field that is there. -/
def present (name : String) (v : Option SerdeValue) : List (String × SerdeValue) :=
  (v.map fun v => (name, v)).toList

variable (inv : InvitePayload)

def expiresAtValue : SerdeValue :=
  .num (.int inv.expiresAt.toInt (fits64_int64 inv.expiresAt))

/-- What is signed, by field name; an absent field is null. -/
def canonicalFields : List (String × SerdeValue) :=
  [("expires_at", inv.expiresAtValue),
    ("invite_id", .str inv.inviteId),
    ("inviter_ephemeral_pub", .str inv.inviterEphemeralPub),
    ("inviter_handle", (inv.inviterHandle.map .str).getD .null),
    ("inviter_identity_pub", .str inv.inviterIdentityPub),
    ("inviter_peer_id", .str inv.inviterPeerId),
    ("is_supernode", (inv.isSupernode.map .bool).getD .null),
    ("lan_hint", (inv.lanHint.map .str).getD .null),
    ("relay_hint", (inv.relayHint.map .str).getD .null),
    ("stun_hints", (inv.stunHints.map texts).getD .null),
    ("supernode_info", (inv.supernodeInfo.map .arr).getD .null),
    ("supernode_relay_hints", (inv.supernodeRelayHints.map texts).getD .null),
    ("turn_hints", (inv.turnHints.map texts).getD .null),
    ("udp_hole_punch_hint", (inv.udpHolePunchHint.map .str).getD .null)]

/-- The fields as they are written, in the order they are declared. -/
def jsonFields : List (String × SerdeValue) :=
  [("inviter_peer_id", .str inv.inviterPeerId),
    ("inviter_identity_pub", .str inv.inviterIdentityPub),
    ("invite_id", .str inv.inviteId),
    ("expires_at", inv.expiresAtValue),
    ("inviter_ephemeral_pub", .str inv.inviterEphemeralPub)] ++
    present "relay_hint" (inv.relayHint.map .str) ++
    present "inviter_handle" (inv.inviterHandle.map .str) ++
    present "udp_hole_punch_hint" (inv.udpHolePunchHint.map .str) ++
    present "lan_hint" (inv.lanHint.map .str) ++
    present "is_supernode" (inv.isSupernode.map .bool) ++
    present "supernode_info" (inv.supernodeInfo.map .arr) ++
    present "supernode_relay_hints" (inv.supernodeRelayHints.map texts) ++
    present "stun_hints" (inv.stunHints.map texts) ++
    present "turn_hints" (inv.turnHints.map texts) ++
    present "signature" (inv.signature.map .str)

variable (S : FloatSyntax FiniteF64)

def canonicalBytes : Bytes :=
  toVec S (.obj inv.canonicalFields)

/-- The invite with its signature under a key's signing function. -/
def sign (signing : Bytes → Bytes) : InvitePayload :=
  { inv with signature := some (b64UrlEncode (signing (inv.canonicalBytes S))) }

/-- The signature is one of the inviter over the fields. -/
def verify (P : Platform) : Bool :=
  ((do
    let sig ← inv.signature
    let sigBytes ← P.b64urlDecode sig
    let pubBytes ← P.b64urlDecode inv.inviterIdentityPub
    some (P.ed25519Verify pubBytes sigBytes (inv.canonicalBytes S))).getD false)

/-- The text of the payload. -/
def toJson : String :=
  docText (.obj (mapFields (toDoc S) inv.jsonFields))

def toUri : String :=
  AppUrl.mintInviteHttps "invite" (b64UrlEncode (utf8Bytes (inv.toJson S)))

/-- The payload as a value. -/
def toValue : SerdeValue :=
  .obj (sortFields inv.jsonFields)

end InvitePayload

/-! ## Reading fields -/

/-- The fields of a struct: an object, or an array with all fields in order. -/
def structFieldsOf (names : List String) : SerdeValue → Option (List (String × SerdeValue))
  | .obj fields => some fields
  | .arr items => if items.length = names.length then some (names.zip items) else none
  | _ => none

def boolValue? : SerdeValue → Option Bool
  | .bool b => some b
  | _ => none

def arrValue? : SerdeValue → Option (List SerdeValue)
  | .arr items => some items
  | _ => none

def textsValue? (v : SerdeValue) : Option (List String) :=
  (arrValue? v).bind fun items => items.mapM valueStr?

def i64Value? : SerdeValue → Option Int64
  | .num (.int n _) => if n < 2 ^ 63 then some (.ofInt n) else none
  | _ => none

def u64Value? : SerdeValue → Option Nat
  | .num (.int n _) => if 0 ≤ n then some n.toNat else none
  | _ => none

/-- A field that may be absent or null. -/
def optionalField {α : Type} (read : SerdeValue → Option α) :
    Option SerdeValue → Option (Option α)
  | none => some none
  | some .null => some none
  | some v => (read v).map some

def InvitePayload.fieldNames : List String :=
  ["inviter_peer_id", "inviter_identity_pub", "invite_id", "expires_at", "inviter_ephemeral_pub",
    "relay_hint", "inviter_handle", "udp_hole_punch_hint", "lan_hint", "is_supernode",
    "supernode_info", "supernode_relay_hints", "stun_hints", "turn_hints", "signature"]

/-- The payload a value spells. -/
def InvitePayload.fromValue (v : SerdeValue) : Option InvitePayload := do
  let fields ← structFieldsOf InvitePayload.fieldNames v
  let inviterPeerId ← (fields.lookup "inviter_peer_id").bind valueStr?
  let inviterIdentityPub ← (fields.lookup "inviter_identity_pub").bind valueStr?
  let inviteId ← (fields.lookup "invite_id").bind valueStr?
  let expiresAt ← (fields.lookup "expires_at").bind i64Value?
  let inviterEphemeralPub ← (fields.lookup "inviter_ephemeral_pub").bind valueStr?
  let relayHint ← optionalField valueStr? (fields.lookup "relay_hint")
  let inviterHandle ← optionalField valueStr? (fields.lookup "inviter_handle")
  let udpHolePunchHint ← optionalField valueStr? (fields.lookup "udp_hole_punch_hint")
  let lanHint ← optionalField valueStr? (fields.lookup "lan_hint")
  let isSupernode ← optionalField boolValue? (fields.lookup "is_supernode")
  let supernodeInfo ← optionalField arrValue? (fields.lookup "supernode_info")
  let supernodeRelayHints ← optionalField textsValue? (fields.lookup "supernode_relay_hints")
  let stunHints ← optionalField textsValue? (fields.lookup "stun_hints")
  let turnHints ← optionalField textsValue? (fields.lookup "turn_hints")
  let signature ← optionalField valueStr? (fields.lookup "signature")
  some
    { inviterPeerId := inviterPeerId
      inviterIdentityPub := inviterIdentityPub
      inviteId := inviteId
      expiresAt := expiresAt
      inviterEphemeralPub := inviterEphemeralPub
      relayHint := relayHint
      inviterHandle := inviterHandle
      udpHolePunchHint := udpHolePunchHint
      lanHint := lanHint
      isSupernode := isSupernode
      supernodeInfo := supernodeInfo
      supernodeRelayHints := supernodeRelayHints
      stunHints := stunHints
      turnHints := turnHints
      signature := signature }

/-! ## Minting -/

/-- What a supernode mints invites from. -/
structure InviteSource where
  peerId : String
  publicId : String
  signing : Bytes → Bytes
  listenerUrl : String
  inviteTtlSeconds : Int64
  turnHints : Option (List String)

/-- What is drawn for one invite. -/
structure InviteDraw where
  nonce : { bs : Bytes // bs.length = 16 }
  ephemeralPublic : Bytes
  /-- Seconds since the epoch. -/
  now : Int64

variable (S : FloatSyntax FiniteF64)

def InviteSource.expiresAt (mint : InviteSource) (now : Int64) : Int64 :=
  if mint.inviteTtlSeconds < 0 then now + 100 * 365 * 86400 else now + mint.inviteTtlSeconds

def InviteSource.createInvite (mint : InviteSource) (handle : Option String) (draw : InviteDraw) :
    InvitePayload :=
  InvitePayload.sign
    { inviterPeerId := mint.peerId
      inviterIdentityPub := mint.publicId
      inviteId := hexEncode draw.nonce.val
      expiresAt := mint.expiresAt draw.now
      inviterEphemeralPub := b64UrlEncode draw.ephemeralPublic
      relayHint := some mint.listenerUrl
      inviterHandle := handle
      udpHolePunchHint := none
      lanHint := none
      isSupernode := some true
      supernodeInfo := none
      supernodeRelayHints := none
      stunHints := none
      turnHints := mint.turnHints
      signature := none } S mint.signing

/-- What the file of a saved invite holds. -/
def savedInvite (inv : InvitePayload) (ephemeralSecret : Bytes) : SerdeValue :=
  .obj [("ephemeral_secret", .str (b64UrlEncode ephemeralSecret)), ("invite", inv.toValue)]

/-! ## The manager's link -/

/-- The manager's record of an invite. -/
structure ManagerInvite where
  inviterPeerId : String
  inviterIdentityPub : String
  inviteId : String
  expiresAt : Nat
  inviterEphemeralPub : String
  relayHint : String
  inviterHandle : String
  isSupernode : Bool
  turnHints : List String
  signature : String

def ManagerInvite.fieldNames : List String :=
  ["inviter_peer_id", "inviter_identity_pub", "invite_id", "expires_at", "inviter_ephemeral_pub",
    "relay_hint", "inviter_handle", "is_supernode", "turn_hints", "signature"]

def ManagerInvite.fromValue (v : SerdeValue) : Option ManagerInvite := do
  let fields ← structFieldsOf ManagerInvite.fieldNames v
  let inviterPeerId ← (fields.lookup "inviter_peer_id").bind valueStr?
  let inviterIdentityPub ← (fields.lookup "inviter_identity_pub").bind valueStr?
  let inviteId ← (fields.lookup "invite_id").bind valueStr?
  let expiresAt ← (fields.lookup "expires_at").bind u64Value?
  let inviterEphemeralPub ← (fields.lookup "inviter_ephemeral_pub").bind valueStr?
  let relayHint ← (fields.lookup "relay_hint").bind valueStr?
  let inviterHandle ← (fields.lookup "inviter_handle").bind valueStr?
  let isSupernode ← (fields.lookup "is_supernode").bind boolValue?
  let turnHints ← (fields.lookup "turn_hints").bind textsValue?
  let signature ← (fields.lookup "signature").bind valueStr?
  some
    { inviterPeerId := inviterPeerId
      inviterIdentityPub := inviterIdentityPub
      inviteId := inviteId
      expiresAt := expiresAt
      inviterEphemeralPub := inviterEphemeralPub
      relayHint := relayHint
      inviterHandle := inviterHandle
      isSupernode := isSupernode
      turnHints := turnHints
      signature := signature }

/-- The fields in the order they are declared. -/
def ManagerInvite.jsonFields (m : ManagerInvite) : List (String × Doc) :=
  [("inviter_peer_id", .str m.inviterPeerId),
    ("inviter_identity_pub", .str m.inviterIdentityPub),
    ("invite_id", .str m.inviteId),
    ("expires_at", .num (.ofInt m.expiresAt)),
    ("inviter_ephemeral_pub", .str m.inviterEphemeralPub),
    ("relay_hint", .str m.relayHint),
    ("inviter_handle", .str m.inviterHandle),
    ("is_supernode", .bool m.isSupernode),
    ("turn_hints", .arr (m.turnHints.map .str)),
    ("signature", .str m.signature)]

/-- The link of the invite in a saved file. -/
def buildConquerdInviteUrl (root : SerdeValue) : Option String := do
  let invite ← match root with
    | .obj fields => fields.lookup "invite"
    | _ => none
  let payload ← ManagerInvite.fromValue invite
  some ("https://doubleslash.space/i#" ++
    b64UrlEncode (utf8Bytes (docText (.obj payload.jsonFields))))

end ConquerD.Supernode
