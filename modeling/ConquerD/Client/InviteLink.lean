import ConquerD.Client.Invite
import ConquerD.Wire.AppUrl
import ConquerD.Wire.Serde

/-!
# Client: accepting a pasted link

A pasted link is reduced to an action and a payload; what accepting it does to
the client is listed as effects, from which the new state follows. A payload is
read field by field, every one of another type counting as absent.
-/

namespace ConquerD.Client

open Lib.Encoding Lib.JsonText Wire

/-! ## What acceptance does -/

inductive InviteEffect where
  /-- The record is put in the peer store, and the store is saved. -/
  | upsert (record : PeerRecord)
  /-- The inviter is expected to answer. -/
  | pend (invite : PendingInvite)
  /-- A session is opened, or opened anew. -/
  | openSession (supernodeId hint : String)

/-- The identity the effect is about. -/
def InviteEffect.identity : InviteEffect → String
  | upsert record => record.identityPub
  | pend invite => invite.inviterIdentityPub
  | openSession supernodeId _ => supernodeId

def ConnectionManager.apply (c : ConnectionManager) : InviteEffect → ConnectionManager
  | .upsert record => { c with peerStore := c.peerStore.upsertFromInvite record }
  | .pend invite => { c with pendingInvites := c.pendingInvites.insert invite.inviteId invite }
  | .openSession supernodeId _ => c.connectSupernodeWs supernodeId

/-! ## Invites -/

/-- What is read from the payload of an invite. -/
structure InviteFields where
  inviterIdentityPub : String
  inviterPeerId : String
  inviteId : String
  relayHint : String
  lanHint : String
  inviterHandle : String
  isSupernode : Bool
  expiresAt : Option Int

def InviteFields.read (payload : Json) : Option InviteFields :=
  (payload.str? "inviter_identity_pub").map fun inviterIdentityPub =>
    { inviterIdentityPub := inviterIdentityPub
      inviterPeerId := (payload.str? "inviter_peer_id").getD inviterIdentityPub
      inviteId := (payload.str? "invite_id").getD ""
      relayHint := (payload.str? "relay_hint").getD ""
      lanHint := (payload.str? "lan_hint").getD ""
      inviterHandle := (payload.str? "inviter_handle").getD ""
      isSupernode := ((payload.get? "is_supernode").bind Json.asBool?).getD false
      expiresAt := (payload.get? "expires_at").bind Json.asI64? }

namespace InviteFields

variable (env : Env) (f : InviteFields)

def supernodeHint : String :=
  if f.relayHint = "" then f.lanHint else f.relayHint

def expired : Bool :=
  f.expiresAt.any fun e : Int => decide (e < env.nowSecs)

/-- The checks before anything is changed, for a client with the given id. -/
def Acceptable (publicId : String) : Prop :=
  f.inviteId ≠ "" ∧ f.inviterIdentityPub ≠ publicId ∧ f.expired env = false

instance (publicId : String) : Decidable (f.Acceptable env publicId) :=
  inferInstanceAs (Decidable (_ ∧ _))

def record : PeerRecord :=
  { PeerRecord.default with
    peerId := f.inviterPeerId
    identityPub := f.inviterIdentityPub
    handle := f.inviterHandle
    relayHints := if f.supernodeHint = "" then [] else [f.supernodeHint]
    isSupernode := true
    supernodeFromInvite := true
    createdAt := env.unixNow
    lastSeenAt := env.unixNow }

def pendingInvite : PendingInvite where
  inviterPeerId := f.inviterPeerId
  inviterIdentityPub := f.inviterIdentityPub
  inviteId := f.inviteId
  relayHint := f.supernodeHint
  lanHint := f.lanHint
  isSupernode := f.isSupernode
  createdAt := env.nowMs

/-- What follows the checks. -/
def effects : List InviteEffect :=
  (if f.isSupernode then [.upsert (f.record env)] else []) ++ [.pend (f.pendingInvite env)] ++
    (if f.isSupernode ∧ f.supernodeHint ≠ "" then
      [.openSession f.inviterIdentityPub f.supernodeHint] else [])

theorem identity_of_mem_effects {e : InviteEffect} (h : e ∈ f.effects env) :
    e.identity = f.inviterIdentityPub := by
  rw [effects, List.mem_append, List.mem_append] at h
  rcases h with (h | h) | h
  · split at h
    · rw [List.mem_singleton.mp h]
      rfl
    · cases h
  · rw [List.mem_singleton.mp h]
    rfl
  · split at h
    · rw [List.mem_singleton.mp h]
      rfl
    · cases h

end InviteFields

def inviteEffects (env : Env) (publicId : String) (payload : Json) : List InviteEffect :=
  match InviteFields.read payload with
  | none => []
  | some f => if f.Acceptable env publicId then f.effects env else []

theorem handleAcceptInvite_eq_apply (env : Env) (c : ConnectionManager) (payload : Json) :
    c.handleAcceptInvite env payload =
      (inviteEffects env c.publicId payload).foldl ConnectionManager.apply c := by
  unfold ConnectionManager.handleAcceptInvite inviteEffects InviteFields.read
  cases payload.str? "inviter_identity_pub" with
  | none => rfl
  | some inviterIdentityPub =>
    simp only [Option.map_some]
    generalize (payload.str? "inviter_peer_id").getD inviterIdentityPub = inviterPeerId
    generalize (payload.str? "invite_id").getD "" = inviteId
    generalize (payload.str? "relay_hint").getD "" = relayHint
    generalize (payload.str? "lan_hint").getD "" = lanHint
    generalize (payload.str? "inviter_handle").getD "" = inviterHandle
    generalize ((payload.get? "is_supernode").bind Json.asBool?).getD false = isSupernode
    generalize (payload.get? "expires_at").bind Json.asI64? = expiresAt
    let f : InviteFields :=
      ⟨inviterIdentityPub, inviterPeerId, inviteId, relayHint, lanHint, inviterHandle,
        isSupernode, expiresAt⟩
    by_cases hskip : inviteId = "" ∨ inviterIdentityPub = c.publicId ∨
        (expiresAt.any fun e : Int => decide (e < env.nowSecs)) = true
    · have hnot : ¬ f.Acceptable env c.publicId := by
        rintro ⟨hid, hown, hexpired⟩
        rcases hskip with h | h | h
        · exact hid h
        · exact hown h
        · exact absurd (h.symm.trans hexpired) (by decide)
      have hnone : (if f.Acceptable env c.publicId then f.effects env else []) = [] := if_neg hnot
      rw [if_pos hskip, hnone]
      rfl
    · have hchecks : inviteId ≠ "" ∧ inviterIdentityPub ≠ c.publicId ∧
          (expiresAt.any fun e : Int => decide (e < env.nowSecs)) = false := by
        simpa [not_or] using hskip
      have haccept : f.Acceptable env c.publicId := hchecks
      have hsome : (if f.Acceptable env c.publicId then f.effects env else []) = f.effects env :=
        if_pos haccept
      rw [if_neg hskip, hsome]
      cases isSupernode with
      | false =>
        simp [f, InviteFields.effects, ConnectionManager.apply, InviteFields.pendingInvite,
          InviteFields.supernodeHint]
      | true =>
        by_cases hhint : (if relayHint = "" then lanHint else relayHint) = ""
        · simp [f, InviteFields.effects, ConnectionManager.apply, InviteFields.pendingInvite,
            InviteFields.record, InviteFields.supernodeHint, hhint]
        · simp [f, InviteFields.effects, ConnectionManager.apply, InviteFields.pendingInvite,
            InviteFields.record, InviteFields.supernodeHint, hhint]

/-! ## Room invites -/

/-- The newest version of room invites that is understood. -/
def roomInviteSchema : Nat := 1

/-- The payload is a room invite that names its supernode and room, of a version
that is understood, and has not expired. -/
def roomInviteValid (env : Env) (payload : Json) : Bool :=
  !((payload.get? "v").bind Json.asU64?).any (fun v => decide (v > roomInviteSchema)) &&
    (payload.str? "supernode_id").getD "" != "" && (payload.str? "room_id").getD "" != "" &&
    !((payload.get? "expires_at").bind Json.asU64?).any fun e => e != 0 && decide (e < env.nowSecs)

def roomInviteEffects (env : Env) (c : ConnectionManager) (payload : Json) : List InviteEffect :=
  if roomInviteValid env payload then
    let supernodeId := (payload.str? "supernode_id").getD ""
    let hint := (payload.str? "supernode_hint").getD ""
    (if hint = "" then []
      else [.upsert
        { PeerRecord.default with
          peerId := supernodeId
          identityPub := supernodeId
          relayHints := [hint]
          isSupernode := true
          supernodeFromInvite := true
          createdAt := env.unixNow
          lastSeenAt := env.unixNow }]) ++
      if supernodeId ∈ c.supernodes ∨ hint = "" then [] else [.openSession supernodeId hint]
  else []

/-! ## Links -/

section Links

variable (S : FloatSyntax FiniteF64) (J : JsonSyntax)

/-- Containers nest no deeper in what is parsed. -/
def jsonDepth : Nat := 127

/-- The value under a link's payload. -/
def decodePayload (encoded : String) : Option SerdeValue := do
  if encoded.utf8ByteSize > 262144 then none
  let jsonBytes ← b64UrlDecode (bare encoded)
  let text ← fromUtf8 jsonBytes
  readValue (Number.ofLiteral S) jsonDepth (← J.read text)

/-- Action and payload of an accepted link. -/
def parseLink (url : String) : Option (String × String) :=
  (AppUrl.normalizeAppUrl url).map AppUrl.splitAction

def invitePayload? (url : String) : Option SerdeValue := do
  let link ← parseLink url
  if link.1 = "room" then none else decodePayload S J link.2

def roomPayload? (url : String) : Option SerdeValue := do
  let link ← parseLink url
  if link.1 = "room" then decodePayload S J link.2 else none

/-- What accepting a pasted link does. -/
def acceptEffects (env : Env) (c : ConnectionManager) (url : String) : List InviteEffect :=
  match roomPayload? S J url with
  | some payload => roomInviteEffects env c (Json.ofValue S payload)
  | none =>
    match invitePayload? S J url with
    | some payload => inviteEffects env c.publicId (Json.ofValue S payload)
    | none => []

def ConnectionManager.handleAcceptUrl (env : Env) (c : ConnectionManager) (url : String) :
    ConnectionManager :=
  (acceptEffects S J env c url).foldl ConnectionManager.apply c

variable {S J}

theorem acceptEffects_of_invite {env : Env} {c : ConnectionManager} {url : String}
    {payload : SerdeValue} (h : invitePayload? S J url = some payload) :
    acceptEffects S J env c url = inviteEffects env c.publicId (Json.ofValue S payload) := by
  have hroom : roomPayload? S J url = none := by
    unfold invitePayload? at h
    unfold roomPayload?
    cases hlink : parseLink url with
    | none => rfl
    | some link =>
      rw [hlink] at h
      simp only [Option.bind_eq_bind, Option.bind_some] at h ⊢
      by_cases haction : link.1 = "room"
      · rw [if_pos haction] at h
        cases h
      · rw [if_neg haction]
  rw [acceptEffects, hroom]
  simp only [h]

end Links

end ConquerD.Client
