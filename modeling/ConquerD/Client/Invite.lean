import ConquerD.Client.State

/-!
# Client: invites

An invite is a link with the inviter's identity, a random id and an expiry. The
client that made it keeps no note of it; the client that accepts it notes the
inviter it expects to hear from. A supernode's invite is trusted at once.
-/

namespace ConquerD.Client

open Wire

/-- What a fresh invite carries. -/
structure InvitePayload where
  inviterIdentityPub : String
  inviteId : String
  expiresAt : Nat
  deriving DecidableEq

namespace ConnectionManager

variable (env : Env) (c : ConnectionManager)

/-- The invite the client makes now. -/
def generateInvite : InvitePayload where
  inviterIdentityPub := c.publicId
  inviteId := env.uuid
  expiresAt := env.nowSecs + 900

/-- A session with the supernode is opened, or opened anew. -/
def connectSupernodeWs (supernodeId : String) : ConnectionManager :=
  { c with supernodes := c.supernodes.insert supernodeId }

/-- Accepting a pasted invite, from its decoded payload on. -/
def handleAcceptInvite (payload : Json) : ConnectionManager :=
  match payload.str? "inviter_identity_pub" with
  | none => c
  | some inviterIdentityPub =>
    let inviterPeerId := (payload.str? "inviter_peer_id").getD inviterIdentityPub
    let inviteId := (payload.str? "invite_id").getD ""
    let relayHint := (payload.str? "relay_hint").getD ""
    let lanHint := (payload.str? "lan_hint").getD ""
    let supernodeHint := if relayHint = "" then lanHint else relayHint
    let isSupernode := ((payload.get? "is_supernode").bind Json.asBool?).getD false
    let expired := ((payload.get? "expires_at").bind Json.asI64?).any fun e : Int =>
      decide (e < env.nowSecs)
    if inviteId = "" ∨ inviterIdentityPub = c.publicId ∨ expired then c
    else
      let c :=
        if isSupernode then
          { c with
            peerStore := c.peerStore.upsertFromInvite
              { PeerRecord.default with
                peerId := inviterPeerId
                identityPub := inviterIdentityPub
                handle := (payload.str? "inviter_handle").getD ""
                relayHints := if supernodeHint = "" then [] else [supernodeHint]
                isSupernode := true
                supernodeFromInvite := true
                createdAt := env.unixNow
                lastSeenAt := env.unixNow } }
        else c
      let c := { c with
        pendingInvites := c.pendingInvites.insert inviteId
          { inviterPeerId := inviterPeerId
            inviterIdentityPub := inviterIdentityPub
            inviteId := inviteId
            relayHint := supernodeHint
            lanHint := lanHint
            isSupernode := isSupernode
            createdAt := env.nowMs } }
      if isSupernode ∧ supernodeHint ≠ "" then c.connectSupernodeWs inviterIdentityPub else c

/-- Accepting a pasted room invite that has not expired. -/
def handleAcceptRoomInvite (supernodeId supernodeHint : String) : ConnectionManager :=
  let c :=
    if supernodeHint = "" then c
    else
      { c with
        peerStore := c.peerStore.upsertFromInvite
          { PeerRecord.default with
            peerId := supernodeId
            identityPub := supernodeId
            relayHints := [supernodeHint]
            isSupernode := true
            supernodeFromInvite := true
            createdAt := env.unixNow
            lastSeenAt := env.unixNow } }
  if supernodeId ∈ c.supernodes ∨ supernodeHint = "" then c else c.connectSupernodeWs supernodeId

/-- Pending invites older than five minutes are dropped. -/
def pruneInvites : ConnectionManager :=
  { c with
    pendingInvites := c.pendingInvites.filter fun _ p =>
      decide (env.nowMs - p.createdAt < 5 * 60 * 1000) }

def setBlocked (peerId : String) (blocked : Bool) : ConnectionManager :=
  match c.peerStore.get peerId with
  | none => c
  | some record =>
    { c with
      peerStore := ⟨c.peerStore.records.insert peerId { record with blocked := blocked }⟩ }

end ConnectionManager

end ConquerD.Client
