import ConquerD.Supernode.Crypto
import Std.Data.ExtTreeMap

/-!
# Supernode: the peer store

Trusted peers by identity. A record marked blocked or revoked stays in the
store and its peer is not trusted. Saving to disk is left out: it writes what
the store holds.
-/

namespace ConquerD.Supernode

open Std (ExtTreeMap)
open Wire

structure PeerRecord where
  peerId : String
  identityPub : String
  relayHints : List String
  handle : String
  blocked : Bool
  revoked : Bool
  autoConnect : Bool
  isSupernode : Bool
  transcriptHash : String
  createdAt : Rat
  lastSeenAt : Rat
  quicPort : Nat
  deriving DecidableEq

/-- Neither blocked nor revoked. -/
def PeerRecord.active (record : PeerRecord) : Bool :=
  !record.revoked && !record.blocked

structure PeerStore where
  peers : ExtTreeMap String PeerRecord

namespace PeerStore

/-- The key a record of the peer is filed under: the canonical spelling, the
spelling as given, or the bare one. -/
def resolveKey (store : PeerStore) (identityPub : String) : Option String :=
  if store.peers.contains (normalizePublicId identityPub) then some (normalizePublicId identityPub)
  else if store.peers.contains identityPub then some identityPub
  else if bare identityPub ≠ identityPub ∧ store.peers.contains (bare identityPub) then
    some (bare identityPub)
  else none

def addPeer (store : PeerStore) (record : PeerRecord) : PeerStore :=
  let record := { record with identityPub := normalizePublicId record.identityPub }
  let peers :=
    if bare record.identityPub ≠ record.identityPub then
      store.peers.erase (bare record.identityPub)
    else store.peers
  { store with peers := peers.insert record.identityPub record }

/-- The store as read from disk: one record per canonical id, the last one listed. -/
def load (records : List PeerRecord) : PeerStore where
  peers := records.foldl (fun peers record =>
    peers.insert (normalizePublicId record.identityPub)
      { record with identityPub := normalizePublicId record.identityPub }) ∅

def getPeer (store : PeerStore) (identityPub : String) : Option PeerRecord :=
  (store.resolveKey identityPub).bind fun key => store.peers[key]?

def isTrusted (store : PeerStore) (identityPub : String) : Bool :=
  (store.getPeer identityPub).any PeerRecord.active

def trustedPeerIds (store : PeerStore) : List String :=
  (store.peers.toList.filter fun e => e.2.active).map (·.1)

def touchPeer (store : PeerStore) (identityPub : String) (now : Rat) : PeerStore :=
  match store.resolveKey identityPub with
  | none => store
  | some key =>
    { store with peers := store.peers.modify key fun peer => { peer with lastSeenAt := now } }

end PeerStore

end ConquerD.Supernode
