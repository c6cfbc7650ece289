import ConquerD.Wire.PublicId
import Std.Data.ExtTreeMap

/-!
# Client: the peer store

Trusted peers, filed under the peer id their record carries. The records keep
the fields the handshakes write; attestation, avatars and ICE data are left
out. The source's map is unordered: a search by identity visits the keys in
some order, which is a parameter here.
-/

namespace ConquerD.Client

open Std (ExtTreeMap)

structure PeerRecord where
  peerId : String
  identityPub : String
  relayHints : List String
  handle : String
  blocked : Bool
  revoked : Bool
  autoConnect : Bool
  isSupernode : Bool
  supernodeFromInvite : Bool
  createdAt : Rat
  lastSeenAt : Rat
  quicPort : Nat
  deriving DecidableEq

/-- The default of every field. -/
def PeerRecord.default : PeerRecord where
  peerId := ""
  identityPub := ""
  relayHints := []
  handle := ""
  blocked := false
  revoked := false
  autoConnect := false
  isSupernode := false
  supernodeFromInvite := false
  createdAt := 0
  lastSeenAt := 0
  quicPort := 0

/-- A trusted supernode, by its peer id or its identity. -/
def PeerRecord.isSupernodeNamed (record : PeerRecord) (id : String) : Bool :=
  !record.blocked && record.isSupernode && (record.identityPub == id || record.peerId == id)

structure PeerStore where
  records : ExtTreeMap String PeerRecord

namespace PeerStore

variable (store : PeerStore)

def get (peerId : String) : Option PeerRecord :=
  store.records[peerId]?

/-- The first record with the identity, among the keys in the order visited. -/
def getByIdentity (order : List String) (identityPub : String) : Option PeerRecord :=
  (order.filterMap store.get).find? fun r => r.identityPub == identityPub

def isSupernodeId (order : List String) (id : String) : Bool :=
  id != "" && (order.filterMap store.get).any fun r => r.isSupernodeNamed id

/-- The identity of the first trusted supernode with the id. -/
def resolveSupernodeIdentityPub (order : List String) (id : String) : Option String :=
  if id = "" then none
  else ((order.filterMap store.get).find? fun r => r.isSupernodeNamed id).map (·.identityPub)

def upsert (record : PeerRecord) : PeerStore :=
  ⟨store.records.insert record.peerId record⟩

/-- Replaces every record of the identity by one. A peer id that another
identity holds is replaced by the identity itself. -/
def upsertFromInvite (record : PeerRecord) : PeerStore :=
  let records := store.records.filter fun _ r => r.identityPub != record.identityPub
  let record :=
    match records[record.peerId]? with
    | some existing =>
      if existing.identityPub ≠ record.identityPub then
        { record with peerId := record.identityPub }
      else record
    | none => record
  ⟨records.insert record.peerId record⟩

/-- Removes by peer id, else the first record with the identity among the keys in the order
visited. -/
def removeByAnyId (order : List String) (id : String) : PeerStore × Option PeerRecord :=
  match store.records[id]? with
  | some record => (⟨store.records.erase id⟩, some record)
  | none =>
    match order.find? fun k => (store.get k).any fun r => r.identityPub == id with
    | some k => (⟨store.records.erase k⟩, store.records[k]?)
    | none => (store, none)

end PeerStore

end ConquerD.Client
