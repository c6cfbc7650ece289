import ConquerD.Lib.Words
import ConquerD.Supernode.ClusterLink
import ConquerD.Supernode.Signaling

/-!
# Supernode: the roster of a cluster

What an operator may declare as a cluster, the bytes that are signed for it, and the
descriptor a node hands to its clients.
-/

namespace ConquerD.Supernode

open Lib.Encoding Lib.Words Wire

/-- The id without its padding. -/
def ClusterMember.normalizedId (m : ClusterMember) : String :=
  bare m.identityPub

namespace ClusterConfig

/-- The checks on the members one by one, with the ids that came before. -/
def validateMembers : List String → List ClusterMember → Except String Unit
  | _, [] => .ok ()
  | seen, m :: rest =>
    if trim m.relayAddr.toList = [] then
      .error ("cluster member " ++ m.identityPub ++ " has empty relay_addr")
    else if m.normalizedId ∈ seen then
      .error ("duplicate cluster member: " ++ m.identityPub)
    else validateMembers (m.normalizedId :: seen) rest

def validate (config : ClusterConfig) (selfIdentityPub : String) : Except String Unit :=
  if trim config.clusterId.toList = [] then .error "cluster.cluster_id must not be empty"
  else
    match validateMembers [] config.members with
    | .error e => .error e
    | .ok () =>
      if !config.members.isEmpty && !config.contains selfIdentityPub then
        .error "this node's identity is not listed in cluster.member"
      else .ok ()

end ClusterConfig

/-! ## Signing -/

/-- What the bytes of a roster begin with. -/
def clusterLabel : String := "conquerd-cluster-v1|"

/-- The cluster id, and the ids of the members in order. -/
def ClusterMembership.canonicalBytes (m : ClusterMembership) : Bytes :=
  let ids := (m.config.members.map ClusterMember.normalizedId).mergeSort fun a b => a ≤ b
  utf8Bytes clusterLabel ++ utf8Bytes m.config.clusterId ++ ids.flatMap fun id => 0x7C :: utf8Bytes id

/-- A node's key: its public half as text, and signing with it. -/
structure Identity where
  publicId : String
  sign : Bytes → Bytes

structure SignedClusterDescriptor where
  clusterId : String
  members : List ClusterMember
  signer : String
  signature : String

def ClusterMembership.sign (m : ClusterMembership) (identity : Identity) :
    SignedClusterDescriptor where
  clusterId := m.config.clusterId
  members := m.config.members
  signer := identity.publicId
  signature := b64UrlEncode (identity.sign m.canonicalBytes)

/-- The signature is one of the signer over the roster. -/
def SignedClusterDescriptor.verify (P : Platform) (d : SignedClusterDescriptor) : Bool :=
  let membership := ClusterMembership.new ⟨d.clusterId, d.members⟩ d.signer
  match P.b64urlDecode d.signer, P.b64urlDecode d.signature with
  | some pk, some sig => Signaling.verifyWithPub P pk sig membership.canonicalBytes
  | _, _ => false

end ConquerD.Supernode
