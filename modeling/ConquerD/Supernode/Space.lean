import ConquerD.Wire.Space
import Std.Data.ExtTreeMap

/-!
# Supernode: held Space roots and proof-based admission

The supernode keeps the highest verified root of each space, first signer
first, and decides admission to a room from a proof against the held root.
-/

namespace ConquerD.Supernode

open Std (ExtTreeMap)
open Wire

variable (P : Platform)

/-! ## The store of roots -/

/-- The highest verified root of each space, and how often two roots of one
epoch have been seen. -/
structure SpaceRootStore where
  roots : ExtTreeMap String SignedSpaceRoot
  equivocations : ExtTreeMap String Nat

namespace SpaceRootStore

def new : SpaceRootStore where
  roots := ∅
  equivocations := ∅

def get (store : SpaceRootStore) (spaceId : String) : Option SignedSpaceRoot :=
  store.roots[spaceId]?

/-- Stores a root that verifies and is newer than the one held for its space,
under the same signer. The Boolean says whether it was stored. -/
def accept (store : SpaceRootStore) (root : SignedSpaceRoot) : SpaceRootStore × Bool :=
  if !root.verify P then (store, false)
  else
    let stored := ({ store with roots := store.roots.insert root.spaceId root }, true)
    match store.get root.spaceId with
    | none => stored
    | some existing =>
      if existing.signer ≠ root.signer then (store, false)
      else if root.epoch = existing.epoch ∧ root.rootHash ≠ existing.rootHash then
        ({ store with
            equivocations := store.equivocations.insert root.spaceId
              (store.equivocations[root.spaceId]?.getD 0 + 1) }, false)
      else if root.epoch ≤ existing.epoch then (store, false)
      else stored

/-- All roots held, for the periodic gossip. -/
def all (store : SpaceRootStore) : List SignedSpaceRoot :=
  store.roots.toList.map Prod.snd

end SpaceRootStore

/-- The admission decision for a presented proof and grant. `now` is in seconds
since the epoch. -/
def spaceAdmissionOk (root : SignedSpaceRoot) (proof : SpaceInclusionProof)
    (grant : Option SpaceGrant) (sender roomId : String) (now : Nat) : Bool :=
  if proof.node.nodeId ≠ roomId ∨ proof.verifyAgainst P root = false then false
  else if proof.node.nodeType ≠ "private" then true
  else
    match grant with
    | none => false
    | some grant =>
      if grant.verify P root.signer = false ∨ grant.nodeId ≠ roomId ∨
          bare grant.granteePub ≠ bare sender ∨ grant.epoch > root.epoch then false
      else grant.expiresAt = 0 ∨ now ≤ grant.expiresAt

end ConquerD.Supernode
