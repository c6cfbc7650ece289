import ConquerD.Lib.Words

/-!
# Manager: the inventory

The fleet as the manager keeps it: hosts with their instances, clusters that name
instances by key, defaults. Ports that an instance does not pin follow from its place in
the list of its host, in 16 bits. An edit changes the inventory in place and validates it
afterwards, so it returns the inventory it leaves besides its result.
-/

namespace ConquerD.Manager

open Lib.Words

/-! ## Data -/

/-- A TOML value. Floats and dates are kept as their text. -/
inductive Toml where
  | str (s : String)
  | int (n : Int)
  | float (text : String)
  | bool (b : Bool)
  | datetime (text : String)
  | arr (items : List Toml)
  | table (fields : List (String × Toml))

structure FeatureSpec where
  id : String
  enabled : Bool
  params : Option Toml
  cdylibManifest : Option String

structure Instance where
  id : String
  publicHost : String
  relayPort : Option UInt16
  wsPort : Option UInt16
  listenBind : Option String
  accessMode : Option String
  identityFile : Option String
  allowPublicRooms : Option Bool
  allowPrivateRooms : Option Bool
  clusterPort : Option UInt16
  features : List FeatureSpec

structure Host where
  name : String
  ssh : String
  arch : Option String
  instances : List Instance

structure ClusterDef where
  id : String
  /-- Keys of the form `hostname/instance_id`. -/
  members : List String
  clusterPort : Option UInt16

inductive FirewallMode where
  | off
  | ufw
  | report
  deriving DecidableEq

inductive PrivilegeMode where
  | sudo
  | rootlessSystemd
  | root
  deriving DecidableEq

structure SupernodeDefaults where
  listenBind : String
  identityFile : String
  allowPublicRooms : Option Bool
  allowPrivateRooms : Option Bool

structure Defaults where
  version : String
  accessMode : String
  user : String
  installRoot : String
  dataRoot : String
  releaseRepo : String
  privilege : PrivilegeMode
  firewall : FirewallMode
  binaryPath : Option String
  buildSource : Option String
  buildTarget : Option String
  buildTool : Option String
  supernode : SupernodeDefaults

structure Inventory where
  defaults : Defaults
  host : List Host
  clusters : List ClusterDef

/-- What an operation may complain of, with what its message names. -/
inductive InventoryError where
  | emptyHostName
  | missingSsh (host : String)
  | noInstances (host : String)
  | emptyInstanceId (host : String)
  | missingPublicHost (host id : String)
  | duplicateInstance (host id : String)
  | emptyClusterId
  | noMembers (cluster : String)
  | malformedMember (cluster key : String)
  | hostNotFound (host : String)
  | instanceNotFound (id host : String)
  | alreadyHasInstance (host id : String)
  | sshMismatch (host ssh : String)
  | nothingMatched
  deriving DecidableEq

/-! ## Validation -/

/-- Nothing is left of it when it is trimmed. -/
def blank (s : String) : Bool :=
  s.toList.all isWhite

/-- The parts before and behind the first `c`. -/
def splitOnce (c : Char) (s : String) : Option (String × String) :=
  match s.toList.dropWhile (· ≠ c) with
  | [] => none
  | _ :: rest => some (String.ofList (s.toList.takeWhile (· ≠ c)), String.ofList rest)

def checkInstances (hostName : String) (seen : List String) :
    List Instance → Except InventoryError Unit
  | [] => .ok ()
  | inst :: rest =>
    if blank inst.id then .error (.emptyInstanceId hostName)
    else if blank inst.publicHost then .error (.missingPublicHost hostName inst.id)
    else if inst.id ∈ seen then .error (.duplicateInstance hostName inst.id)
    else checkInstances hostName (inst.id :: seen) rest

def checkHosts : List Host → Except InventoryError Unit
  | [] => .ok ()
  | host :: rest =>
    if blank host.name then .error .emptyHostName
    else if blank host.ssh then .error (.missingSsh host.name)
    else if host.instances = [] then .error (.noInstances host.name)
    else
      match checkInstances host.name [] host.instances with
      | .error e => .error e
      | .ok () => checkHosts rest

def checkMembers (clusterId : String) : List String → Except InventoryError Unit
  | [] => .ok ()
  | key :: rest =>
    if (splitOnce '/' key).isNone then .error (.malformedMember clusterId key)
    else checkMembers clusterId rest

def checkClusters : List ClusterDef → Except InventoryError Unit
  | [] => .ok ()
  | cluster :: rest =>
    if blank cluster.id then .error .emptyClusterId
    else if cluster.members = [] then .error (.noMembers cluster.id)
    else
      match checkMembers cluster.id cluster.members with
      | .error e => .error e
      | .ok () => checkClusters rest

namespace Inventory

variable (inv : Inventory)

def validate : Except InventoryError Unit :=
  match checkHosts inv.host with
  | .error e => .error e
  | .ok () => checkClusters inv.clusters

end Inventory

/-! ## Resolution -/

def defaultRelayPort (index : Nat) : UInt16 :=
  3478 + UInt16.ofNat index * 100

def defaultWsPort (index : Nat) : UInt16 :=
  34935 + UInt16.ofNat index * 100

def defaultClusterPort (index : Nat) : UInt16 :=
  4478 + UInt16.ofNat index * 100

structure ResolvedInstance where
  host : Host
  inst : Instance
  relayPort : UInt16
  wsPort : UInt16
  clusterPort : UInt16

/-- The instance at a place of its host's list. The cluster port is the default unless a
cluster sets another base. -/
def resolveAt (host : Host) (base : Option UInt16) (index : Nat) (inst : Instance) :
    ResolvedInstance where
  host := host
  inst := inst
  relayPort := inst.relayPort.getD (defaultRelayPort index)
  wsPort := inst.wsPort.getD (defaultWsPort index)
  clusterPort :=
    inst.clusterPort.getD
      (match base with
      | none => defaultClusterPort index
      | some port => port + UInt16.ofNat index * 100)

structure Selector where
  host : Option String
  instId : Option String

/-- Everything is wanted where nothing is asked. -/
def Selector.wants (asked : Option String) (name : String) : Bool :=
  match asked with
  | none => true
  | some wanted => name == wanted

namespace Inventory

variable (inv : Inventory)

def resolveInstances (selector : Selector) : Except InventoryError (List ResolvedInstance) :=
  let out := (inv.host.filter fun host => Selector.wants selector.host host.name).flatMap
    fun host => (host.instances.mapIdx (resolveAt host none)).filter
      fun r => Selector.wants selector.instId r.inst.id
  if out.isEmpty then .error .nothingMatched else .ok out

def resolveMember (cluster : ClusterDef) (key : String) : Except InventoryError ResolvedInstance :=
  match splitOnce '/' key with
  | none => .error (.malformedMember cluster.id key)
  | some (hostName, instId) =>
    match inv.host.find? (·.name == hostName) with
    | none => .error (.hostNotFound hostName)
    | some host =>
      match (host.instances.mapIdx (resolveAt host cluster.clusterPort)).find?
          (·.inst.id == instId) with
      | none => .error (.instanceNotFound instId hostName)
      | some r => .ok r

def resolveClusterMembers (cluster : ClusterDef) : Except InventoryError (List ResolvedInstance) :=
  cluster.members.mapM (inv.resolveMember cluster)

/-! ## Edits -/

/-- The inventory an edit leaves, and its result. -/
abbrev Edited := Inventory × Except InventoryError Unit

def validated : Edited :=
  (inv, inv.validate)

def pushInstance (hostName ssh : String) (inst : Instance) : Edited :=
  match inv.host.findIdx? (·.name == hostName), inv.host.find? (·.name == hostName) with
  | some hostIdx, some host =>
    if host.instances.any (·.id == inst.id) then (inv, .error (.alreadyHasInstance hostName inst.id))
    else if host.ssh ≠ ssh then (inv, .error (.sshMismatch hostName host.ssh))
    else
      validated { inv with
        host := inv.host.set hostIdx { host with instances := host.instances ++ [inst] } }
  | _, _ =>
    validated { inv with
      host := inv.host ++ [{ name := hostName, ssh := ssh, arch := none, instances := [inst] }] }

def removeInstance (hostName instanceId : String) : Edited :=
  match inv.host.findIdx? (·.name == hostName), inv.host.find? (·.name == hostName) with
  | some hostIdx, some host =>
    match host.instances.findIdx? (·.id == instanceId) with
    | none => (inv, .error (.instanceNotFound instanceId hostName))
    | some instIdx =>
      let instances := host.instances.eraseIdx instIdx
      validated { inv with
        host :=
          if instances = [] then inv.host.eraseIdx hostIdx
          else inv.host.set hostIdx { host with instances := instances } }
  | _, _ => (inv, .error (.hostNotFound hostName))

/-- What an update leaves out is as it was. -/
def filledFrom (existing updated : Instance) : Instance :=
  { updated with
    features := if updated.features.isEmpty then existing.features else updated.features
    listenBind := updated.listenBind.orElse fun _ => existing.listenBind
    accessMode := updated.accessMode.orElse fun _ => existing.accessMode
    identityFile := updated.identityFile.orElse fun _ => existing.identityFile }

/-- The end of an update: validated once more where what came before has gone through. -/
def thenValidated (e : Edited) : Edited :=
  match e.2 with
  | .error err => (e.1, .error err)
  | .ok () => validated e.1

/-- An update that names another host: the instance is removed and pushed there. -/
def moveInstance (oldHostName oldInstanceId newHostName newSsh : String) (updated : Instance) :
    Edited :=
  let removed := inv.removeInstance oldHostName oldInstanceId
  match removed.2 with
  | .error err => (removed.1, .error err)
  | .ok () => thenValidated (removed.1.pushInstance newHostName newSsh updated)

def updateInstance (oldHostName oldInstanceId newHostName newSsh : String) (updated : Instance) :
    Edited :=
  match inv.host.findIdx? (·.name == oldHostName), inv.host.find? (·.name == oldHostName) with
  | some hostIdx, some host =>
    match host.instances.findIdx? (·.id == oldInstanceId),
        host.instances.find? (·.id == oldInstanceId) with
    | some instIdx, some existing =>
      let updated := filledFrom existing updated
      if newHostName = oldHostName then
        if updated.id ≠ oldInstanceId ∧ host.instances.any (·.id == updated.id) then
          (inv, .error (.alreadyHasInstance newHostName updated.id))
        else
          validated { inv with
            host := inv.host.set hostIdx
              { host with ssh := newSsh, instances := host.instances.set instIdx updated } }
      else
        match inv.host.find? (·.name == newHostName) with
        | none => inv.moveInstance oldHostName oldInstanceId newHostName newSsh updated
        | some target =>
          if target.ssh ≠ newSsh then (inv, .error (.sshMismatch newHostName target.ssh))
          else if target.instances.any (·.id == updated.id) then
            (inv, .error (.alreadyHasInstance newHostName updated.id))
          else inv.moveInstance oldHostName oldInstanceId newHostName newSsh updated
    | _, _ => (inv, .error (.instanceNotFound oldInstanceId oldHostName))
  | _, _ => (inv, .error (.hostNotFound oldHostName))

end Inventory

inductive InventoryEdit where
  | push (hostName ssh : String) (inst : Instance)
  | update (oldHostName oldInstanceId newHostName newSsh : String) (updated : Instance)
  | remove (hostName instanceId : String)

namespace Inventory

def edit (inv : Inventory) : InventoryEdit → Edited
  | .push h ssh x => inv.pushInstance h ssh x
  | .update oh oi nh ssh x => inv.updateInstance oh oi nh ssh x
  | .remove h i => inv.removeInstance h i

/-- The inventory after an edit, be it accepted or not. -/
def step (inv : Inventory) (e : InventoryEdit) : Inventory :=
  (inv.edit e).1

end Inventory

end ConquerD.Manager
