import ConquerD.Lib.Numbered
import Mathlib.Data.List.Infix

/-!
# Manager: the firewall scripts

The three scripts the manager runs on a machine: at an install, at an uninstall and
at a cluster sync. The firewall is a numbered list of rules with comments. A script
deletes the rules whose comment has a given text in it, the highest number first, and
then adds rules of its own. The shell text around these commands is left out.

A comment is text. What it stands for is kept beside it: rules the manager made carry
the instance and the tag that their comment spells.
-/

namespace ConquerD.Manager

open Lib.Numbered

/-! ## Rules -/

inductive Proto where
  | udp
  | tcp
  deriving DecidableEq

/-- An instance by the names of its host and its own. -/
structure InstanceRef where
  hostName : String
  id : String
  deriving DecidableEq

inductive RuleTag where
  | relay
  | ws
  | cluster (ip : String)
  deriving DecidableEq

def RuleTag.text : RuleTag → String
  | .relay => "relay"
  | .ws => "ws"
  | .cluster ip => "cluster" ++ ":" ++ ip

def ufwComment (hostName instanceId tag : String) : String :=
  "snm:" ++ hostName ++ "/" ++ instanceId ++ ":" ++ tag

/-- A comment of somebody else's: it does not begin the way the manager's do. -/
def ForeignComment : Type :=
  { c : String // ¬ "snm:".toList <+: c.toList }

inductive RuleOwner where
  | tagged (i : InstanceRef) (tag : RuleTag)
  | untagged (comment : ForeignComment)

def RuleOwner.comment : RuleOwner → String
  | .tagged i tag => ufwComment i.hostName i.id tag.text
  | .untagged c => c.val

inductive RuleBody where
  | allow (port : UInt16) (proto : Proto)
  | allowFrom (ip : String) (port : UInt16) (proto : Proto)
  /-- Anything else an operator may have written. -/
  | other (text : String)
  deriving DecidableEq

structure UfwRule where
  body : RuleBody
  owner : RuleOwner

namespace UfwRule

def comment (r : UfwRule) : String :=
  r.owner.comment

def ownedBy (i : InstanceRef) (r : UfwRule) : Bool :=
  match r.owner with
  | .tagged j _ => decide (j = i)
  | .untagged _ => false

def portRuleOf (i : InstanceRef) (r : UfwRule) : Bool :=
  match r.owner with
  | .tagged j .relay | .tagged j .ws => decide (j = i)
  | _ => false

def clusterRuleOf (i : InstanceRef) (r : UfwRule) : Bool :=
  match r.owner with
  | .tagged j (.cluster _) => decide (j = i)
  | _ => false

end UfwRule

abbrev Ufw := List UfwRule

/-! ## Commands -/

/-- `grep -F`. -/
def Contains (needle text : String) : Prop :=
  needle.toList <:+: text.toList

instance (needle text : String) : Decidable (Contains needle text) :=
  inferInstanceAs (Decidable (_ <:+: _))

inductive UfwCommand where
  /-- Delete the rules whose comment contains the needle, and not the other text
  where one is given, by descending number. -/
  | deleteTagged (needle : String) (keep : Option String)
  | allow (rule : UfwRule)

/-- The rules the listing is searched for. -/
def searched (needle : String) (keep : Option String) (r : UfwRule) : Bool :=
  decide (Contains needle r.comment) &&
    match keep with
    | none => true
    | some text => !decide (Contains text r.comment)

def UfwCommand.run (ufw : Ufw) : UfwCommand → Ufw
  | .deleteTagged needle keep => deleteNumbers ufw (numbers (searched needle keep) ufw).reverse
  | .allow rule => ufw ++ [rule]

def runScript (ufw : Ufw) (script : List UfwCommand) : Ufw :=
  script.foldl UfwCommand.run ufw

/-! ## Scripts -/

structure NetworkEnv where
  relayPort : UInt16
  wsPort : UInt16

def relayRule (i : InstanceRef) (network : NetworkEnv) : UfwRule where
  body := .allow network.relayPort .udp
  owner := .tagged i .relay

def wsRule (i : InstanceRef) (network : NetworkEnv) : UfwRule where
  body := .allow network.wsPort .tcp
  owner := .tagged i .ws

def portRules (i : InstanceRef) (network : NetworkEnv) : List UfwRule :=
  [relayRule i network, wsRule i network]

def instanceNeedle (i : InstanceRef) : String :=
  "snm:" ++ i.hostName ++ "/" ++ i.id ++ ":"

def clusterNeedle (i : InstanceRef) : String :=
  ufwComment i.hostName i.id "cluster"

def removeNeedle (i : InstanceRef) : String :=
  "snm:" ++ i.hostName ++ "/" ++ i.id

def ufwEnsureScript (i : InstanceRef) (network : NetworkEnv) : List UfwCommand :=
  .deleteTagged (instanceNeedle i) (some (clusterNeedle i)) ::
    (portRules i network).map .allow

def ufwRemoveScript (i : InstanceRef) : List UfwCommand :=
  [.deleteTagged (removeNeedle i) none]

def clusterRule (i : InstanceRef) (clusterPort : UInt16) (ip : String) : UfwRule where
  body := .allowFrom ip clusterPort .udp
  owner := .tagged i (.cluster ip)

def clusterUfwScript (i : InstanceRef) (clusterPort : UInt16) (peerIps : List String) :
    List UfwCommand :=
  if peerIps = [] then []
  else
    .deleteTagged (clusterNeedle i) none ::
      peerIps.map fun ip => .allow (clusterRule i clusterPort ip)

/-! ## The peers of a member -/

/-- A cluster member as the inventory resolves it, with the key its node reports.
The inventory accepts no empty public host. -/
structure ResolvedMember where
  ref : InstanceRef
  publicHost : String
  relayPort : UInt16
  clusterPort : UInt16
  identityPub : String
  publicHost_ne : publicHost ≠ ""

/-- What the roster says of a member. -/
structure ClusterMemberEntry where
  identityPub : String
  relayAddr : String

def ResolvedMember.entry (m : ResolvedMember) : ClusterMemberEntry where
  identityPub := m.identityPub
  relayAddr := m.publicHost ++ ":" ++ toString m.relayPort.toNat

/-- The address up to its first colon. -/
def hostOfAddr (addr : String) : String :=
  String.ofList (addr.toList.takeWhile (· ≠ ':'))

/-- Appends what is not there yet. -/
def pushNew (seen : List String) (ip : String) : List String :=
  if ip ≠ "" ∧ ip ∉ seen then seen ++ [ip] else seen

/-- The addresses of the members that have another key. -/
def peerIps (roster : List ClusterMemberEntry) (member : ClusterMemberEntry) : List String :=
  ((roster.filter fun m => m.identityPub ≠ member.identityPub).map
    fun m => hostOfAddr m.relayAddr).foldl pushNew []

/-! ## Events -/

inductive FirewallEvent where
  | install (i : InstanceRef) (network : NetworkEnv)
  | uninstall (i : InstanceRef)
  /-- The part of a sync of the cluster that runs on the machine of one member. -/
  | clusterSync (member : ResolvedMember) (members : List ResolvedMember)

def FirewallEvent.script : FirewallEvent → List UfwCommand
  | .install i network => ufwEnsureScript i network
  | .uninstall i => ufwRemoveScript i
  | .clusterSync member members =>
    clusterUfwScript member.ref member.clusterPort
      (peerIps (members.map (·.entry)) member.entry)

def Ufw.step (ufw : Ufw) (e : FirewallEvent) : Ufw :=
  runScript ufw e.script

end ConquerD.Manager
