import ConquerD.Manager.Inventory

/-!
# Manager: the inventory file

How the inventory is written as a TOML value and read back, field by field as the
attributes of its types say, and the feature lists with their own reader and writer.
The text of a TOML value is the library's business.
-/

namespace ConquerD.Manager

/-! ## Tables -/

namespace Toml

def present (fields : List (String × Option Toml)) : List (String × Toml) :=
  fields.filterMap fun e => e.2.map fun v => (e.1, v)

def str? : Toml → Option String
  | .str s => some s
  | _ => none

def bool? : Toml → Option Bool
  | .bool b => some b
  | _ => none

def u16? : Toml → Option UInt16
  | .int n => if 0 ≤ n ∧ n < 65536 then some (UInt16.ofNat n.toNat) else none
  | _ => none

def arr? {α : Type} (read : Toml → Option α) : Toml → Option (List α)
  | .arr items => items.mapM read
  | _ => none

def table? {α : Type} (read : List (String × Toml) → Option α) : Toml → Option α
  | .table fields => read fields
  | _ => none

def u16 (n : UInt16) : Toml :=
  .int n.toNat

variable {α : Type} (fields : List (String × Toml)) (key : String) (read : Toml → Option α)

/-- A field without a default. -/
def required : Option α :=
  (fields.lookup key).bind read

/-- A field with a default for when it is absent. -/
def defaulted (default : α) : Option α :=
  match fields.lookup key with
  | none => some default
  | some v => read v

/-- A field that may be absent. -/
def optional : Option (Option α) :=
  match fields.lookup key with
  | none => some none
  | some v => (read v).map some

end Toml

open Toml

/-! ## Features -/

namespace FeatureSpec

/-- `enabled` is left out when it is false. -/
def fields (f : FeatureSpec) : List (String × Option Toml) :=
  [("id", some (.str f.id)),
    ("enabled", if !f.enabled then none else some (.bool f.enabled)),
    ("params", f.params),
    ("cdylib_manifest", f.cdylibManifest.map .str)]

/-- A feature that is its id alone is written as that. -/
def toToml (f : FeatureSpec) : Toml :=
  if f.params.isNone ∧ f.cdylibManifest.isNone ∧ f.enabled then .str f.id
  else .table (present f.fields)

def enabledSpec (id : String) : FeatureSpec where
  id := id
  enabled := true
  params := none
  cdylibManifest := none

/-- `enabled` is true when it is absent. -/
def fromFields (fields : List (String × Toml)) : Option FeatureSpec := do
  some {
    id := ← required fields "id" str?
    enabled := ← defaulted fields "enabled" bool? true
    params := ← optional fields "params" some
    cdylibManifest := ← optional fields "cdylib_manifest" str? }

def fromToml : Toml → Option FeatureSpec
  | .str id => some (enabledSpec id)
  | .table fields => fromFields fields
  | _ => none

end FeatureSpec

/-! ## Instances, hosts, clusters -/

namespace Instance

def fields (x : Instance) : List (String × Option Toml) :=
  [("id", some (.str x.id)),
    ("public_host", some (.str x.publicHost)),
    ("relay_port", x.relayPort.map u16),
    ("ws_port", x.wsPort.map u16),
    ("listen_bind", x.listenBind.map .str),
    ("access_mode", x.accessMode.map .str),
    ("identity_file", x.identityFile.map .str),
    ("allow_public_rooms", x.allowPublicRooms.map .bool),
    ("allow_private_rooms", x.allowPrivateRooms.map .bool),
    ("cluster_port", x.clusterPort.map u16),
    ("features", some (.arr (x.features.map FeatureSpec.toToml)))]

def toToml (x : Instance) : Toml :=
  .table (present x.fields)

def fromFields (fields : List (String × Toml)) : Option Instance := do
  some {
    id := ← required fields "id" str?
    publicHost := ← required fields "public_host" str?
    relayPort := ← optional fields "relay_port" u16?
    wsPort := ← optional fields "ws_port" u16?
    listenBind := ← optional fields "listen_bind" str?
    accessMode := ← optional fields "access_mode" str?
    identityFile := ← optional fields "identity_file" str?
    allowPublicRooms := ← optional fields "allow_public_rooms" bool?
    allowPrivateRooms := ← optional fields "allow_private_rooms" bool?
    clusterPort := ← optional fields "cluster_port" u16?
    features := ← defaulted fields "features" (arr? FeatureSpec.fromToml) [] }

end Instance

namespace Host

def fields (h : Host) : List (String × Option Toml) :=
  [("name", some (.str h.name)),
    ("ssh", some (.str h.ssh)),
    ("arch", h.arch.map .str),
    ("instance", some (.arr (h.instances.map Instance.toToml)))]

def toToml (h : Host) : Toml :=
  .table (present h.fields)

def fromFields (fields : List (String × Toml)) : Option Host := do
  some {
    name := ← required fields "name" str?
    ssh := ← required fields "ssh" str?
    arch := ← optional fields "arch" str?
    instances := ← defaulted fields "instance" (arr? (table? Instance.fromFields)) [] }

end Host

namespace ClusterDef

def fields (c : ClusterDef) : List (String × Option Toml) :=
  [("id", some (.str c.id)),
    ("members", some (.arr (c.members.map .str))),
    ("cluster_port", c.clusterPort.map u16)]

def toToml (c : ClusterDef) : Toml :=
  .table (present c.fields)

def fromFields (fields : List (String × Toml)) : Option ClusterDef := do
  some {
    id := ← required fields "id" str?
    members := ← required fields "members" (arr? str?)
    clusterPort := ← optional fields "cluster_port" u16? }

end ClusterDef

/-! ## Defaults -/

def FirewallMode.text : FirewallMode → String
  | .off => "off"
  | .ufw => "ufw"
  | .report => "report"

def FirewallMode.fromToml : Toml → Option FirewallMode
  | .str "off" => some .off
  | .str "ufw" => some .ufw
  | .str "report" => some .report
  | _ => none

def PrivilegeMode.text : PrivilegeMode → String
  | .sudo => "sudo"
  | .rootlessSystemd => "rootless-systemd"
  | .root => "root"

def PrivilegeMode.fromToml : Toml → Option PrivilegeMode
  | .str "sudo" => some .sudo
  | .str "rootless-systemd" => some .rootlessSystemd
  | .str "root" => some .root
  | _ => none

namespace SupernodeDefaults

def default : SupernodeDefaults where
  listenBind := "0.0.0.0"
  identityFile := "identity.json"
  allowPublicRooms := some false
  allowPrivateRooms := some true

def fields (d : SupernodeDefaults) : List (String × Option Toml) :=
  [("listen_bind", some (.str d.listenBind)),
    ("identity_file", some (.str d.identityFile)),
    ("allow_public_rooms", d.allowPublicRooms.map .bool),
    ("allow_private_rooms", d.allowPrivateRooms.map .bool)]

def toToml (d : SupernodeDefaults) : Toml :=
  .table (present d.fields)

def fromFields (fields : List (String × Toml)) : Option SupernodeDefaults := do
  some {
    listenBind := ← defaulted fields "listen_bind" str? "0.0.0.0"
    identityFile := ← defaulted fields "identity_file" str? "identity.json"
    allowPublicRooms := ← optional fields "allow_public_rooms" bool?
    allowPrivateRooms := ← optional fields "allow_private_rooms" bool? }

end SupernodeDefaults

namespace Defaults

def default : Defaults where
  version := "nightly"
  accessMode := "open"
  user := "conquerd"
  installRoot := "/opt/conquerd"
  dataRoot := "/var/lib/conquerd"
  releaseRepo := "ConquerD/ConquerD"
  privilege := .sudo
  firewall := .ufw
  binaryPath := none
  buildSource := none
  buildTarget := none
  buildTool := none
  supernode := .default

def fields (d : Defaults) : List (String × Option Toml) :=
  [("version", some (.str d.version)),
    ("access_mode", some (.str d.accessMode)),
    ("user", some (.str d.user)),
    ("install_root", some (.str d.installRoot)),
    ("data_root", some (.str d.dataRoot)),
    ("release_repo", some (.str d.releaseRepo)),
    ("privilege", some (.str d.privilege.text)),
    ("firewall", some (.str d.firewall.text)),
    ("binary_path", d.binaryPath.map .str),
    ("build_source", d.buildSource.map .str),
    ("build_target", d.buildTarget.map .str),
    ("build_tool", d.buildTool.map .str),
    ("supernode", some d.supernode.toToml)]

def toToml (d : Defaults) : Toml :=
  .table (present d.fields)

def fromFields (fields : List (String × Toml)) : Option Defaults := do
  some {
    version := ← defaulted fields "version" str? default.version
    accessMode := ← defaulted fields "access_mode" str? default.accessMode
    user := ← defaulted fields "user" str? default.user
    installRoot := ← defaulted fields "install_root" str? default.installRoot
    dataRoot := ← defaulted fields "data_root" str? default.dataRoot
    releaseRepo := ← defaulted fields "release_repo" str? default.releaseRepo
    privilege := ← defaulted fields "privilege" PrivilegeMode.fromToml default.privilege
    firewall := ← defaulted fields "firewall" FirewallMode.fromToml default.firewall
    binaryPath := ← optional fields "binary_path" str?
    buildSource := ← optional fields "build_source" str?
    buildTarget := ← optional fields "build_target" str?
    buildTool := ← optional fields "build_tool" str?
    supernode := ← defaulted fields "supernode" (table? SupernodeDefaults.fromFields) .default }

end Defaults

/-! ## The file -/

/-- What a TOML library promises: it reads the value it wrote. -/
structure TomlLibrary (τ : Type) where
  toStringPretty : Toml → τ
  fromStr : τ → Option Toml
  fromStr_toStringPretty : ∀ v, fromStr (toStringPretty v) = some v

/-- The library that leaves values as they are. -/
def TomlLibrary.plain : TomlLibrary Toml where
  toStringPretty := id
  fromStr := some
  fromStr_toStringPretty _ := rfl

inductive LoadError where
  | parse
  | invalid (e : InventoryError)

namespace Inventory

/-- Clusters are left out when there are none. -/
def fields (inv : Inventory) : List (String × Option Toml) :=
  [("defaults", some inv.defaults.toToml),
    ("host", some (.arr (inv.host.map Host.toToml))),
    ("cluster",
      if inv.clusters.isEmpty then none else some (.arr (inv.clusters.map ClusterDef.toToml)))]

def toToml (inv : Inventory) : Toml :=
  .table (present inv.fields)

def fromFields (fields : List (String × Toml)) : Option Inventory := do
  some {
    defaults := ← defaulted fields "defaults" (table? Defaults.fromFields) .default
    host := ← defaulted fields "host" (arr? (table? Host.fromFields)) []
    clusters := ← defaulted fields "cluster" (arr? (table? ClusterDef.fromFields)) [] }

variable {τ : Type} (L : TomlLibrary τ)

def save (inv : Inventory) : τ :=
  L.toStringPretty inv.toToml

def load (raw : τ) : Except LoadError Inventory :=
  match (L.fromStr raw).bind (table? fromFields) with
  | none => .error .parse
  | some inv =>
    match inv.validate with
    | .error e => .error (.invalid e)
    | .ok () => .ok inv

end Inventory

end ConquerD.Manager
