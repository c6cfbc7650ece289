import ConquerD.Manager.InventoryToml

/-!
# The inventory file read back

Every table is read back as it was written, except that of a disabled feature: what is
left out of it says that the feature is disabled, and reads as enabled. An inventory that
validates is loaded as it was saved exactly when all its features are enabled.
-/

namespace ConquerD.Manager

open Toml

/-! ## Tables -/

namespace Toml

variable {α : Type} {fields : List (String × Option Toml)} {k : String} {read : Toml → Option α}

/-- The names are written once each. -/
def Distinct (fields : List (String × Option Toml)) : Prop :=
  (fields.map Prod.fst).Nodup

instance (fields : List (String × Option Toml)) : Decidable (Distinct fields) :=
  inferInstanceAs (Decidable (List.Nodup _))

theorem lookup_cons_ne {β : Type} {k' : String} {v : β} {l : List (String × β)} (h : k ≠ k') :
    ((k', v) :: l).lookup k = l.lookup k := by
  have hne : (k == k') = false := by simpa using h
  rw [List.lookup_cons, hne]

theorem lookup_present_of_notMem : ∀ {fields : List (String × Option Toml)},
    k ∉ fields.map Prod.fst → (present fields).lookup k = none
  | [], _ => rfl
  | (k', v) :: fields, h => by
    rw [List.map_cons, List.mem_cons, not_or] at h
    have ih := lookup_present_of_notMem h.2
    cases v with
    | none => exact ih
    | some v => exact (lookup_cons_ne h.1).trans ih

theorem lookup_present : ∀ {fields : List (String × Option Toml)}, Distinct fields →
    (present fields).lookup k = (fields.lookup k).join
  | [], _ => rfl
  | (k', v) :: fields, h => by
    have hrest : Distinct fields := (List.nodup_cons.mp h).2
    have hfirst : k' ∉ fields.map Prod.fst := (List.nodup_cons.mp h).1
    by_cases hk : k = k'
    · subst hk
      rw [List.lookup_cons_self]
      cases v with
      | none =>
        have hnone : (present fields).lookup k = none := lookup_present_of_notMem hfirst
        exact hnone
      | some v => exact List.lookup_cons_self
    · rw [lookup_cons_ne hk, ← lookup_present hrest]
      cases v with
      | none => rfl
      | some v => exact lookup_cons_ne hk

theorem required_present (h : Distinct fields) {v : Toml} {a : α}
    (hat : fields.lookup k = some (some v)) (hread : read v = some a) :
    required (present fields) k read = some a := by
  unfold required
  rw [lookup_present h, hat]
  exact hread

theorem defaulted_present (h : Distinct fields) {v : Toml} {a d : α}
    (hat : fields.lookup k = some (some v)) (hread : read v = some a) :
    defaulted (present fields) k read d = some a := by
  unfold defaulted
  rw [lookup_present h, hat]
  exact hread

theorem defaulted_absent (h : Distinct fields) {d : α} (hat : fields.lookup k = some none) :
    defaulted (present fields) k read d = some d := by
  unfold defaulted
  rw [lookup_present h, hat]
  rfl

theorem optional_present (h : Distinct fields) {o : Option α} {write : α → Toml}
    (hat : fields.lookup k = some (o.map write)) (hread : ∀ a, read (write a) = some a) :
    optional (present fields) k read = some o := by
  unfold optional
  rw [lookup_present h, hat]
  cases o with
  | none => rfl
  | some a =>
    simp only [Option.map_some, Option.join_some, hread]

theorem optional_value (h : Distinct fields) {o : Option Toml}
    (hat : fields.lookup k = some o) : optional (present fields) k some = some o := by
  unfold optional
  rw [lookup_present h, hat]
  cases o with
  | none => rfl
  | some v => rfl

theorem arr?_map {write : α → Toml} {g : α → α} : ∀ {items : List α},
    (∀ a ∈ items, read (write a) = some (g a)) →
      arr? read (.arr (items.map write)) = some (items.map g)
  | [], _ => rfl
  | a :: items, h => by
    have ih := arr?_map fun b hb => h b (List.mem_cons_of_mem _ hb)
    simp only [arr?] at ih ⊢
    rw [List.map_cons, List.mapM_cons, h a List.mem_cons_self, ih]
    rfl

theorem arr?_map_self {write : α → Toml} {items : List α}
    (h : ∀ a ∈ items, read (write a) = some a) :
    arr? read (.arr (items.map write)) = some items := by
  have hread := @arr?_map _ read write id items h
  rwa [List.map_id] at hread

theorem u16?_u16 (n : UInt16) : u16? (u16 n) = some n := by
  have hlt := n.toNat_lt
  have hrange : (0 : Int) ≤ n.toNat ∧ (n.toNat : Int) < 65536 := by omega
  unfold u16
  simp only [u16?, if_pos hrange, Int.toNat_natCast, UInt16.ofNat_toNat]

theorem required_str (h : Distinct fields) {a : String}
    (hat : fields.lookup k = some (some (.str a))) :
    required (present fields) k str? = some a :=
  required_present h hat rfl

theorem defaulted_str (h : Distinct fields) {a d : String}
    (hat : fields.lookup k = some (some (.str a))) :
    defaulted (present fields) k str? d = some a :=
  defaulted_present h hat rfl

theorem optional_str (h : Distinct fields) {o : Option String}
    (hat : fields.lookup k = some (o.map .str)) : optional (present fields) k str? = some o :=
  optional_present h hat fun _ => rfl

theorem optional_bool (h : Distinct fields) {o : Option Bool}
    (hat : fields.lookup k = some (o.map .bool)) : optional (present fields) k bool? = some o :=
  optional_present h hat fun _ => rfl

theorem optional_u16 (h : Distinct fields) {o : Option UInt16}
    (hat : fields.lookup k = some (o.map u16)) : optional (present fields) k u16? = some o :=
  optional_present h hat u16?_u16

end Toml

/-! ## Features -/

namespace FeatureSpec

/-- The feature as it is read back: the flag that is written when it is true is true when
it is absent. -/
def reread (f : FeatureSpec) : FeatureSpec :=
  { f with enabled := true }

theorem fromToml_toToml (f : FeatureSpec) : fromToml f.toToml = some f.reread := by
  obtain ⟨id, enabled, params, cdylib⟩ := f
  unfold toToml
  by_cases hplain : params.isNone ∧ cdylib.isNone ∧ enabled
  · rw [if_pos hplain]
    obtain ⟨hparams, hcdylib, -⟩ := hplain
    rw [Option.isNone_iff_eq_none] at hparams hcdylib
    subst hparams
    subst hcdylib
    rfl
  · rw [if_neg hplain]
    have h : Distinct (fields ⟨id, enabled, params, cdylib⟩) := by simp [Distinct, fields]
    have henabled : defaulted (present (fields ⟨id, enabled, params, cdylib⟩)) "enabled" bool? true =
        some true := by
      cases enabled with
      | true => exact defaulted_present h rfl rfl
      | false => exact defaulted_absent h rfl
    unfold fromToml fromFields
    simp only
    rw [required_str (k := "id") h rfl, henabled, optional_value (k := "params") h rfl,
      optional_str (k := "cdylib_manifest") h rfl]
    rfl

theorem reread_eq_iff (f : FeatureSpec) : f.reread = f ↔ f.enabled = true := by
  obtain ⟨id, enabled, params, cdylib⟩ := f
  simp [reread, eq_comm]

end FeatureSpec

/-! ## Records -/

def AllEnabled (features : List FeatureSpec) : Prop :=
  ∀ f ∈ features, f.enabled = true

instance (features : List FeatureSpec) : Decidable (AllEnabled features) :=
  inferInstanceAs (Decidable (∀ f ∈ features, _))

theorem map_eq_self_iff {α : Type} {g : α → α} {l : List α} :
    l.map g = l ↔ ∀ a ∈ l, g a = a := by
  constructor
  · intro h a ha
    exact List.map_inj_left.mp (h.trans (List.map_id l).symm) a ha
  · intro h
    exact (List.map_inj_left.mpr h).trans (List.map_id l)

namespace Instance

def reread (x : Instance) : Instance :=
  { x with features := x.features.map FeatureSpec.reread }

theorem fromFields_fields (x : Instance) : fromFields (present x.fields) = some x.reread := by
  have h : Distinct x.fields := by simp [Distinct, fields]
  have hfeatures := arr?_map fun f (_ : f ∈ x.features) => f.fromToml_toToml
  unfold fromFields
  rw [required_str (k := "id") h rfl, required_str (k := "public_host") h rfl,
    optional_u16 (k := "relay_port") h rfl, optional_u16 (k := "ws_port") h rfl,
    optional_str (k := "listen_bind") h rfl, optional_str (k := "access_mode") h rfl,
    optional_str (k := "identity_file") h rfl, optional_bool (k := "allow_public_rooms") h rfl,
    optional_bool (k := "allow_private_rooms") h rfl, optional_u16 (k := "cluster_port") h rfl,
    defaulted_present (k := "features") h rfl hfeatures]
  rfl

theorem reread_eq_iff (x : Instance) : x.reread = x ↔ AllEnabled x.features := by
  have hlist : x.reread = x ↔ x.features.map FeatureSpec.reread = x.features :=
    ⟨fun h => congrArg Instance.features h, fun h => by simp only [reread, h]⟩
  rw [hlist, map_eq_self_iff]
  exact forall₂_congr fun f _ => f.reread_eq_iff

end Instance

namespace Host

def reread (x : Host) : Host :=
  { x with instances := x.instances.map Instance.reread }

theorem fromFields_fields (x : Host) : fromFields (present x.fields) = some x.reread := by
  have h : Distinct x.fields := by simp [Distinct, fields]
  have hinstances : arr? (table? Instance.fromFields) (.arr (x.instances.map Instance.toToml)) =
      some (x.instances.map Instance.reread) :=
    arr?_map fun inst _ => inst.fromFields_fields
  unfold fromFields
  rw [required_str (k := "name") h rfl, required_str (k := "ssh") h rfl,
    optional_str (k := "arch") h rfl, defaulted_present (k := "instance") h rfl hinstances]
  rfl

theorem reread_eq_iff (x : Host) :
    x.reread = x ↔ ∀ inst ∈ x.instances, AllEnabled inst.features := by
  have hlist : x.reread = x ↔ x.instances.map Instance.reread = x.instances :=
    ⟨fun h => congrArg Host.instances h, fun h => by simp only [reread, h]⟩
  rw [hlist, map_eq_self_iff]
  exact forall₂_congr fun inst _ => inst.reread_eq_iff

end Host

theorem ClusterDef.fromFields_fields (x : ClusterDef) :
    fromFields (present x.fields) = some x := by
  have h : Distinct x.fields := by simp [Distinct, fields]
  have hmembers : arr? str? (.arr (x.members.map .str)) = some x.members :=
    arr?_map_self fun _ _ => rfl
  unfold fromFields
  rw [required_str (k := "id") h rfl, required_present (k := "members") h rfl hmembers,
    optional_u16 (k := "cluster_port") h rfl]
  rfl

theorem FirewallMode.fromToml_text (m : FirewallMode) : fromToml (.str m.text) = some m := by
  cases m <;> rfl

theorem PrivilegeMode.fromToml_text (m : PrivilegeMode) : fromToml (.str m.text) = some m := by
  cases m <;> rfl

theorem SupernodeDefaults.fromFields_fields (x : SupernodeDefaults) :
    fromFields (present x.fields) = some x := by
  have h : Distinct x.fields := by simp [Distinct, fields]
  unfold fromFields
  rw [defaulted_str (k := "listen_bind") h rfl, defaulted_str (k := "identity_file") h rfl,
    optional_bool (k := "allow_public_rooms") h rfl,
    optional_bool (k := "allow_private_rooms") h rfl]
  rfl

theorem Defaults.fromFields_fields (x : Defaults) : fromFields (present x.fields) = some x := by
  have h : Distinct x.fields := by simp [Distinct, fields]
  have hsupernode : table? SupernodeDefaults.fromFields x.supernode.toToml = some x.supernode :=
    x.supernode.fromFields_fields
  unfold fromFields
  rw [defaulted_str (k := "version") h rfl, defaulted_str (k := "access_mode") h rfl,
    defaulted_str (k := "user") h rfl, defaulted_str (k := "install_root") h rfl,
    defaulted_str (k := "data_root") h rfl, defaulted_str (k := "release_repo") h rfl,
    defaulted_present (k := "privilege") h rfl (PrivilegeMode.fromToml_text _),
    defaulted_present (k := "firewall") h rfl (FirewallMode.fromToml_text _),
    optional_str (k := "binary_path") h rfl, optional_str (k := "build_source") h rfl,
    optional_str (k := "build_target") h rfl, optional_str (k := "build_tool") h rfl,
    defaulted_present (k := "supernode") h rfl hsupernode]
  rfl

/-! ## The inventory -/

theorem checkInstances_reread (hostName : String) : ∀ (instances : List Instance)
    (seen : List String), checkInstances hostName seen (instances.map Instance.reread) =
      checkInstances hostName seen instances
  | [], _ => rfl
  | inst :: rest, seen => by
    have ih := checkInstances_reread hostName rest (inst.id :: seen)
    simp only [List.map_cons, checkInstances, Instance.reread] at ih ⊢
    rw [ih]

theorem checkHosts_reread : ∀ (hosts : List Host),
    checkHosts (hosts.map Host.reread) = checkHosts hosts
  | [] => rfl
  | host :: rest => by
    have ih := checkHosts_reread rest
    have hinstances := checkInstances_reread host.name host.instances []
    simp only [List.map_cons, checkHosts, Host.reread, List.map_eq_nil_iff] at ih ⊢
    rw [hinstances, ih]

namespace Inventory

/-- Every feature of every instance is enabled. -/
def FeaturesOn (inv : Inventory) : Prop :=
  ∀ host ∈ inv.host, ∀ inst ∈ host.instances, AllEnabled inst.features

instance (inv : Inventory) : Decidable inv.FeaturesOn :=
  inferInstanceAs (Decidable (∀ host ∈ inv.host, ∀ inst ∈ host.instances,
    AllEnabled inst.features))

def reread (inv : Inventory) : Inventory :=
  { inv with host := inv.host.map Host.reread }

theorem validate_reread (inv : Inventory) : inv.reread.validate = inv.validate := by
  simp only [validate, reread, checkHosts_reread]

theorem reread_eq_iff (inv : Inventory) : inv.reread = inv ↔ inv.FeaturesOn := by
  have hlist : inv.reread = inv ↔ inv.host.map Host.reread = inv.host :=
    ⟨fun h => congrArg Inventory.host h, fun h => by simp only [reread, h]⟩
  rw [hlist, map_eq_self_iff]
  exact forall₂_congr fun host _ => host.reread_eq_iff

theorem fromFields_fields (inv : Inventory) :
    fromFields (present inv.fields) = some inv.reread := by
  have h : Distinct inv.fields := by simp [Distinct, fields]
  have hdefaults : table? Defaults.fromFields inv.defaults.toToml = some inv.defaults :=
    inv.defaults.fromFields_fields
  have hhosts : arr? (table? Host.fromFields) (.arr (inv.host.map Host.toToml)) =
      some (inv.host.map Host.reread) :=
    arr?_map fun host _ => host.fromFields_fields
  have hclusters : defaulted (present inv.fields) "cluster"
      (arr? (table? ClusterDef.fromFields)) [] = some inv.clusters := by
    cases hempty : inv.clusters.isEmpty with
    | true =>
      have habsent : inv.fields.lookup "cluster" = some none := by
        simp [fields, List.lookup_cons, hempty]
      rw [defaulted_absent h habsent, List.isEmpty_iff.mp hempty]
    | false =>
      have hat : inv.fields.lookup "cluster" =
          some (some (.arr (inv.clusters.map ClusterDef.toToml))) := by
        simp [fields, List.lookup_cons, hempty]
      exact defaulted_present h hat (arr?_map_self fun c _ => c.fromFields_fields)
  unfold fromFields
  rw [defaulted_present (k := "defaults") h rfl hdefaults,
    defaulted_present (k := "host") h rfl hhosts, hclusters]
  rfl

variable {τ : Type} (L : TomlLibrary τ)

theorem load_save (inv : Inventory) :
    load L (inv.save L) =
      match inv.validate with
      | .error e => .error (.invalid e)
      | .ok () => .ok inv.reread := by
  have hread : (L.fromStr (inv.save L)).bind (table? fromFields) = some inv.reread := by
    unfold save
    rw [L.fromStr_toStringPretty]
    exact inv.fromFields_fields
  unfold load
  rw [hread]
  cases hvalid : inv.validate with
  | error e => simp only [validate_reread, hvalid]
  | ok u => simp only [validate_reread, hvalid]

theorem load_save_iff (inv : Inventory) :
    load L (inv.save L) = .ok inv ↔ inv.validate = .ok () ∧ inv.FeaturesOn := by
  rw [load_save, ← reread_eq_iff]
  cases hvalid : inv.validate with
  | error e => simp
  | ok u => simp

end Inventory

end ConquerD.Manager
