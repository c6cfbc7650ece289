import ConquerD.Lib.FirstMatch
import ConquerD.Lib.Run
import ConquerD.Manager.Verify.InventoryFile
import Mathlib.Data.List.Nodup

/-!
# Edits of the inventory

An edit that names something the inventory does not have returns before it changes
anything; any other has changed the inventory by the time it is validated. What the edits
then do is told by three relations, one for each way the list of hosts changes. From them
follows when an edit is atomic, leaves other instances alone and keeps the keys of
clusters.
-/

namespace ConquerD.Manager

open Lib.FirstMatch Lib.Run

/-! ## Validity -/

structure ValidHost (h : Host) : Prop where
  name : blank h.name = false
  ssh : blank h.ssh = false
  nonempty : h.instances ≠ []
  sound : ∀ x ∈ h.instances, blank x.id = false ∧ blank x.publicHost = false
  distinct : (h.instances.map (·.id)).Nodup

structure ValidCluster (c : ClusterDef) : Prop where
  id : blank c.id = false
  nonempty : c.members ≠ []
  keys : ∀ key ∈ c.members, (splitOnce '/' key).isNone = false

theorem checkInstances_ok_iff (hostName : String) : ∀ (instances : List Instance)
    (seen : List String), checkInstances hostName seen instances = .ok () ↔
      (∀ x ∈ instances, blank x.id = false ∧ blank x.publicHost = false) ∧
        (instances.map (·.id)).Nodup ∧ ∀ x ∈ instances, x.id ∉ seen
  | [], seen => by simp [checkInstances]
  | inst :: rest, seen => by
    have ih := checkInstances_ok_iff hostName rest (inst.id :: seen)
    unfold checkInstances
    split
    · rename_i hblank
      simp [hblank]
    · rename_i hid
      split
      · rename_i hblank
        simp [hblank]
      · rename_i hhost
        split
        · rename_i hseen
          simp [hseen]
        · rename_i hnew
          rw [ih]
          simp only [List.mem_cons, not_or, List.map_cons, List.nodup_cons, List.mem_map,
            not_exists, not_and, forall_eq_or_imp]
          have hid : blank inst.id = false := by simpa using hid
          have hhost : blank inst.publicHost = false := by simpa using hhost
          constructor
          · rintro ⟨hsound, hnodup, hseen⟩
            exact ⟨⟨⟨hid, hhost⟩, hsound⟩, ⟨fun x hx => (hseen x hx).1, hnodup⟩, hnew,
              fun x hx => (hseen x hx).2⟩
          · rintro ⟨⟨-, hsound⟩, ⟨hfirst, hnodup⟩, -, hseen⟩
            exact ⟨hsound, hnodup, fun x hx => ⟨hfirst x hx, hseen x hx⟩⟩

theorem checkHosts_ok_iff : ∀ (hosts : List Host),
    checkHosts hosts = .ok () ↔ ∀ h ∈ hosts, ValidHost h
  | [] => by simp [checkHosts]
  | host :: rest => by
    have ih := checkHosts_ok_iff rest
    have hinstances := checkInstances_ok_iff host.name host.instances []
    rw [List.forall_mem_cons]
    unfold checkHosts
    split
    · rename_i hblank
      exact ⟨fun h => (by cases h), fun h => absurd hblank (by simp [h.1.name])⟩
    · rename_i hname
      split
      · rename_i hblank
        exact ⟨fun h => (by cases h), fun h => absurd hblank (by simp [h.1.ssh])⟩
      · rename_i hssh
        split
        · rename_i hempty
          exact ⟨fun h => (by cases h), fun h => absurd hempty h.1.nonempty⟩
        · rename_i hempty
          split
          · rename_i e herror
            refine ⟨fun h => (by cases h), fun h => ?_⟩
            have hok := hinstances.mpr ⟨h.1.sound, h.1.distinct, fun _ _ => List.not_mem_nil⟩
            cases herror.symm.trans hok
          · rename_i hok
            obtain ⟨hsound, hdistinct, -⟩ := hinstances.mp hok
            rw [ih]
            refine ⟨fun h => ⟨⟨?_, ?_, hempty, hsound, hdistinct⟩, h⟩, And.right⟩
            · simpa using hname
            · simpa using hssh

theorem checkMembers_ok_iff (clusterId : String) : ∀ (members : List String),
    checkMembers clusterId members = .ok () ↔ ∀ key ∈ members, (splitOnce '/' key).isNone = false
  | [] => by simp [checkMembers]
  | key :: rest => by
    have ih := checkMembers_ok_iff clusterId rest
    rw [List.forall_mem_cons]
    unfold checkMembers
    split
    · rename_i hnone
      simp [hnone]
    · rename_i hsome
      rw [ih]
      simp [hsome]

theorem checkClusters_ok_iff : ∀ (clusters : List ClusterDef),
    checkClusters clusters = .ok () ↔ ∀ c ∈ clusters, ValidCluster c
  | [] => by simp [checkClusters]
  | cluster :: rest => by
    have ih := checkClusters_ok_iff rest
    have hmembers := checkMembers_ok_iff cluster.id cluster.members
    rw [List.forall_mem_cons]
    unfold checkClusters
    split
    · rename_i hblank
      exact ⟨(fun h => nomatch h), fun h => absurd hblank (by simp [h.1.id])⟩
    · rename_i hid
      split
      · rename_i hempty
        exact ⟨(fun h => nomatch h), fun h => absurd hempty h.1.nonempty⟩
      · rename_i hempty
        split
        · rename_i e herror
          refine ⟨(fun h => nomatch h), fun h => ?_⟩
          cases herror.symm.trans (hmembers.mpr h.1.keys)
        · rename_i hok
          rw [ih]
          refine ⟨fun h => ⟨⟨?_, hempty, hmembers.mp hok⟩, h⟩, And.right⟩
          simpa using hid

namespace Inventory

structure Valid (inv : Inventory) : Prop where
  hosts : ∀ h ∈ inv.host, ValidHost h
  clusters : ∀ c ∈ inv.clusters, ValidCluster c

theorem validate_ok_iff (inv : Inventory) : inv.validate = .ok () ↔ inv.Valid := by
  have hhosts := checkHosts_ok_iff inv.host
  have hclusters := checkClusters_ok_iff inv.clusters
  unfold validate
  split
  · rename_i e herror
    refine ⟨(fun h => nomatch h), fun h => ?_⟩
    cases herror.symm.trans (hhosts.mpr h.hosts)
  · rename_i hok
    exact ⟨fun h => ⟨hhosts.mp hok, hclusters.mp h⟩, fun h => hclusters.mpr h.clusters⟩

/-! ## How the list of hosts changes -/

variable {inv inv' : Inventory} {hostName ssh instId : String} {x : Instance}

abbrev Named (hostName : String) : Host → Bool :=
  fun h => h.name == hostName

abbrev WithId (instId : String) : Instance → Bool :=
  fun x => x.id == instId

/-- A push that is not turned down: the instance comes last, on its host or on a new one. -/
inductive Pushed (inv : Inventory) (hostName ssh : String) (x : Instance) : Inventory → Prop
  | onto {front host back} (hhost : FirstAt (Named hostName) inv.host front host back)
      (hssh : host.ssh = ssh) (hnew : ∀ y ∈ host.instances, WithId x.id y = false) :
      Pushed inv hostName ssh x
        { inv with host := front ++ { host with instances := host.instances ++ [x] } :: back }
  | new (hnone : ∀ h ∈ inv.host, Named hostName h = false) :
      Pushed inv hostName ssh x
        { inv with host := inv.host ++ [{ name := hostName, ssh := ssh, arch := none,
                                          instances := [x] }] }

/-- A host goes with its last instance. -/
def keptHost (host : Host) (instances : List Instance) : List Host :=
  if instances = [] then [] else [{ host with instances := instances }]

/-- A removal that finds its instance, which is `x`. -/
inductive Removed (inv : Inventory) (hostName instId : String) (x : Instance) : Inventory → Prop
  | mk {front host back left right}
      (hhost : FirstAt (Named hostName) inv.host front host back)
      (hinst : FirstAt (WithId instId) host.instances left x right) :
      Removed inv hostName instId x
        { inv with host := front ++ keptHost host (left ++ right) ++ back }

/-- An update in place of an instance `x` by `y`, on a host that has no other `y.id`. -/
inductive Rewritten (inv : Inventory) (hostName instId ssh : String) (x y : Instance) :
    Inventory → Prop
  | mk {front host back left right}
      (hhost : FirstAt (Named hostName) inv.host front host back)
      (hinst : FirstAt (WithId instId) host.instances left x right)
      (hid : y.id = instId ∨ ∀ z ∈ host.instances, WithId y.id z = false) :
      Rewritten inv hostName instId ssh x y
        { inv with
          host := front ++ { host with ssh := ssh, instances := left ++ y :: right } :: back }

/-- Nothing turns a push down: its host is new, or reached the same way and without the id. -/
def Pushable (inv : Inventory) (hostName ssh : String) (x : Instance) : Prop :=
  ∀ host ∈ inv.host.find? (Named hostName),
    host.ssh = ssh ∧ host.instances.any (WithId x.id) = false

instance (inv : Inventory) (hostName ssh : String) (x : Instance) :
    Decidable (inv.Pushable hostName ssh x) :=
  inferInstanceAs (Decidable (∀ host ∈ inv.host.find? (Named hostName), _))

theorem push_of_pushable (h : inv.Pushable hostName ssh x) :
    ∃ inv', Pushed inv hostName ssh x inv' ∧ inv.pushInstance hostName ssh x = validated inv' := by
  rcases firstAt_or_none (Named hostName) inv.host with ⟨front, host, back, hhost⟩ | hnone
  · obtain ⟨hssh, hany⟩ := h host hhost.find?
    refine ⟨_, .onto hhost hssh fun y hy => ?_, ?_⟩
    · simpa using List.any_eq_false.mp hany y hy
    · unfold pushInstance
      rw [hhost.findIdx?, hhost.find?]
      simp only
      rw [if_neg (by simp [hany]), if_neg (by simp [hssh]), hhost.set]
  · refine ⟨_, .new hnone, ?_⟩
    unfold pushInstance
    rw [findIdx?_of_none hnone, find?_of_none hnone]

theorem push_of_not_pushable (h : ¬ inv.Pushable hostName ssh x) :
    ∃ err, inv.pushInstance hostName ssh x = (inv, .error err) := by
  rcases firstAt_or_none (Named hostName) inv.host with ⟨front, host, back, hhost⟩ | hnone
  · unfold pushInstance
    rw [hhost.findIdx?, hhost.find?]
    simp only
    split
    · exact ⟨_, rfl⟩
    · rename_i hany
      split
      · exact ⟨_, rfl⟩
      · rename_i hssh
        refine absurd (fun host' hfind => ?_) h
        cases hhost.find?.symm.trans hfind
        exact ⟨by simpa using hssh, by simpa using hany⟩
  · refine absurd (fun host hfind => ?_) h
    cases (find?_of_none hnone).symm.trans hfind

theorem removed_host {front back : List Host} {host : Host} {left right : List Instance}
    (hhost : FirstAt (Named hostName) inv.host front host back) :
    (if left ++ right = [] then inv.host.eraseIdx front.length
      else inv.host.set front.length { host with instances := left ++ right }) =
      front ++ keptHost host (left ++ right) ++ back := by
  unfold keptHost
  split
  · rw [hhost.eraseIdx, List.append_nil]
  · rw [hhost.set, List.append_assoc, List.singleton_append]

theorem remove_of_found {front back : List Host} {host : Host} {left right : List Instance}
    (hhost : FirstAt (Named hostName) inv.host front host back)
    (hinst : FirstAt (WithId instId) host.instances left x right) :
    inv.removeInstance hostName instId =
      validated { inv with host := front ++ keptHost host (left ++ right) ++ back } := by
  unfold removeInstance
  rw [hhost.findIdx?, hhost.find?]
  simp only
  rw [hinst.findIdx?]
  simp only
  rw [hinst.eraseIdx, removed_host hhost]

theorem name_of_mem_keptHost {host b : Host} {instances : List Instance}
    (hb : b ∈ keptHost host instances) : b.name = host.name := by
  unfold keptHost at hb
  split at hb
  · cases hb
  · rw [List.mem_singleton.mp hb]

theorem Removed.find?_other (h : Removed inv hostName instId x inv') {other : String}
    (hother : other ≠ hostName) :
    inv'.host.find? (Named other) = inv.host.find? (Named other) := by
  cases h with
  | @mk front host back left right hhost hinst =>
    have hname : host.name = hostName := by simpa using hhost.holds
    refine find?_past ?_ (fun b hb => ?_) hhost.eq
    · simpa [hname] using Ne.symm hother
    · simpa [name_of_mem_keptHost hb, hname] using Ne.symm hother

theorem Removed.pushable (h : Removed inv hostName instId x inv') {other : String}
    (hother : other ≠ hostName) {y : Instance} (hpush : inv.Pushable other ssh y) :
    inv'.Pushable other ssh y := by
  unfold Pushable
  rw [h.find?_other hother]
  exact hpush

/-! ## Which inventories a file keeps -/

/-- A host that validates and has no disabled feature. -/
structure StorableHost (h : Host) : Prop extends ValidHost h where
  features : ∀ x ∈ h.instances, AllEnabled x.features

/-- An inventory that comes back from its file. -/
structure Storable (inv : Inventory) : Prop where
  hosts : ∀ h ∈ inv.host, StorableHost h
  clusters : ∀ c ∈ inv.clusters, ValidCluster c

theorem storable_iff (inv : Inventory) : inv.Storable ↔ inv.validate = .ok () ∧ inv.FeaturesOn := by
  rw [validate_ok_iff]
  constructor
  · intro h
    exact ⟨⟨fun host hmem => (h.hosts host hmem).toValidHost, h.clusters⟩,
      fun host hmem => (h.hosts host hmem).features⟩
  · rintro ⟨hvalid, hfeatures⟩
    exact ⟨fun host hmem => ⟨hvalid.hosts host hmem, hfeatures host hmem⟩, hvalid.clusters⟩

/-- What validation and the file ask of an instance at its place. -/
structure Fit (hostName ssh : String) (x : Instance) : Prop where
  host : blank hostName = false
  ssh : blank ssh = false
  id : blank x.id = false
  publicHost : blank x.publicHost = false
  features : AllEnabled x.features

instance (hostName ssh : String) (x : Instance) : Decidable (Fit hostName ssh x) :=
  decidable_of_iff
    (blank hostName = false ∧ blank ssh = false ∧ blank x.id = false ∧
      blank x.publicHost = false ∧ AllEnabled x.features)
    ⟨fun ⟨h₁, h₂, h₃, h₄, h₅⟩ => ⟨h₁, h₂, h₃, h₄, h₅⟩, fun ⟨h₁, h₂, h₃, h₄, h₅⟩ => ⟨h₁, h₂, h₃, h₄, h₅⟩⟩

theorem Fit.filledFrom {y : Instance} (hfit : Fit hostName ssh y) (hx : AllEnabled x.features) :
    Fit hostName ssh (filledFrom x y) := by
  refine ⟨hfit.host, hfit.ssh, hfit.id, hfit.publicHost, ?_⟩
  show AllEnabled (if y.features.isEmpty then x.features else y.features)
  split
  · exact hx
  · exact hfit.features

section OneHost

variable {host : Host} {left right : List Instance}

theorem StorableHost.keep (hh : StorableHost host) {kept : List Instance} (hne : kept ≠ [])
    (hkept : kept.Sublist host.instances) : StorableHost { host with instances := kept } where
  name := hh.name
  ssh := hh.ssh
  nonempty := hne
  sound y hy := hh.sound y (hkept.subset hy)
  distinct := hh.distinct.sublist (hkept.map _)
  features y hy := hh.features y (hkept.subset hy)

theorem StorableHost.put (hh : StorableHost host) (hfit : Fit host.name ssh x)
    (hothers : (left ++ right).Sublist host.instances)
    (hnew : ∀ z ∈ left ++ right, z.id ≠ x.id) :
    StorableHost { host with ssh := ssh, instances := left ++ x :: right } where
  name := hfit.host
  ssh := hfit.ssh
  nonempty := by simp
  sound y hy := by
    rcases List.mem_cons.mp (List.perm_middle.mem_iff.mp hy) with rfl | hy
    · exact ⟨hfit.id, hfit.publicHost⟩
    · exact hh.sound y (hothers.subset hy)
  distinct := by
    have hnodup : ((left ++ right).map (·.id)).Nodup := hh.distinct.sublist (hothers.map _)
    rw [List.map_append, List.map_cons, List.nodup_middle, List.nodup_cons, ← List.map_append]
    refine ⟨fun hmem => ?_, hnodup⟩
    obtain ⟨z, hz, hid⟩ := List.mem_map.mp hmem
    exact hnew z hz hid
  features y hy := by
    rcases List.mem_cons.mp (List.perm_middle.mem_iff.mp hy) with rfl | hy
    · exact hfit.features
    · exact hh.features y (hothers.subset hy)

end OneHost

theorem storable_replace {front back new : List Host} {host : Host} (hinv : inv.Storable)
    (heq : inv.host = front ++ host :: back) (hnew : ∀ h ∈ new, StorableHost h) :
    Storable { inv with host := front ++ new ++ back } where
  hosts h hmem := by
    simp only [List.mem_append] at hmem
    rcases hmem with (hmem | hmem) | hmem
    · exact hinv.hosts h (heq ▸ List.mem_append_left _ hmem)
    · exact hnew h hmem
    · exact hinv.hosts h (heq ▸ List.mem_append_right _ (List.mem_cons_of_mem _ hmem))
  clusters := hinv.clusters

theorem Removed.storable (h : Removed inv hostName instId x inv') (hinv : inv.Storable) :
    inv'.Storable := by
  cases h with
  | @mk front host back left right hhost hinst =>
    have hhostok := hinv.hosts host hhost.mem
    refine storable_replace hinv hhost.eq fun h hmem => ?_
    unfold keptHost at hmem
    split at hmem
    · cases hmem
    · rename_i hne
      rw [List.mem_singleton.mp hmem]
      refine hhostok.keep hne ?_
      rw [hinst.eq]
      exact List.Sublist.append_left (List.sublist_cons_self _ _) _

theorem Pushed.storable (h : Pushed inv hostName ssh x inv') (hinv : inv.Storable)
    (hfit : Fit hostName ssh x) : inv'.Storable := by
  cases h with
  | @onto front host back hhost hssh hnew =>
    have hname : host.name = hostName := by simpa using hhost.holds
    subst hssh hname
    have hhostok : StorableHost { host with instances := host.instances ++ [x] } := by
      refine StorableHost.put (hinv.hosts host hhost.mem) hfit ?_ fun z hz => ?_
      · rw [List.append_nil]
      · rw [List.append_nil] at hz
        simpa using hnew z hz
    have := storable_replace hinv hhost.eq (List.forall_mem_singleton.mpr hhostok)
    rwa [List.append_assoc, List.singleton_append] at this
  | new hnone =>
    refine ⟨fun h hmem => ?_, hinv.clusters⟩
    rcases List.mem_append.mp hmem with hmem | hmem
    · exact hinv.hosts h hmem
    · rw [List.mem_singleton.mp hmem]
      exact {
        name := hfit.host
        ssh := hfit.ssh
        nonempty := List.cons_ne_nil _ _
        sound := List.forall_mem_singleton.mpr ⟨hfit.id, hfit.publicHost⟩
        distinct := List.nodup_singleton _
        features := List.forall_mem_singleton.mpr hfit.features }

/-- The other instances of the host keep their ids apart from the new one's. -/
theorem Rewritten.storable {y : Instance} (h : Rewritten inv hostName instId ssh x y inv')
    (hinv : inv.Storable) (hfit : Fit hostName ssh y) : inv'.Storable := by
  cases h with
  | @mk front host back left right hhost hinst hid =>
    have hname : host.name = hostName := by simpa using hhost.holds
    have hxid : x.id = instId := by simpa using hinst.holds
    subst hname hxid
    have hhostok := hinv.hosts host hhost.mem
    have hnodup : ((left ++ x :: right).map (·.id)).Nodup := hinst.eq ▸ hhostok.distinct
    rw [List.map_append, List.map_cons, List.nodup_middle, List.nodup_cons,
      ← List.map_append] at hnodup
    have hothers : (left ++ right).Sublist host.instances := by
      rw [hinst.eq]
      exact List.Sublist.append_left (List.sublist_cons_self _ _) _
    have hnew : ∀ z ∈ left ++ right, z.id ≠ y.id := by
      intro z hz
      rcases hid with hid | hid
      · rw [hid]
        exact fun heq => hnodup.1 (List.mem_map.mpr ⟨z, hz, heq⟩)
      · simpa using hid z (hothers.subset hz)
    have := storable_replace hinv hhost.eq
      (List.forall_mem_singleton.mpr (hhostok.put hfit hothers hnew))
    rwa [List.append_assoc, List.singleton_append] at this

/-! ## What every edit comes to -/

def HasInstance (inv : Inventory) (hostName instId : String) : Bool :=
  (inv.host.find? (Named hostName)).any fun host => host.instances.any (WithId instId)

/-- Nothing turns an update down before it changes anything. -/
def Updatable (inv : Inventory) (oldHost oldId newHost newSsh : String) (x : Instance) : Prop :=
  inv.HasInstance oldHost oldId = true ∧
    if newHost = oldHost then x.id = oldId ∨ inv.HasInstance oldHost x.id = false
    else inv.Pushable newHost newSsh x

instance (inv : Inventory) (oldHost oldId newHost newSsh : String) (x : Instance) :
    Decidable (inv.Updatable oldHost oldId newHost newSsh x) :=
  inferInstanceAs (Decidable (inv.HasInstance oldHost oldId = true ∧
    if newHost = oldHost then x.id = oldId ∨ inv.HasInstance oldHost x.id = false
    else inv.Pushable newHost newSsh x))

/-- Nothing turns the edit down before it changes anything. -/
def Accepted (inv : Inventory) : InventoryEdit → Prop
  | .push h ssh x => inv.Pushable h ssh x
  | .update h i h' ssh x => inv.Updatable h i h' ssh x
  | .remove h i => inv.HasInstance h i = true

instance (inv : Inventory) (e : InventoryEdit) : Decidable (inv.Accepted e) :=
  match e with
  | .push h ssh x => inferInstanceAs (Decidable (inv.Pushable h ssh x))
  | .update h i h' ssh x => inferInstanceAs (Decidable (inv.Updatable h i h' ssh x))
  | .remove h i => inferInstanceAs (Decidable (inv.HasInstance h i = true))

/-- What an edit that is not turned down leaves to be validated. -/
inductive Changed (inv : Inventory) : InventoryEdit → Inventory → Prop
  | push {h s : String} {y : Instance} {next : Inventory} (hpush : Pushed inv h s y next) :
      Changed inv (.push h s y) next
  | rewrite {h i s : String} {y z : Instance} {next : Inventory}
      (hrewrite : Rewritten inv h i s y (filledFrom y z) next) :
      Changed inv (.update h i h s z) next
  | move {h i h' s : String} {y z : Instance} {mid next : Inventory} (hother : h' ≠ h)
      (hremove : Removed inv h i y mid) (hpush : Pushed mid h' s (filledFrom y z) next) :
      Changed inv (.update h i h' s z) next
  | remove {h i : String} {y : Instance} {next : Inventory} (hremove : Removed inv h i y next) :
      Changed inv (.remove h i) next

/-- An edit is turned down before it changes anything, or is validated afterwards. -/
def Decided (inv : Inventory) (e : InventoryEdit) : Prop :=
  (¬ inv.Accepted e ∧ ∃ err, inv.edit e = (inv, .error err)) ∨
    inv.Accepted e ∧ ∃ next, Changed inv e next ∧ inv.edit e = validated next

theorem hasInstance_of_first {front back : List Host} {host : Host}
    (hhost : FirstAt (Named hostName) inv.host front host back) :
    inv.HasInstance hostName instId = host.instances.any (WithId instId) := by
  unfold HasInstance
  rw [hhost.find?]
  rfl

theorem thenValidated_validated : thenValidated (validated inv) = validated inv := by
  unfold thenValidated validated
  cases inv.validate <;> rfl

theorem move_of_pushable (hinv : inv.Storable) {newHost : String} {y : Instance}
    (hother : newHost ≠ hostName) (hpush : inv.Pushable newHost ssh y)
    {front back : List Host} {host : Host} {left right : List Instance}
    (hhost : FirstAt (Named hostName) inv.host front host back)
    (hinst : FirstAt (WithId instId) host.instances left x right) :
    ∃ mid next, Removed inv hostName instId x mid ∧ Pushed mid newHost ssh y next ∧
      inv.moveInstance hostName instId newHost ssh y = validated next := by
  have hremove := Removed.mk hhost hinst
  obtain ⟨next, hpushed, hnext⟩ := push_of_pushable (hremove.pushable hother hpush)
  refine ⟨_, next, hremove, hpushed, ?_⟩
  have hvalid := ((storable_iff _).mp (hremove.storable hinv)).1
  unfold moveInstance
  rw [remove_of_found hhost hinst]
  unfold validated at hvalid ⊢
  simp only [hvalid]
  rw [hnext, thenValidated_validated]
  rfl

section Found

variable {front back : List Host} {host : Host} {left right : List Instance}

theorem update_in_place (hhost : FirstAt (Named hostName) inv.host front host back)
    (hinst : FirstAt (WithId instId) host.instances left x right) (newSsh : String) (y : Instance) :
    inv.Decided (.update hostName instId hostName newSsh y) := by
  have hupdatable : inv.Updatable hostName instId hostName newSsh y ↔
      y.id = instId ∨ host.instances.any (WithId y.id) = false := by
    unfold Updatable
    rw [if_pos rfl, hasInstance_of_first hhost, hasInstance_of_first hhost, hinst.any]
    exact and_iff_right rfl
  unfold Decided Accepted
  simp only [edit]
  unfold updateInstance
  rw [hupdatable, hhost.findIdx?, hhost.find?]
  simp only
  rw [hinst.findIdx?, hinst.find?]
  simp only [if_true]
  split
  · rename_i htaken
    refine .inl ⟨?_, _, rfl⟩
    rintro (hid | hfree)
    · exact htaken.1 hid
    · cases hfree.symm.trans htaken.2
  · rename_i hfree
    have hid : y.id = instId ∨ host.instances.any (WithId y.id) = false := by
      by_cases hid : y.id = instId
      · exact .inl hid
      · exact .inr (Bool.eq_false_iff.mpr fun hany => hfree ⟨hid, hany⟩)
    have hnew : y.id = instId ∨ ∀ z ∈ host.instances, WithId y.id z = false :=
      hid.imp_right fun hany z hz => by simpa using List.any_eq_false.mp hany z hz
    refine .inr ⟨hid, _, .rewrite (.mk hhost hinst hnew), ?_⟩
    rw [hhost.set, hinst.set]

theorem update_elsewhere (hinv : inv.Storable)
    (hhost : FirstAt (Named hostName) inv.host front host back)
    (hinst : FirstAt (WithId instId) host.instances left x right) {newHost : String}
    (hother : newHost ≠ hostName) (newSsh : String) (y : Instance) :
    inv.Decided (.update hostName instId newHost newSsh y) := by
  have hupdatable : inv.Updatable hostName instId newHost newSsh y ↔
      inv.Pushable newHost newSsh y := by
    unfold Updatable
    rw [if_neg hother, hasInstance_of_first hhost, hinst.any]
    exact and_iff_right rfl
  unfold Decided Accepted
  simp only [edit]
  unfold updateInstance
  rw [hupdatable, hhost.findIdx?, hhost.find?]
  simp only
  rw [hinst.findIdx?, hinst.find?]
  simp only [if_neg hother]
  by_cases hpush : inv.Pushable newHost newSsh y
  · obtain ⟨mid, next, hremove, hpushed, hnext⟩ :=
      move_of_pushable hinv hother (y := filledFrom x y) hpush hhost hinst
    refine .inr ⟨hpush, next, .move hother hremove hpushed, ?_⟩
    split
    · exact hnext
    · rename_i target htarget
      obtain ⟨hssh, hany⟩ := hpush target htarget
      rw [if_neg (by simp [hssh]), if_neg (by simpa [filledFrom] using hany)]
      exact hnext
  · refine .inl ⟨hpush, ?_⟩
    split
    · rename_i hnone
      refine absurd (fun target htarget => ?_) hpush
      cases hnone.symm.trans htarget
    · rename_i target htarget
      split
      · exact ⟨_, rfl⟩
      · rename_i hssh
        split
        · exact ⟨_, rfl⟩
        · rename_i hany
          refine absurd (fun target' htarget' => ?_) hpush
          cases htarget.symm.trans htarget'
          exact ⟨by simpa using hssh, by simpa [filledFrom] using hany⟩

end Found

theorem hasInstance_of_no_host (hnone : ∀ h ∈ inv.host, Named hostName h = false) :
    inv.HasInstance hostName instId = false := by
  unfold HasInstance
  rw [find?_of_none hnone]
  rfl

theorem hasInstance_of_no_inst {front back : List Host} {host : Host}
    (hhost : FirstAt (Named hostName) inv.host front host back)
    (hnone : ∀ y ∈ host.instances, WithId instId y = false) :
    inv.HasInstance hostName instId = false := by
  rw [hasInstance_of_first hhost, any_of_none hnone]

theorem update_decided (hinv : inv.Storable) (oldHost oldId newHost newSsh : String)
    (y : Instance) : inv.Decided (.update oldHost oldId newHost newSsh y) := by
  rcases firstAt_or_none (Named oldHost) inv.host with ⟨front, host, back, hhost⟩ | hnone
  · rcases firstAt_or_none (WithId oldId) host.instances with ⟨left, x, right, hinst⟩ | hnone
    · by_cases hsame : newHost = oldHost
      · subst hsame
        exact update_in_place hhost hinst newSsh y
      · exact update_elsewhere hinv hhost hinst hsame newSsh y
    · refine .inl ⟨fun hacc => ?_, .instanceNotFound oldId oldHost, ?_⟩
      · cases (hasInstance_of_no_inst hhost hnone).symm.trans hacc.1
      · simp only [edit]
        unfold updateInstance
        rw [hhost.findIdx?, hhost.find?]
        simp only
        rw [findIdx?_of_none hnone]
  · refine .inl ⟨fun hacc => ?_, .hostNotFound oldHost, ?_⟩
    · cases (hasInstance_of_no_host hnone).symm.trans hacc.1
    · simp only [edit]
      unfold updateInstance
      rw [findIdx?_of_none hnone, find?_of_none hnone]

theorem remove_decided (inv : Inventory) (hostName instId : String) :
    inv.Decided (.remove hostName instId) := by
  rcases firstAt_or_none (Named hostName) inv.host with ⟨front, host, back, hhost⟩ | hnone
  · rcases firstAt_or_none (WithId instId) host.instances with ⟨left, x, right, hinst⟩ | hnone
    · refine .inr ⟨?_, _, .remove (.mk hhost hinst), remove_of_found hhost hinst⟩
      exact (hasInstance_of_first hhost).trans hinst.any
    · refine .inl ⟨fun hacc => ?_, .instanceNotFound instId hostName, ?_⟩
      · cases (hasInstance_of_no_inst hhost hnone).symm.trans hacc
      · simp only [edit]
        unfold removeInstance
        rw [hhost.findIdx?, hhost.find?]
        simp only
        rw [findIdx?_of_none hnone]
  · refine .inl ⟨fun hacc => ?_, .hostNotFound hostName, ?_⟩
    · cases (hasInstance_of_no_host hnone).symm.trans hacc
    · simp only [edit]
      unfold removeInstance
      rw [findIdx?_of_none hnone, find?_of_none hnone]

theorem edit_decided (hinv : inv.Storable) (e : InventoryEdit) : inv.Decided e := by
  cases e with
  | push h s y =>
    by_cases hpush : inv.Pushable h s y
    · obtain ⟨next, hpushed, hnext⟩ := push_of_pushable hpush
      exact .inr ⟨hpush, next, .push hpushed, hnext⟩
    · exact .inl ⟨hpush, push_of_not_pushable hpush⟩
  | update h i h' s y => exact update_decided hinv h i h' s y
  | remove h i => exact remove_decided inv h i

end Inventory

end ConquerD.Manager
