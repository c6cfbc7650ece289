import ConquerD.Manager.Verify.InventoryEdits
import Mathlib.Data.List.Forall2

/-!
# Runs of inventory edits

What an edit leaves as it was is said of what the inventory resolves to: the settings
and ports of all instances in order, and what the member keys of the clusters resolve to.
Ports and ids are where edits reach further than the instance they name. An unpinned port
moves when an instance before it on its host goes, and a key names an instance by its
host and id. A condition on single edits leaves these out, and over every run whose edits
meet it all that is asked of the inventory holds.
-/

namespace ConquerD.Manager

open Lib.FirstMatch Lib.Run

/-! ## What an instance is set to -/

/-- A resolved instance without the other instances of its host. -/
structure Settings where
  hostName : String
  ssh : String
  arch : Option String
  inst : Instance
  relayPort : UInt16
  wsPort : UInt16
  clusterPort : UInt16

def ResolvedInstance.settings (r : ResolvedInstance) : Settings where
  hostName := r.host.name
  ssh := r.host.ssh
  arch := r.host.arch
  inst := r.inst
  relayPort := r.relayPort
  wsPort := r.wsPort
  clusterPort := r.clusterPort

def placed (host : Host) (base : Option UInt16) (index : Nat) (x : Instance) : Settings :=
  (resolveAt host base index x).settings

def Host.fleet (host : Host) : List Settings :=
  host.instances.mapIdx (placed host none)

/-- All three ports are pinned. -/
def Pinned (x : Instance) : Prop :=
  x.relayPort.isSome ∧ x.wsPort.isSome ∧ x.clusterPort.isSome

instance (x : Instance) : Decidable (Pinned x) :=
  inferInstanceAs (Decidable (_ ∧ _ ∧ _))

section Placed

variable {host : Host} {base : Option UInt16} {x : Instance} {left right : List Instance}

@[simp] theorem placed_hostName (k : Nat) : (placed host base k x).hostName = host.name := rfl

@[simp] theorem placed_ssh (k : Nat) : (placed host base k x).ssh = host.ssh := rfl

@[simp] theorem placed_inst (k : Nat) : (placed host base k x).inst = x := rfl

theorem placed_instances (instances : List Instance) :
    placed { host with instances := instances } base = placed host base := rfl

theorem placed_of_pinned (hx : Pinned x) (j k : Nat) :
    placed host base j x = placed host base k x := by
  obtain ⟨hrelay, hws, hcluster⟩ := hx
  obtain ⟨relay, hrelay⟩ := Option.isSome_iff_exists.mp hrelay
  obtain ⟨ws, hws⟩ := Option.isSome_iff_exists.mp hws
  obtain ⟨cluster, hcluster⟩ := Option.isSome_iff_exists.mp hcluster
  simp [placed, resolveAt, ResolvedInstance.settings, hrelay, hws, hcluster]

/-- A list of settings is another one with an entry more. -/
def Without (l : List Settings) (s : Settings) (rest : List Settings) : Prop :=
  ∃ front back, l = front ++ s :: back ∧ rest = front ++ back

theorem Without.within {l rest : List Settings} {s : Settings} (h : Without l s rest)
    (before behind : List Settings) :
    Without (before ++ l ++ behind) s (before ++ rest ++ behind) := by
  obtain ⟨front, back, rfl, rfl⟩ := h
  exact ⟨before ++ front, back ++ behind, by simp, by simp⟩

theorem Without.perm {l rest : List Settings} {s : Settings} (h : Without l s rest) : l.Perm (s :: rest) := by
  obtain ⟨front, back, rfl, rfl⟩ := h
  exact List.perm_middle

theorem fleet_without (heq : host.instances = left ++ x :: right)
    (hpinned : ∀ y ∈ right, Pinned y) :
    Without host.fleet (placed host none left.length x)
      (Host.fleet { host with instances := left ++ right }) := by
  refine ⟨left.mapIdx (placed host none),
    right.mapIdx fun k => placed host none (k + 1 + left.length), ?_, ?_⟩
  · unfold Host.fleet
    rw [heq, List.mapIdx_append, List.mapIdx_cons, Nat.zero_add]
  · unfold Host.fleet
    rw [placed_instances, List.mapIdx_append]
    congr 1
    refine List.mapIdx_eq_mapIdx_iff.mpr fun k hk => ?_
    exact placed_of_pinned (hpinned _ (List.getElem_mem hk)) _ _

end Placed

/-- An instance with nothing pinned. -/
def freshInstance (id : String) (features : List FeatureSpec) : Instance where
  id := id
  publicHost := "edge.example.net"
  relayPort := none
  wsPort := none
  listenBind := none
  accessMode := none
  identityFile := none
  allowPublicRooms := none
  allowPrivateRooms := none
  clusterPort := none
  features := features

namespace Inventory

variable {inv inv' : Inventory} {hostName ssh instId : String} {x y : Instance}
  {front back : List Host} {host : Host} {left right : List Instance}

/-- The settings of all instances, in order. -/
def fleet (inv : Inventory) : List Settings :=
  match inv.resolveInstances ⟨none, none⟩ with
  | .error _ => []
  | .ok all => all.map ResolvedInstance.settings

theorem fleet_eq (inv : Inventory) : inv.fleet = inv.host.flatMap Host.fleet := by
  have hall : (inv.host.flatMap fun host => host.instances.mapIdx (resolveAt host none)).map
      ResolvedInstance.settings = inv.host.flatMap Host.fleet := by
    rw [List.map_flatMap]
    refine List.flatMap_congr fun host _ => ?_
    exact List.ext_getElem (by simp [Host.fleet]) fun k _ _ => by simp [Host.fleet, placed]
  unfold fleet resolveInstances
  simp only [Selector.wants, List.filter_true]
  rw [← hall]
  cases hout : inv.host.flatMap fun host => host.instances.mapIdx (resolveAt host none) with
  | nil => rfl
  | cons r rest => rfl

theorem fleet_split (heq : inv.host = front ++ host :: back) :
    inv.fleet = front.flatMap Host.fleet ++ host.fleet ++ back.flatMap Host.fleet := by
  rw [fleet_eq, heq]
  simp

theorem keptHost_fleet (instances : List Instance) :
    (keptHost host instances).flatMap Host.fleet =
      Host.fleet { host with instances := instances } := by
  unfold keptHost
  split
  · rename_i hempty
    rw [hempty]
    rfl
  · simp

/-- What comes behind an instance on its host has its ports pinned. -/
def LaterPinned (inv : Inventory) (hostName instId : String) : Prop :=
  ∀ host ∈ inv.host.find? (Named hostName),
    ∀ x ∈ (host.instances.dropWhile fun y => !WithId instId y).tail, Pinned x

instance (inv : Inventory) (hostName instId : String) :
    Decidable (inv.LaterPinned hostName instId) :=
  inferInstanceAs (Decidable (∀ host ∈ inv.host.find? (Named hostName),
    ∀ x ∈ (host.instances.dropWhile fun y => !WithId instId y).tail, Pinned x))

theorem LaterPinned.behind (h : inv.LaterPinned hostName instId)
    (hhost : FirstAt (Named hostName) inv.host front host back)
    (hinst : FirstAt (WithId instId) host.instances left x right) : ∀ y ∈ right, Pinned y := by
  intro y hy
  refine h host hhost.find? y ?_
  rw [hinst.behind]
  exact hy

/-! ### What the others are set to -/

theorem Removed.fleet (h : Removed inv hostName instId x inv')
    (hpinned : inv.LaterPinned hostName instId) :
    ∃ s, s.hostName = hostName ∧ s.inst = x ∧ s.inst.id = instId ∧
      Without inv.fleet s inv'.fleet := by
  cases h with
  | @mk front host back left right hhost hinst =>
    refine ⟨placed host none left.length x, by simpa using hhost.holds, rfl,
      by simpa using hinst.holds, ?_⟩
    have hwithout := (fleet_without hinst.eq (hpinned.behind hhost hinst)).within
      (front.flatMap Host.fleet) (back.flatMap Host.fleet)
    rw [fleet_split hhost.eq, fleet_eq, List.flatMap_append, List.flatMap_append, keptHost_fleet]
    exact hwithout

theorem Pushed.fleet (h : Pushed inv hostName ssh x inv') :
    ∃ s, s.hostName = hostName ∧ s.ssh = ssh ∧ s.inst = x ∧ Without inv'.fleet s inv.fleet := by
  cases h with
  | @onto front host back hhost hssh hnew =>
    refine ⟨placed host none host.instances.length x, by simpa using hhost.holds, hssh, rfl, ?_⟩
    have hlast : Without (Host.fleet { host with instances := host.instances ++ [x] })
        (placed host none host.instances.length x)
        (Host.fleet { host with instances := host.instances ++ [] }) :=
      fleet_without rfl fun _ hy => nomatch hy
    rw [List.append_nil] at hlast
    have hwithout := hlast.within (front.flatMap Host.fleet) (back.flatMap Host.fleet)
    rw [fleet_split hhost.eq, fleet_split rfl]
    exact hwithout
  | new hnone =>
    refine ⟨placed ⟨hostName, ssh, none, [x]⟩ none 0 x, rfl, rfl, rfl, inv.fleet, [], ?_, ?_⟩
    · rw [fleet_eq, fleet_eq, List.flatMap_append]
      rfl
    · rw [List.append_nil]

/-- The same settings, but that the host may have got a new ssh target. -/
def Retargeted (hostName ssh : String) (s t : Settings) : Prop :=
  t = s ∨ s.hostName = hostName ∧ t = { s with ssh := ssh }

theorem Rewritten.fleet (h : Rewritten inv hostName instId ssh x y inv') :
    ∃ s t rest rest', s.hostName = hostName ∧ s.inst = x ∧ s.inst.id = instId ∧
      t.hostName = hostName ∧ t.ssh = ssh ∧ t.inst = y ∧
      Without inv.fleet s rest ∧ Without inv'.fleet t rest' ∧
      List.Forall₂ (Retargeted hostName ssh) rest rest' := by
  cases h with
  | @mk front host back left right hhost hinst hid =>
    have hname : host.name = hostName := by simpa using hhost.holds
    let host' : Host := { host with ssh := ssh, instances := left ++ y :: right }
    let behind (h : Host) := right.mapIdx fun k => placed h none (k + 1 + left.length)
    have hsplit (h : Host) (z : Instance) (heq : h.instances = left ++ z :: right) :
        h.fleet = left.mapIdx (placed h none) ++ placed h none left.length z :: behind h := by
      unfold Host.fleet
      rw [heq, List.mapIdx_append, List.mapIdx_cons, Nat.zero_add]
    have hkept {instances : List Instance} (f : Nat → Nat) :
        List.Forall₂ (Retargeted hostName ssh) (instances.mapIdx fun k => placed host none (f k))
          (instances.mapIdx fun k => placed host' none (f k)) := by
      refine List.forall₂_iff_get.mpr ⟨by simp, fun k _ _ => ?_⟩
      simp only [List.get_eq_getElem, List.getElem_mapIdx]
      exact .inr ⟨hname, rfl⟩
    have hsame (hosts : List Host) : List.Forall₂ (Retargeted hostName ssh)
        (hosts.flatMap Host.fleet) (hosts.flatMap Host.fleet) :=
      List.forall₂_same.mpr fun _ _ => .inl rfl
    refine ⟨placed host none left.length x, placed host' none left.length y, _, _, hname, rfl,
      by simpa using hinst.holds, hname, rfl, rfl,
      ⟨front.flatMap Host.fleet ++ left.mapIdx (placed host none),
        behind host ++ back.flatMap Host.fleet, ?_, rfl⟩,
      ⟨front.flatMap Host.fleet ++ left.mapIdx (placed host' none),
        behind host' ++ back.flatMap Host.fleet, ?_, rfl⟩, ?_⟩
    · rw [fleet_split hhost.eq, hsplit host x hinst.eq]
      simp
    · rw [@fleet_split _ front back host' rfl, hsplit host' y rfl]
      simp
    · exact List.rel_append (List.rel_append (hsame front) (hkept id))
        (List.rel_append (hkept _) (hsame back))

/-! ### What a key resolves to -/

def Located (inv : Inventory) (base : Option UInt16) (hostName instId : String) (s : Settings) :
    Prop :=
  ∃ front host back left x right, FirstAt (Named hostName) inv.host front host back ∧
    FirstAt (WithId instId) host.instances left x right ∧ s = placed host base left.length x

variable {base : Option UInt16} {s : Settings}

theorem Located.names (h : inv.Located base hostName instId s) :
    s.hostName = hostName ∧ s.inst.id = instId := by
  obtain ⟨front, host, back, left, x, right, hhost, hinst, rfl⟩ := h
  exact ⟨by simpa using hhost.holds, by simpa using hinst.holds⟩

theorem find?_resolved (hinst : FirstAt (WithId instId) host.instances left x right) :
    (host.instances.mapIdx (resolveAt host base)).find? (·.inst.id == instId) =
      some (resolveAt host base left.length x) :=
  hinst.find?_mapIdx fun _ _ => rfl

theorem located_of_resolveMember {c : ClusterDef} {key : String} {r : ResolvedInstance}
    (h : inv.resolveMember c key = .ok r) :
    ∃ hostName instId, splitOnce '/' key = some (hostName, instId) ∧
      inv.Located c.clusterPort hostName instId r.settings := by
  unfold resolveMember at h
  split at h
  · cases h
  · rename_i hostName instId hsplit
    refine ⟨hostName, instId, hsplit, ?_⟩
    rcases firstAt_or_none (Named hostName) inv.host with ⟨front, host, back, hhost⟩ | hnone
    · rw [hhost.find?] at h
      simp only at h
      rcases firstAt_or_none (WithId instId) host.instances with ⟨left, x, right, hinst⟩ | hnone
      · rw [find?_resolved hinst] at h
        cases h
        exact ⟨front, host, back, left, x, right, hhost, hinst, rfl⟩
      · have habsent : (host.instances.mapIdx (resolveAt host c.clusterPort)).find?
            (·.inst.id == instId) = none := find?_mapIdx_of_none hnone fun _ _ => rfl
        rw [habsent] at h
        cases h
    · rw [find?_of_none hnone] at h
      cases h

theorem resolveMember_of_located {c : ClusterDef} {key : String}
    (hsplit : splitOnce '/' key = some (hostName, instId))
    (h : inv.Located c.clusterPort hostName instId s) :
    ∃ r, inv.resolveMember c key = .ok r ∧ r.settings = s := by
  obtain ⟨front, host, back, left, x, right, hhost, hinst, rfl⟩ := h
  refine ⟨resolveAt host c.clusterPort left.length x, ?_, rfl⟩
  unfold resolveMember
  rw [hsplit]
  simp only
  rw [hhost.find?]
  simp only
  rw [find?_resolved hinst]

theorem Located.onHost (h : inv.Located base hostName instId s)
    (hhost : FirstAt (Named hostName) inv.host front host back) :
    ∃ left x right, FirstAt (WithId instId) host.instances left x right ∧
      s = placed host base left.length x := by
  obtain ⟨front', host', back', left, x, right, hhost', hinst, hs⟩ := h
  obtain ⟨-, rfl, -⟩ := hhost.inj hhost'
  exact ⟨left, x, right, hinst, hs⟩

theorem Located.offHost (h : inv.Located base hostName instId s)
    (heq : inv.host = front ++ host :: back) (new : List Host) (hother : host.name ≠ hostName)
    (hnew : ∀ h ∈ new, h.name = host.name) :
    Located { inv with host := front ++ new ++ back } base hostName instId s := by
  obtain ⟨front', host', back', left, x, right, hhost, hinst, rfl⟩ := h
  obtain ⟨front'', back'', hfirst, -⟩ := (heq ▸ hhost).past (by simpa using hother) new
    (fun b hb => by simpa [hnew b hb] using hother)
  exact ⟨front'', host', back'', left, x, right, hfirst, hinst, rfl⟩

theorem Removed.located (h : Removed inv hostName instId x inv')
    (hpinned : inv.LaterPinned hostName instId) {otherHost otherId : String}
    (hother : ¬(otherHost = hostName ∧ otherId = instId))
    (hs : inv.Located base otherHost otherId s) : inv'.Located base otherHost otherId s := by
  cases h with
  | @mk front host back left right hhost hinst =>
    have hname : host.name = hostName := by simpa using hhost.holds
    have hid : x.id = instId := by simpa using hinst.holds
    by_cases hsame : otherHost = hostName
    · subst hsame
      obtain ⟨left', z, right', hz, rfl⟩ := hs.onHost hhost
      have hne : WithId otherId x = false := by
        simpa [hid] using fun heq : instId = otherId => hother ⟨rfl, heq.symm⟩
      obtain ⟨left'', right'', hz', hplace⟩ := (hinst.eq ▸ hz).past hne [] (fun _ hb => nomatch hb)
      rw [List.append_nil] at hz'
      have hkept : keptHost host (left ++ right) =
          [{ host with instances := left ++ right }] := by
        unfold keptHost
        rw [if_neg (List.ne_nil_of_mem hz'.mem)]
      rw [hkept, List.append_assoc, List.singleton_append]
      refine ⟨front, _, back, left'', z, right'', hhost.replace (by simpa using hname), hz', ?_⟩
      rw [placed_instances]
      rcases hplace with rfl | ⟨hbehind, -⟩
      · rfl
      · exact placed_of_pinned (hpinned.behind hhost hinst z hbehind) _ _
    · refine hs.offHost hhost.eq _ ?_ fun h hmem => name_of_mem_keptHost hmem
      rw [hname]
      exact fun heq => hsame heq.symm

theorem Pushed.located (h : Pushed inv hostName ssh x inv') {otherHost otherId : String}
    (hs : inv.Located base otherHost otherId s) : inv'.Located base otherHost otherId s := by
  cases h with
  | @onto front host back hhost hssh hnew =>
    have hname : host.name = hostName := by simpa using hhost.holds
    by_cases hsame : otherHost = hostName
    · subst hsame
      obtain ⟨left, z, right, hz, rfl⟩ := hs.onHost hhost
      refine ⟨front, _, back, left, z, right ++ [x], hhost.replace (by simpa using hname),
        ⟨?_, hz.holds, hz.before⟩, rfl⟩
      rw [hz.eq, List.append_assoc, List.cons_append]
    · have hoff := hs.offHost hhost.eq [{ host with instances := host.instances ++ [x] }]
        (by rw [hname]; exact fun heq => hsame heq.symm) (List.forall_mem_singleton.mpr rfl)
      rwa [List.append_assoc, List.singleton_append] at hoff
  | new hnone =>
    obtain ⟨front, host, back, left, z, right, hhost, hz, rfl⟩ := hs
    let added : Host := { name := hostName, ssh := ssh, arch := none, instances := [x] }
    refine ⟨front, host, back ++ [added], left, z, right, ⟨?_, hhost.holds, hhost.before⟩, hz, rfl⟩
    rw [hhost.eq, List.append_assoc, List.cons_append]

theorem Rewritten.located (h : Rewritten inv hostName instId ssh x y inv')
    {otherHost otherId : String} (hother : ¬(otherHost = hostName ∧ otherId = instId))
    (hs : inv.Located base otherHost otherId s) :
    ∃ t, inv'.Located base otherHost otherId t ∧ Retargeted hostName ssh s t := by
  cases h with
  | @mk front host back left right hhost hinst hid =>
    have hname : host.name = hostName := by simpa using hhost.holds
    have hxid : x.id = instId := by simpa using hinst.holds
    by_cases hsame : otherHost = hostName
    · subst hsame
      obtain ⟨left', z, right', hz, rfl⟩ := hs.onHost hhost
      have hzid : z.id = otherId := by simpa using hz.holds
      have hne : WithId otherId x = false := by
        simpa [hxid] using fun heq : instId = otherId => hother ⟨rfl, heq.symm⟩
      have hyne : WithId otherId y = false := by
        rcases hid with hid | hfree
        · simpa [hid] using fun heq : instId = otherId => hother ⟨rfl, heq.symm⟩
        · have hzfree := hfree z hz.mem
          simpa [hzid] using fun heq : y.id = otherId => by simp [hzid, heq] at hzfree
      obtain ⟨left'', right'', hz', hplace⟩ := (hinst.eq ▸ hz).past hne [y]
        (List.forall_mem_singleton.mpr hyne)
      have hlength : left''.length = left'.length := by
        rcases hplace with rfl | ⟨-, hlength⟩
        · rfl
        · exact Nat.succ.inj hlength
      rw [List.append_assoc, List.singleton_append] at hz'
      refine ⟨_, ⟨front, _, back, left'', z, right'', hhost.replace (by simpa using hname), hz', rfl⟩,
        .inr ⟨hname, ?_⟩⟩
      rw [hlength]
      rfl
    · have hoff := hs.offHost hhost.eq
        [{ host with ssh := ssh, instances := left ++ y :: right }]
        (by rw [hname]; exact fun heq => hsame heq.symm) (List.forall_mem_singleton.mpr rfl)
      rw [List.append_assoc, List.singleton_append] at hoff
      exact ⟨s, hoff, .inl rfl⟩

theorem Rewritten.located_itself (h : Rewritten inv hostName instId ssh x y inv')
    (hid : y.id = instId) (hs : inv.Located base hostName instId s) :
    ∃ t, inv'.Located base hostName instId t ∧ t.ssh = ssh ∧ s.inst = x ∧ t.inst = y := by
  cases h with
  | @mk front host back left right hhost hinst _ =>
    have hname : host.name = hostName := by simpa using hhost.holds
    obtain ⟨left', z, right', hz, rfl⟩ := hs.onHost hhost
    obtain ⟨-, rfl, -⟩ := hinst.inj hz
    exact ⟨_, ⟨front, _, back, left, y, right, hhost.replace (by simpa using hname),
      hinst.replace (by simpa using hid), rfl⟩, rfl, rfl, rfl⟩

/-! ## What is asked of an edit -/

/-- Nothing but the ssh target, and this where an update gives the host another one. -/
def Unchanged (e : InventoryEdit) (s t : Settings) : Prop :=
  t = s ∨ ∃ i ssh x, e = .update s.hostName i s.hostName ssh x ∧ t = { s with ssh := ssh }

/-- The instance that the edit names comes, goes or changes, and the others stay. -/
def OthersKept : InventoryEdit → List Settings → List Settings → Prop
  | .push h ssh x, l, l' => ∃ s, s.hostName = h ∧ s.ssh = ssh ∧ s.inst = x ∧ Without l' s l
  | .update h i h' ssh x, l, l' => ∃ s t rest rest', s.hostName = h ∧ s.inst.id = i ∧
      t.hostName = h' ∧ t.ssh = ssh ∧ t.inst = filledFrom s.inst x ∧
      Without l s rest ∧ Without l' t rest' ∧
      List.Forall₂ (Unchanged (.update h i h' ssh x)) rest rest'
  | .remove h i, l, l' => ∃ s, s.hostName = h ∧ s.inst.id = i ∧ Without l s l'

/-- What a member resolves to afterwards: the instance an update made of it, or as before. -/
def Follows : InventoryEdit → Settings → Settings → Prop
  | .update h i h' ssh x, s, t =>
    if s.hostName = h ∧ s.inst.id = i then
      t.hostName = h' ∧ t.ssh = ssh ∧ t.inst = filledFrom s.inst x
    else Unchanged (.update h i h' ssh x) s t
  | _, s, t => t = s

/-- A key that resolved does so after the edit, unless this has removed its instance. -/
def KeyKept (e : InventoryEdit) (inv inv' : Inventory) (c c' : ClusterDef) (key key' : String) :
    Prop :=
  ∀ r, inv.resolveMember c key = .ok r → e ≠ .remove r.host.name r.inst.id →
    ∃ r', inv'.resolveMember c' key' = .ok r' ∧ Follows e r.settings r'.settings

def MembersKept (e : InventoryEdit) (inv inv' : Inventory) : Prop :=
  List.Forall₂ (fun c c' => c'.id = c.id ∧
    List.Forall₂ (KeyKept e inv inv' c c') c.members c'.members) inv.clusters inv'.clusters

variable {τ : Type} (L : TomlLibrary τ)

/-- Atomic, local and durable. -/
structure EditSound (inv : Inventory) (e : InventoryEdit) : Prop where
  atomic : ∀ err, (inv.edit e).2 = .error err → inv.step e = inv
  others : (inv.edit e).2 = .ok () → OthersKept e inv.fleet (inv.step e).fleet
  members : (inv.edit e).2 = .ok () → MembersKept e inv (inv.step e)
  defaults : (inv.step e).defaults = inv.defaults
  durable : load L ((inv.step e).save L) = .ok (inv.step e)

/-- Some cluster has the instance among its members. -/
def Member (inv : Inventory) (hostName instId : String) : Prop :=
  ∃ c ∈ inv.clusters, ∃ key ∈ c.members, splitOnce '/' key = some (hostName, instId)

instance (inv : Inventory) (hostName instId : String) : Decidable (inv.Member hostName instId) :=
  inferInstanceAs (Decidable (∃ c ∈ inv.clusters, ∃ key ∈ c.members,
    splitOnce '/' key = some (hostName, instId)))

/-- The edit leaves what a file keeps and does not reach beyond the instance it names. -/
def Contained (inv : Inventory) : InventoryEdit → Prop
  | .push h ssh x => Fit h ssh x
  | .update h i h' ssh x =>
    Fit h' ssh x ∧
      if h' = h then x.id = i ∨ ¬ inv.Member h i
      else inv.LaterPinned h i ∧ ¬ inv.Member h i
  | .remove h i => inv.LaterPinned h i

instance (inv : Inventory) (e : InventoryEdit) : Decidable (inv.Contained e) :=
  match e with
  | .push h ssh x => inferInstanceAs (Decidable (Fit h ssh x))
  | .update h i h' ssh x => inferInstanceAs (Decidable (Fit h' ssh x ∧
      if h' = h then x.id = i ∨ ¬ inv.Member h i
      else inv.LaterPinned h i ∧ ¬ inv.Member h i))
  | .remove h i => inferInstanceAs (Decidable (inv.LaterPinned h i))

/-- What is turned down at once reaches nothing. -/
def EditFits (inv : Inventory) (e : InventoryEdit) : Prop :=
  inv.Accepted e → inv.Contained e

instance (inv : Inventory) (e : InventoryEdit) : Decidable (inv.EditFits e) :=
  inferInstanceAs (Decidable (inv.Accepted e → inv.Contained e))

/-! ## Edits that fit are sound -/

variable {e : InventoryEdit}

theorem Removed.features (h : Removed inv hostName instId x inv') (hinv : inv.Storable) :
    AllEnabled x.features := by
  cases h with
  | mk hhost hinst => exact (hinv.hosts _ hhost.mem).features x hinst.mem

theorem Rewritten.features (h : Rewritten inv hostName instId ssh x y inv')
    (hinv : inv.Storable) : AllEnabled x.features := by
  cases h with
  | mk hhost hinst _ => exact (hinv.hosts _ hhost.mem).features x hinst.mem

theorem Changed.rest (h : Changed inv e inv') :
    inv'.defaults = inv.defaults ∧ inv'.clusters = inv.clusters := by
  cases h with
  | push hpush => cases hpush <;> exact ⟨rfl, rfl⟩
  | rewrite hrewrite => cases hrewrite; exact ⟨rfl, rfl⟩
  | move _ hremove hpush => cases hremove; cases hpush <;> exact ⟨rfl, rfl⟩
  | remove hremove => cases hremove; exact ⟨rfl, rfl⟩

theorem Changed.storable (h : Changed inv e inv') (hinv : inv.Storable)
    (hcontained : inv.Contained e) : inv'.Storable := by
  cases h with
  | push hpush => exact hpush.storable hinv hcontained
  | rewrite hrewrite =>
    exact hrewrite.storable hinv (hcontained.1.filledFrom (hrewrite.features hinv))
  | move _ hremove hpush =>
    exact hpush.storable (hremove.storable hinv)
      (hcontained.1.filledFrom (hremove.features hinv))
  | remove hremove => exact hremove.storable hinv

theorem Retargeted.unchanged {t : Settings} (h : Retargeted hostName ssh s t) (i : String)
    (x : Instance) : Unchanged (.update hostName i hostName ssh x) s t := by
  rcases h with h | ⟨hname, h⟩
  · exact .inl h
  · exact .inr ⟨i, ssh, x, by rw [hname], h⟩

theorem Changed.others (h : Changed inv e inv') (hcontained : inv.Contained e) :
    OthersKept e inv.fleet inv'.fleet := by
  cases h with
  | push hpush => exact hpush.fleet
  | rewrite hrewrite =>
    obtain ⟨s, t, rest, rest', hs, hx, hid, ht, hssh, hy, hrest, hrest', hkept⟩ := hrewrite.fleet
    refine ⟨s, t, rest, rest', hs, hid, ht, hssh, ?_, hrest, hrest', ?_⟩
    · rw [hy, hx]
    · exact hkept.imp fun s t h => h.unchanged _ _
  | move hother hremove hpush =>
    have hreach := hcontained.2
    rw [if_neg hother] at hreach
    obtain ⟨s, hs, hx, hid, hrest⟩ := hremove.fleet hreach.1
    obtain ⟨t, ht, hssh, hy, hrest'⟩ := hpush.fleet
    refine ⟨s, t, _, _, hs, hid, ht, hssh, ?_, hrest, hrest', ?_⟩
    · rw [hy, hx]
    · exact List.forall₂_same.mpr fun _ _ => .inl rfl
  | remove hremove =>
    obtain ⟨s, hs, -, hid, hrest⟩ := hremove.fleet hcontained
    exact ⟨s, hs, hid, hrest⟩

theorem membersKept_of (hclusters : inv'.clusters = inv.clusters)
    (h : ∀ base hostName instId s, inv.Member hostName instId →
      inv.Located base hostName instId s → e ≠ .remove hostName instId →
      ∃ t, inv'.Located base hostName instId t ∧ Follows e s t) : MembersKept e inv inv' := by
  unfold MembersKept
  rw [hclusters]
  refine List.forall₂_same.mpr fun c hc => ⟨rfl, List.forall₂_same.mpr fun key hkey => ?_⟩
  intro r hr hremoved
  obtain ⟨hostName, instId, hsplit, hlocated⟩ := located_of_resolveMember hr
  obtain ⟨hname, hid⟩ := hlocated.names
  obtain ⟨t, ht, hfollows⟩ := h _ hostName instId r.settings ⟨c, hc, key, hkey, hsplit⟩ hlocated
    (by rw [← hname, ← hid]; exact hremoved)
  obtain ⟨r', hr', rfl⟩ := resolveMember_of_located hsplit ht
  exact ⟨r', hr', hfollows⟩

theorem Changed.members (h : Changed inv e inv') (hcontained : inv.Contained e) :
    MembersKept e inv inv' := by
  refine membersKept_of h.rest.2 fun base hostName instId s hmember hs hremoved => ?_
  obtain ⟨hname, hid⟩ := hs.names
  cases h with
  | push hpush => exact ⟨s, hpush.located hs, rfl⟩
  | @rewrite h i ssh y z _ hrewrite =>
    by_cases hitself : hostName = h ∧ instId = i
    · obtain ⟨rfl, rfl⟩ := hitself
      have hreach := hcontained.2
      rw [if_pos rfl] at hreach
      have hkeeps : z.id = instId := hreach.resolve_right fun hnone => hnone hmember
      obtain ⟨t, ht, hssh, hx, hy⟩ := hrewrite.located_itself hkeeps hs
      refine ⟨t, ht, ?_⟩
      simp only [Follows]
      rw [if_pos ⟨hname, hid⟩]
      exact ⟨ht.names.1, hssh, by rw [hy, hx]⟩
    · obtain ⟨t, ht, hkept⟩ := hrewrite.located hitself hs
      refine ⟨t, ht, ?_⟩
      simp only [Follows]
      rw [if_neg (by rw [hname, hid]; exact hitself)]
      exact hkept.unchanged _ _
  | @move h i h' ssh y z mid _ hother hremove hpush =>
    have hreach := hcontained.2
    rw [if_neg hother] at hreach
    have hitself : ¬(hostName = h ∧ instId = i) := by
      rintro ⟨rfl, rfl⟩
      exact hreach.2 hmember
    refine ⟨s, hpush.located (hremove.located hreach.1 hitself hs), ?_⟩
    simp only [Follows]
    rw [if_neg (by rw [hname, hid]; exact hitself)]
    exact .inl rfl
  | @remove h i _ _ hremove =>
    have hitself : ¬(hostName = h ∧ instId = i) := by
      rintro ⟨rfl, rfl⟩
      exact hremoved rfl
    exact ⟨s, hremove.located hcontained hitself hs, rfl⟩

/-! ## Sound edits fit -/

theorem Pushed.fit (h : Pushed inv hostName ssh x inv') (hafter : inv'.Storable) :
    Fit hostName ssh x := by
  have hplaced : ∃ host ∈ inv'.host, host.name = hostName ∧ host.ssh = ssh ∧ x ∈ host.instances := by
    cases h with
    | onto hhost hssh _ =>
      refine ⟨_, List.mem_append_right _ List.mem_cons_self, by simpa using hhost.holds, hssh, ?_⟩
      exact List.mem_append_right _ (List.mem_singleton_self x)
    | new _ =>
      exact ⟨_, List.mem_append_right _ (List.mem_singleton_self _), rfl, rfl,
        List.mem_singleton_self x⟩
  obtain ⟨host, hmem, rfl, rfl, hx⟩ := hplaced
  have hhost := hafter.hosts host hmem
  exact ⟨hhost.name, hhost.ssh, (hhost.sound x hx).1, (hhost.sound x hx).2, hhost.features x hx⟩

theorem Rewritten.fit (h : Rewritten inv hostName instId ssh x y inv') (hafter : inv'.Storable) :
    Fit hostName ssh y := by
  cases h with
  | @mk front host back left right hhost _ _ =>
    have hname : host.name = hostName := by simpa using hhost.holds
    subst hname
    have hhost := hafter.hosts _ (List.mem_append_right front List.mem_cons_self)
    have hy : y ∈ left ++ y :: right := List.mem_append_right _ List.mem_cons_self
    exact ⟨hhost.name, hhost.ssh, (hhost.sound y hy).1, (hhost.sound y hy).2, hhost.features y hy⟩

theorem fit_of_filledFrom (h : Fit hostName ssh (filledFrom x y)) : Fit hostName ssh y := by
  refine ⟨h.host, h.ssh, h.id, h.publicHost, fun f hf => h.features f ?_⟩
  have hsome : ¬ y.features.isEmpty := by
    rw [List.isEmpty_iff]
    exact List.ne_nil_of_mem hf
  show f ∈ if y.features.isEmpty then x.features else y.features
  rw [if_neg hsome]
  exact hf

theorem located_of_hasInstance (h : inv.HasInstance hostName instId = true)
    (base : Option UInt16) : ∃ s, inv.Located base hostName instId s := by
  rcases firstAt_or_none (Named hostName) inv.host with ⟨front, host, back, hhost⟩ | hnone
  · rcases firstAt_or_none (WithId instId) host.instances with ⟨left, x, right, hinst⟩ | hnone
    · exact ⟨_, front, host, back, left, x, right, hhost, hinst, rfl⟩
    · cases (hasInstance_of_no_inst hhost hnone).symm.trans h
  · cases (hasInstance_of_no_host hnone).symm.trans h

theorem update_keeps_key {h i h' s : String} {z : Instance}
    (hhas : inv.HasInstance h i = true) (hclusters : inv'.clusters = inv.clusters)
    (hkept : MembersKept (.update h i h' s z) inv inv') (hmember : inv.Member h i) :
    h' = h ∧ z.id = i := by
  obtain ⟨c, hc, key, hkey, hsplit⟩ := hmember
  unfold MembersKept at hkept
  rw [hclusters] at hkept
  have hcluster := (List.forall₂_same.mp hkept c hc).2
  have hsame := List.forall₂_same.mp hcluster key hkey
  obtain ⟨before, hbefore⟩ := located_of_hasInstance hhas c.clusterPort
  obtain ⟨r, hr, rfl⟩ := resolveMember_of_located hsplit hbefore
  obtain ⟨r', hr', hfollows⟩ := hsame r hr nofun
  obtain ⟨_, _, hsplit', hafter⟩ := located_of_resolveMember hr'
  cases hsplit.symm.trans hsplit'
  simp only [Follows] at hfollows
  rw [if_pos hbefore.names] at hfollows
  obtain ⟨hname, -, hinst⟩ := hfollows
  exact ⟨hname.symm.trans hafter.names.1, (congrArg Instance.id hinst).symm.trans hafter.names.2⟩

theorem pinned_of_placed {k : Nat} (h : placed host none (k + 1) x = placed host none k x) :
    Pinned x := by
  have hshift (start : UInt16) :
      start + UInt16.ofNat (k + 1) * 100 ≠ start + UInt16.ofNat k * 100 := by
    rw [UInt16.ofNat_add]
    grind
  have hsome (port : Option UInt16) (start : UInt16)
      (heq : port.getD (start + UInt16.ofNat (k + 1) * 100) =
        port.getD (start + UInt16.ofNat k * 100)) : port.isSome := by
    cases port with
    | none => exact absurd heq (hshift start)
    | some port => rfl
  exact ⟨hsome _ _ (congrArg Settings.relayPort h), hsome _ _ (congrArg Settings.wsPort h),
    hsome _ _ (congrArg Settings.clusterPort h)⟩

/-- Where the fleet without an instance has, but for other hosts and the instance itself,
all entries it had, those behind the instance are where they were. -/
theorem Removed.laterPinned (h : Removed inv hostName instId x inv') (hinv : inv.Storable)
    (extra extra' : List Settings)
    (hextra : ∀ s ∈ extra, s.hostName ≠ hostName ∨ s.inst.id = instId)
    (hperm : (extra ++ inv'.fleet).Perm (extra' ++ inv.fleet)) :
    inv.LaterPinned hostName instId := by
  classical
  cases h with
  | @mk front host back left right hhost hinst =>
    have hname : host.name = hostName := by simpa using hhost.holds
    have hid : x.id = instId := by simpa using hinst.holds
    have hnodup : ((left ++ x :: right).map (·.id)).Nodup :=
      hinst.eq ▸ (hinv.hosts host hhost.mem).distinct
    rw [List.map_append, List.map_cons] at hnodup
    obtain ⟨hxright, hright⟩ := List.nodup_cons.mp hnodup.of_append_right
    intro host' hhost' y hy
    cases hhost.find?.symm.trans hhost'
    rw [hinst.behind] at hy
    obtain ⟨k, hk, rfl⟩ := List.getElem_of_mem hy
    let s := placed host none (k + 1 + left.length) right[k]
    have hbefore : s ∈ right.mapIdx fun k => placed host none (k + 1 + left.length) :=
      List.mem_mapIdx.mpr ⟨k, hk, rfl⟩
    have hnot : s ∉ extra := by
      intro hmem
      rcases hextra s hmem with hhost | hitself
      · exact hhost hname
      · exact hxright (List.mem_map.mpr ⟨right[k], hy, hitself.trans hid.symm⟩)
    have hafter : s ∈ right.mapIdx fun k => placed host none (k + left.length) := by
      have hcount := hperm.count_eq s
      rw [fleet_split hhost.eq, fleet_eq, List.flatMap_append, List.flatMap_append,
        keptHost_fleet] at hcount
      unfold Host.fleet at hcount
      rw [placed_instances, hinst.eq, List.mapIdx_append, List.mapIdx_append,
        List.mapIdx_cons] at hcount
      simp only [List.count_append, List.count_cons] at hcount
      have hnone : extra.count s = 0 := List.count_eq_zero.mpr hnot
      have hone := List.count_pos_iff.mpr hbefore
      refine List.count_pos_iff.mp ?_
      omega
    obtain ⟨j, hj, heq⟩ := List.mem_mapIdx.mp hafter
    have hsame : right[j] = right[k] := congrArg Settings.inst heq
    obtain rfl : j = k := (hright.of_map _).getElem_inj_iff.mp hsame
    refine @pinned_of_placed _ host (j + left.length) ?_
    rw [Nat.add_right_comm]
    exact heq.symm

theorem Changed.contained (h : Changed inv e inv') (hinv : inv.Storable)
    (hacc : inv.Accepted e) (hafter : inv'.Storable)
    (hothers : OthersKept e inv.fleet inv'.fleet) (hmembers : MembersKept e inv inv') :
    inv.Contained e := by
  have hclusters := h.rest.2
  cases h with
  | push hpush => exact hpush.fit hafter
  | rewrite hrewrite =>
    refine ⟨fit_of_filledFrom (hrewrite.fit hafter), ?_⟩
    rw [if_pos rfl, or_iff_not_imp_right, not_not]
    exact fun hmember => (update_keeps_key hacc.1 hclusters hmembers hmember).2
  | @move h i h' ssh y z mid _ hother hremove hpush =>
    refine ⟨fit_of_filledFrom (hpush.fit hafter), ?_⟩
    rw [if_neg hother]
    refine ⟨?_, fun hmember => hother (update_keeps_key hacc.1 hclusters hmembers hmember).1⟩
    obtain ⟨s, t, rest, rest', -, hsid, htname, -, -, hrest, hrest', hkept⟩ := hothers
    obtain ⟨t', htname', -, -, hmid⟩ := hpush.fleet
    have hsame : rest = rest' := by
      rw [← congrFun₂ List.forall₂_eq_eq_eq rest rest']
      refine hkept.imp fun s t h => ?_
      rcases h with h | ⟨_, _, _, hupdate, -⟩
      · exact h.symm
      · injection hupdate with hold _ hnew
        exact absurd (hnew.trans hold.symm) hother
    subst hsame
    refine hremove.laterPinned hinv [s, t'] [t] ?_ ?_
    · intro s' hs'
      rcases List.mem_cons.mp hs' with rfl | hs'
      · exact .inr hsid
      · rw [List.mem_singleton.mp hs', htname']
        exact .inl hother
    · calc (s :: t' :: mid.fleet).Perm (s :: t :: rest) :=
            (hmid.perm.symm.trans hrest'.perm).cons s
        List.Perm _ (t :: s :: rest) := .swap _ _ _
        List.Perm _ (t :: inv.fleet) := hrest.perm.symm.cons t
  | remove hremove =>
    obtain ⟨s, -, hsid, hrest⟩ := hothers
    refine hremove.laterPinned hinv [s] [] ?_ hrest.perm.symm
    exact List.forall_mem_singleton.mpr (.inr hsid)

/-! ## Runs -/

theorem durable_iff (inv : Inventory) : load L (inv.save L) = .ok inv ↔ inv.Storable :=
  (load_save_iff L inv).trans (storable_iff inv).symm

theorem editSound_of_fits (hinv : inv.Storable) (hfits : inv.EditFits e) : EditSound L inv e := by
  rcases edit_decided hinv e with ⟨-, err, herror⟩ | ⟨hacc, next, hchanged, hnext⟩
  · have hstep : inv.step e = inv := congrArg Prod.fst herror
    have hresult : (inv.edit e).2 = .error err := congrArg Prod.snd herror
    refine ⟨fun _ _ => hstep, fun hok => ?_, fun hok => ?_, by rw [hstep], ?_⟩
    · cases hresult.symm.trans hok
    · cases hresult.symm.trans hok
    · rw [hstep]
      exact (durable_iff L inv).mpr hinv
  · have hstep : inv.step e = next := congrArg Prod.fst hnext
    have hstorable := hchanged.storable hinv (hfits hacc)
    have hvalid : (inv.edit e).2 = .ok () :=
      (congrArg Prod.snd hnext).trans ((storable_iff next).mp hstorable).1
    refine ⟨fun err herror => ?_, fun _ => ?_, fun _ => ?_, ?_, ?_⟩
    · cases hvalid.symm.trans herror
    · rw [hstep]
      exact hchanged.others (hfits hacc)
    · rw [hstep]
      exact hchanged.members (hfits hacc)
    · rw [hstep]
      exact hchanged.rest.1
    · rw [hstep]
      exact (durable_iff L next).mpr hstorable

theorem EditSound.fits (h : EditSound L inv e) (hinv : inv.Storable) : inv.EditFits e := by
  intro hacc
  rcases edit_decided hinv e with ⟨hno, -⟩ | ⟨-, next, hchanged, hnext⟩
  · exact absurd hacc hno
  · have hstep : inv.step e = next := congrArg Prod.fst hnext
    have hafter : next.Storable := (durable_iff L next).mp (hstep ▸ h.durable)
    have hvalid : (inv.edit e).2 = .ok () :=
      (congrArg Prod.snd hnext).trans ((storable_iff next).mp hafter).1
    exact hchanged.contained hinv hacc hafter (hstep ▸ h.others hvalid) (hstep ▸ h.members hvalid)

/-- Along a run every edit is atomic, local and durable exactly when every edit fits. -/
theorem edits_are_atomic_local_durable_iff (inv : Inventory) (edits : List InventoryEdit)
    (hvalid : inv.validate = .ok ()) :
    (load L (inv.save L) = .ok inv ∧ Along Inventory.step (EditSound L) inv edits) ↔
      inv.FeaturesOn ∧ Along Inventory.step EditFits inv edits := by
  have hstart : inv.Storable ↔ inv.FeaturesOn :=
    (storable_iff inv).trans (and_iff_right hvalid)
  rw [durable_iff, hstart]
  refine and_congr_right fun hfeatures => ?_
  have hafter : ∀ inv e, EditSound L inv e → (inv.step e).Storable := fun inv e h =>
    (durable_iff L _).mp h.durable
  constructor
  · intro hsound
    exact hsound.imp_inv Storable (hstart.mpr hfeatures) (fun inv e _ h => hafter inv e h)
      fun _ _ hinv h => h.fits L hinv
  · intro hfits
    exact hfits.imp_inv Storable (hstart.mpr hfeatures)
      (fun inv e hinv h => hafter inv e (editSound_of_fits L hinv h))
      fun _ _ hinv h => editSound_of_fits L hinv h

/-- Two instances, of which a cluster has the first as its member. -/
def edge : Inventory where
  defaults := .default
  host := [{
    name := "edge"
    ssh := "conquerd@edge"
    arch := none
    instances := [freshInstance "a" [], freshInstance "b" []] }]
  clusters := [{ id := "eu", members := ["edge/a"], clusterPort := none }]

theorem edge_edits_are_atomic_local_durable :
    load .plain (edge.save .plain) = .ok edge ∧
      Along Inventory.step (EditSound .plain) edge
        [.push "edge-2" "conquerd@edge-2" (freshInstance "c" []),
          .update "edge" "b" "edge-2" "conquerd@edge-2" (freshInstance "b" []),
          .update "edge" "a" "edge" "root@edge" (freshInstance "a" []),
          .push "edge-2" "conquerd@edge" (freshInstance "d" []),
          .remove "edge-2" "b"] :=
  (edits_are_atomic_local_durable_iff .plain edge _ rfl).mpr ⟨by decide, by decide⟩

/-- Of edits that do not fit: a blank id is refused after it is in, a removal moves the ports
of the next instance, a new id loses its key, a disabled feature comes back enabled. -/
theorem edge_edits_reach_further :
    edge.validate = .ok () ∧ (∀ c ∈ edge.clusters, ∃ rs, edge.resolveClusterMembers c = .ok rs) ∧
      ¬ EditSound .plain edge (.push "edge-2" "conquerd@edge-2" (freshInstance "" [])) ∧
      ¬ EditSound .plain edge (.remove "edge" "a") ∧
      ¬ EditSound .plain edge (.update "edge" "a" "edge" "conquerd@edge" (freshInstance "c" [])) ∧
      ¬ EditSound .plain edge (.push "edge-2" "conquerd@edge-2"
        (freshInstance "c" [⟨"core.chat.v1", false, none, none⟩])) := by
  refine ⟨rfl, List.forall_mem_singleton.mpr ⟨_, rfl⟩, fun h => ?_, fun h => ?_, fun h => ?_,
    fun h => ?_⟩
  · have hsame := congrArg (fun inv => inv.host.length) (h.atomic _ rfl)
    cases hsame
  · obtain ⟨s, -, -, front, back, hbefore, hafter⟩ := h.others rfl
    have hmoved : ("b", (3478 : UInt16)) ∈
        ((edge.step (.remove "edge" "a")).fleet.map fun s => (s.inst.id, s.relayPort)) := by decide
    have hkept : ("b", (3478 : UInt16)) ∉ edge.fleet.map fun s => (s.inst.id, s.relayPort) := by
      decide
    refine hkept ?_
    rw [hafter] at hmoved
    rw [hbefore]
    simp only [List.map_append, List.map_cons, List.mem_append, List.mem_cons] at hmoved ⊢
    exact hmoved.imp_right .inr
  · have hmembers := h.members rfl
    cases hmembers with
    | cons hcluster _ =>
      cases hcluster.2 with
      | cons hkey _ =>
        obtain ⟨r, hr, -⟩ := hkey _ rfl nofun
        cases hr
  · have hfeatures := ((load_save_iff _ _).mp h.durable).2
    revert hfeatures
    decide

end Inventory

end ConquerD.Manager
