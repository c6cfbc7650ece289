import ConquerD.Lib.Slice
import ConquerD.Manager.Verify.InventoryRuns

/-!
# Ports of the fleet

Each of the three services of an instance has a port: one that is pinned, or a
base and a hundred for each place in the list of the host. Nothing compares the
ports that come out. The sums may leave sixteen bits, a cluster may set another
base than the one an instance is resolved with alone, and a pin or the two
progressions of one protocol may meet.
-/

namespace ConquerD.Manager

open Lib.Slice

/-! ## Resolution with checked sums -/

def addU16 (a b : UInt16) : Option UInt16 :=
  if a.toNat + b.toNat < 65536 then some (a + b) else none

def mulU16 (a b : UInt16) : Option UInt16 :=
  if a.toNat * b.toNat < 65536 then some (a * b) else none

/-- A base and a hundred for each place; the place is cut to sixteen bits first. -/
def portFrom (base : UInt16) (index : Nat) : Option UInt16 :=
  mulU16 (UInt16.ofNat index) 100 >>= fun offset => addU16 base offset

def pinOr (pin : Option UInt16) (base : UInt16) (index : Nat) : Option UInt16 :=
  match pin with
  | some port => some port
  | none => portFrom base index

def resolveAtChecked (host : Host) (base : Option UInt16) (index : Nat) (inst : Instance) :
    Option ResolvedInstance :=
  pinOr inst.relayPort 3478 index >>= fun relayPort =>
    pinOr inst.wsPort 34935 index >>= fun wsPort =>
      pinOr inst.clusterPort (base.getD 4478) index >>= fun clusterPort =>
        some ⟨host, inst, relayPort, wsPort, clusterPort⟩

def Host.places (host : Host) : List (Nat × Instance) :=
  host.instances.mapIdx Prod.mk

namespace Inventory

variable (inv : Inventory)

def resolveInstancesChecked (selector : Selector) :
    Option (Except InventoryError (List ResolvedInstance)) :=
  (((inv.host.filter fun host => Selector.wants selector.host host.name).flatMap fun host =>
      (host.places.filter fun p => Selector.wants selector.instId p.2.id).map fun p =>
        (host, p)).mapM fun e => resolveAtChecked e.1 none e.2.1 e.2.2) >>= fun out =>
    some (if out.isEmpty then .error .nothingMatched else .ok out)

/-- Where the instance is that a key names. -/
def memberPlace (cluster : ClusterDef) (key : String) :
    Except InventoryError (Host × Nat × Instance) :=
  match splitOnce '/' key with
  | none => .error (.malformedMember cluster.id key)
  | some (hostName, instId) =>
    match inv.host.find? (·.name == hostName) with
    | none => .error (.hostNotFound hostName)
    | some host =>
      match host.places.find? (·.2.id == instId) with
      | none => .error (.instanceNotFound instId hostName)
      | some (index, inst) => .ok (host, index, inst)

def resolveMembersChecked (inv : Inventory) (cluster : ClusterDef) :
    List String → Option (Except InventoryError (List ResolvedInstance))
  | [] => some (.ok [])
  | key :: keys =>
    match inv.memberPlace cluster key with
    | .error e => some (.error e)
    | .ok (host, index, inst) =>
      resolveAtChecked host cluster.clusterPort index inst >>= fun r =>
        resolveMembersChecked inv cluster keys >>= fun out => some (out.map (r :: ·))

def resolveClusterMembersChecked (cluster : ClusterDef) :
    Option (Except InventoryError (List ResolvedInstance)) :=
  inv.resolveMembersChecked cluster cluster.members

end Inventory

/-! ## Where the sums leave sixteen bits -/

/-- The port of a service as a number: its pin, or what follows from the place. -/
def portNat (base : Nat) (pin : Option UInt16) (index : Nat) : Nat :=
  match pin with
  | some port => port.toNat
  | none => base + index % 65536 * 100

/-- What follows from the place is a port. -/
def PortFits (base : Nat) (pin : Option UInt16) (index : Nat) : Prop :=
  pin = none → base + index % 65536 * 100 < 65536

theorem offset_toNat (index : Nat) : (UInt16.ofNat index).toNat = index % 65536 := by
  rw [UInt16.toNat_ofNat']

theorem portFrom_panicsIff (base : UInt16) (index : Nat) :
    PanicsIff (portFrom base index) (base + UInt16.ofNat index * 100)
      (65536 ≤ base.toNat + index % 65536 * 100) := by
  have hoffset := offset_toNat index
  have h100 : (100 : UInt16).toNat = 100 := rfl
  unfold portFrom mulU16
  rw [hoffset, h100]
  by_cases hmul : index % 65536 * 100 < 65536
  · have hprod : (UInt16.ofNat index * 100).toNat = index % 65536 * 100 := by
      rw [UInt16.toNat_mul, hoffset, h100, Nat.mod_eq_of_lt hmul]
    rw [if_pos hmul, some_bind, addU16, hprod]
    constructor
    · intro hbad
      exact if_neg (by omega)
    · intro hok
      exact if_pos (by omega)
  · rw [if_neg hmul]
    exact ⟨fun _ => rfl, fun hok => absurd hok (by omega)⟩

theorem pinOr_panicsIff (pin : Option UInt16) (base : UInt16) (index : Nat) :
    PanicsIff (pinOr pin base index) (pin.getD (base + UInt16.ofNat index * 100))
      (¬ PortFits base.toNat pin index) := by
  cases pin with
  | some port => exact .of_eq rfl (not_not.mpr nofun)
  | none =>
    refine (portFrom_panicsIff base index).congr ?_
    simp [PortFits]

/-- The sums for one instance stay in sixteen bits. -/
structure PlaceFits (base : Nat) (inst : Instance) (index : Nat) : Prop where
  relay : PortFits 3478 inst.relayPort index
  ws : PortFits 34935 inst.wsPort index
  cluster : PortFits base inst.clusterPort index

/-- The base of a cluster's ports. -/
def clusterBase (base : Option UInt16) : Nat :=
  (base.getD 4478).toNat

theorem resolveAt_panicsIff (host : Host) (base : Option UInt16) (index : Nat) (inst : Instance) :
    PanicsIff (resolveAtChecked host base index inst) (resolveAt host base index inst)
      (¬ PlaceFits (clusterBase base) inst index) := by
  have hcluster : inst.clusterPort.getD (base.getD 4478 + UInt16.ofNat index * 100) =
      (resolveAt host base index inst).clusterPort := by
    cases base <;> rfl
  have hlast : PanicsIff
      (pinOr inst.clusterPort (base.getD 4478) index >>= fun clusterPort =>
        some (⟨host, inst, inst.relayPort.getD (defaultRelayPort index),
          inst.wsPort.getD (defaultWsPort index), clusterPort⟩ : ResolvedInstance))
      (resolveAt host base index inst) (¬ PortFits (clusterBase base) inst.clusterPort index) := by
    refine (pinOr_panicsIff inst.clusterPort (base.getD 4478) index).andThen ?_
    rw [hcluster]
    rfl
  refine ((pinOr_panicsIff inst.relayPort 3478 index).bind
    ((pinOr_panicsIff inst.wsPort 34935 index).bind hlast)).congr ?_
  constructor
  · rintro (h | h | h) hfits
    · exact h hfits.relay
    · exact h hfits.ws
    · exact h hfits.cluster
  · intro h
    by_contra hnot
    simp only [not_or, not_not] at hnot
    exact h ⟨hnot.1, hnot.2.1, hnot.2.2⟩

theorem mapM_panicsIff {α β : Type} {f : α → Option β} {g : α → β} {bad : α → Prop}
    (h : ∀ a, PanicsIff (f a) (g a) (bad a)) (as : List α) :
    PanicsIff (as.mapM f) (as.map g) (∃ a ∈ as, bad a) := by
  induction as with
  | nil => exact .of_eq rfl (by simp)
  | cons a as ih =>
    rw [List.mapM_cons]
    refine ((h a).bind (ih.followed fun bs => g a :: bs)).congr ?_
    simp

theorem mem_places {host : Host} {index : Nat} {inst : Instance} :
    (index, inst) ∈ host.places ↔ host.instances[index]? = some inst := by
  rw [Host.places, List.mem_mapIdx]
  constructor
  · rintro ⟨i, hi, heq⟩
    cases heq
    exact List.getElem?_eq_getElem hi
  · intro h
    obtain ⟨hi, rfl⟩ := List.getElem?_eq_some_iff.mp h
    exact ⟨index, hi, rfl⟩

theorem places_map {host : Host} {β : Type*} (f : Nat → Instance → β) :
    host.instances.mapIdx f = host.places.map fun p => f p.1 p.2 := by
  rw [Host.places]
  refine List.ext_getElem (by simp) fun i _ _ => by simp

namespace Inventory

variable {inv : Inventory}

theorem resolveInstances_panicsIff (inv : Inventory) (selector : Selector) :
    PanicsIff (inv.resolveInstancesChecked selector) (inv.resolveInstances selector)
      (∃ host ∈ inv.host, Selector.wants selector.host host.name = true ∧
        ∃ p ∈ host.places, Selector.wants selector.instId p.2.id = true ∧
          ¬ PlaceFits 4478 p.2 p.1) := by
  have hmap : (((inv.host.filter fun host => Selector.wants selector.host host.name).flatMap
      fun host => (host.places.filter fun p => Selector.wants selector.instId p.2.id).map fun p =>
        (host, p)).map fun e => resolveAt e.1 none e.2.1 e.2.2) =
      (inv.host.filter fun host => Selector.wants selector.host host.name).flatMap fun host =>
        (host.instances.mapIdx (resolveAt host none)).filter fun r =>
          Selector.wants selector.instId r.inst.id := by
    rw [List.map_flatMap]
    refine List.flatMap_congr fun host _ => ?_
    rw [places_map, List.filter_map, List.map_map]
    rfl
  have hplain := (mapM_panicsIff (fun e : Host × Nat × Instance =>
    resolveAt_panicsIff e.1 none e.2.1 e.2.2)
    ((inv.host.filter fun host => Selector.wants selector.host host.name).flatMap fun host =>
      (host.places.filter fun p => Selector.wants selector.instId p.2.id).map fun p =>
        (host, p))).followed fun out =>
      if out.isEmpty then (.error .nothingMatched : Except InventoryError _) else .ok out
  rw [hmap] at hplain
  refine PanicsIff.congr hplain ?_
  constructor
  · rintro ⟨e, hmem, hbad⟩
    obtain ⟨host, hhost, he⟩ := List.mem_flatMap.mp hmem
    obtain ⟨p, hp, rfl⟩ := List.mem_map.mp he
    obtain ⟨hplace, hwanted⟩ := List.mem_filter.mp hp
    obtain ⟨hin, hname⟩ := List.mem_filter.mp hhost
    exact ⟨host, hin, hname, p, hplace, hwanted, hbad⟩
  · rintro ⟨host, hin, hname, p, hplace, hwanted, hbad⟩
    exact ⟨(host, p), List.mem_flatMap.mpr ⟨host, List.mem_filter.mpr ⟨hin, hname⟩,
      List.mem_map.mpr ⟨p, List.mem_filter.mpr ⟨hplace, hwanted⟩, rfl⟩⟩, hbad⟩

theorem resolveMember_eq (c : ClusterDef) (key : String) :
    inv.resolveMember c key =
      (inv.memberPlace c key).map fun e => resolveAt e.1 c.clusterPort e.2.1 e.2.2 := by
  unfold resolveMember memberPlace
  cases splitOnce '/' key with
  | none => rfl
  | some names =>
    obtain ⟨hostName, instId⟩ := names
    simp only
    cases inv.host.find? (·.name == hostName) with
    | none => rfl
    | some host =>
      simp only
      rw [places_map, List.find?_map]
      have hcomp : ((fun r : ResolvedInstance => r.inst.id == instId) ∘ fun p : Nat × Instance =>
          resolveAt host c.clusterPort p.1 p.2) = fun p => p.2.id == instId := rfl
      rw [hcomp]
      cases host.places.find? (fun p => p.2.id == instId) with
      | none => rfl
      | some p => rfl

/-- A key is found and the sums for its instance stay in sixteen bits. -/
def MemberFits (inv : Inventory) (c : ClusterDef) (key : String) : Prop :=
  ∃ e, inv.memberPlace c key = .ok e ∧ PlaceFits (clusterBase c.clusterPort) e.2.2 e.2.1

/-- A member's sum leaves sixteen bits, with all members before it found. -/
def OverflowsAt (inv : Inventory) (c : ClusterDef) (keys : List String) : Prop :=
  ∃ before key after e, keys = before ++ key :: after ∧ (∀ k ∈ before, inv.MemberFits c k) ∧
    inv.memberPlace c key = .ok e ∧ ¬ PlaceFits (clusterBase c.clusterPort) e.2.2 e.2.1

theorem resolveMembers_panicsIff (c : ClusterDef) (keys : List String) :
    PanicsIff (inv.resolveMembersChecked c keys) (keys.mapM (inv.resolveMember c))
      (inv.OverflowsAt c keys) := by
  induction keys with
  | nil =>
    refine .of_eq rfl ?_
    rintro ⟨before, key, after, e, heq, -⟩
    simp at heq
  | cons key keys ih =>
    rw [resolveMembersChecked, List.mapM_cons, resolveMember_eq]
    cases hplace : inv.memberPlace c key with
    | error err =>
      refine .of_eq rfl ?_
      rintro ⟨before, k, after, e, heq, hbefore, hk, -⟩
      cases before with
      | nil =>
        cases heq
        rw [hplace] at hk
        cases hk
      | cons b before =>
        cases heq
        obtain ⟨e, he, -⟩ := hbefore key List.mem_cons_self
        rw [hplace] at he
        cases he
    | ok e =>
      obtain ⟨host, index, inst⟩ := e
      have hplain : (do
          let r ← (Except.ok (host, index, inst) : Except InventoryError _).map fun e =>
            resolveAt e.1 c.clusterPort e.2.1 e.2.2
          let rs ← keys.mapM (inv.resolveMember c)
          pure (r :: rs) : Except InventoryError (List ResolvedInstance)) =
          (keys.mapM (inv.resolveMember c)).map
            (resolveAt host c.clusterPort index inst :: ·) := by
        cases keys.mapM (inv.resolveMember c) <;> rfl
      rw [hplain]
      refine ((resolveAt_panicsIff host c.clusterPort index inst).bind
        (ih.followed fun out => out.map (resolveAt host c.clusterPort index inst :: ·))).congr ?_
      constructor
      · rintro (hbad | ⟨before, k, after, e, rfl, hbefore, hk, hbad⟩)
        · exact ⟨[], key, keys, _, rfl, by simp, hplace, hbad⟩
        · by_cases hfits : PlaceFits (clusterBase c.clusterPort) inst index
          · refine ⟨key :: before, k, after, e, rfl, fun k' hk' => ?_, hk, hbad⟩
            rcases List.mem_cons.mp hk' with rfl | hk'
            · exact ⟨_, hplace, hfits⟩
            · exact hbefore k' hk'
          · exact ⟨[], key, _, _, rfl, by simp, hplace, hfits⟩
      · rintro ⟨before, k, after, e, heq, hbefore, hk, hbad⟩
        cases before with
        | nil =>
          cases heq
          rw [hplace] at hk
          cases hk
          exact .inl hbad
        | cons b before =>
          cases heq
          exact .inr ⟨before, k, after, e, rfl,
            fun k' hk' => hbefore k' (List.mem_cons_of_mem _ hk'), hk, hbad⟩

/-! ## What is resolved -/

/-- What either resolver returns. -/
def Resolved (inv : Inventory) (r : ResolvedInstance) : Prop :=
  (∃ selector out, inv.resolveInstances selector = .ok out ∧ r ∈ out) ∨
    ∃ c ∈ inv.clusters, ∃ out, inv.resolveClusterMembers c = .ok out ∧ r ∈ out

/-- The claims that the manager makes of its ports. -/
structure PortsRight (inv : Inventory) : Prop where
  noOverflow : ∀ selector, inv.resolveInstancesChecked selector ≠ none
  noMemberOverflow : ∀ c ∈ inv.clusters, inv.resolveClusterMembersChecked c ≠ none
  agree : ∀ r r', inv.Resolved r → inv.Resolved r' → r.host = r'.host → r.inst = r'.inst →
    r.relayPort = r'.relayPort ∧ r.wsPort = r'.wsPort ∧ r.clusterPort = r'.clusterPort
  apart : ∀ r r', inv.Resolved r → inv.Resolved r' → r.host = r'.host → r.inst ≠ r'.inst →
    r.relayPort ≠ r'.relayPort ∧ r.wsPort ≠ r'.wsPort ∧ r.clusterPort ≠ r'.clusterPort
  udpApart : ∀ r r', inv.Resolved r → inv.Resolved r' → r.host = r'.host →
    r.relayPort ≠ r'.clusterPort

theorem resolved_alone_iff {r : ResolvedInstance} :
    (∃ selector out, inv.resolveInstances selector = .ok out ∧ r ∈ out) ↔
      ∃ host ∈ inv.host, ∃ p ∈ host.places, r = resolveAt host none p.1 p.2 := by
  constructor
  · rintro ⟨selector, out, hout, hr⟩
    unfold resolveInstances at hout
    simp only at hout
    split at hout
    · cases hout
    · cases hout
      obtain ⟨host, hhost, hr⟩ := List.mem_flatMap.mp hr
      have hr := (List.mem_filter.mp hr).1
      rw [places_map] at hr
      obtain ⟨p, hp, rfl⟩ := List.mem_map.mp hr
      exact ⟨host, (List.mem_filter.mp hhost).1, p, hp, rfl⟩
  · rintro ⟨host, hhost, p, hp, rfl⟩
    have hmem : resolveAt host none p.1 p.2 ∈
        (inv.host.filter fun host => Selector.wants none host.name).flatMap fun host =>
          (host.instances.mapIdx (resolveAt host none)).filter fun r =>
            Selector.wants none r.inst.id := by
      refine List.mem_flatMap.mpr ⟨host, List.mem_filter.mpr ⟨hhost, rfl⟩,
        List.mem_filter.mpr ⟨?_, rfl⟩⟩
      rw [places_map]
      exact List.mem_map.mpr ⟨p, hp, rfl⟩
    refine ⟨⟨none, none⟩, _, if_neg fun hempty => ?_, hmem⟩
    rw [List.isEmpty_iff.mp hempty] at hmem
    cases hmem

theorem mapM_ok {α β ε : Type} {f : α → Except ε β} {as : List α} {bs : List β}
    (h : as.mapM f = .ok bs) : ∀ b, b ∈ bs ↔ ∃ a ∈ as, f a = .ok b := by
  induction as generalizing bs with
  | nil =>
    cases h
    simp
  | cons a as ih =>
    rw [List.mapM_cons] at h
    cases hb : f a with
    | error e =>
      rw [hb] at h
      cases h
    | ok b =>
      rw [hb] at h
      cases hbs : as.mapM f with
      | error e =>
        rw [hbs] at h
        cases h
      | ok bs' =>
        rw [hbs] at h
        cases h
        intro b'
        rw [List.mem_cons, ih hbs]
        simp [hb, eq_comm]

def AllFound (inv : Inventory) (c : ClusterDef) : Prop :=
  ∀ key ∈ c.members, ∃ e, inv.memberPlace c key = .ok e

theorem resolveClusterMembers_ok {c : ClusterDef} (h : inv.AllFound c) :
    ∃ out, inv.resolveClusterMembers c = .ok out := by
  have hkeys : ∀ keys : List String, (∀ key ∈ keys, ∃ e, inv.memberPlace c key = .ok e) →
      ∃ out, keys.mapM (inv.resolveMember c) = .ok out := by
    intro keys hkeys
    induction keys with
    | nil => exact ⟨[], rfl⟩
    | cons key keys ih =>
      obtain ⟨out, hout⟩ := ih fun k hk => hkeys k (List.mem_cons_of_mem _ hk)
      obtain ⟨e, he⟩ := hkeys key List.mem_cons_self
      refine ⟨resolveAt e.1 c.clusterPort e.2.1 e.2.2 :: out, ?_⟩
      rw [List.mapM_cons, resolveMember_eq, he, hout]
      rfl
  exact hkeys c.members h

theorem allFound_of_ok {c : ClusterDef} {out : List ResolvedInstance}
    (h : inv.resolveClusterMembers c = .ok out) : inv.AllFound c := by
  have hkeys : ∀ (keys : List String) (out : List ResolvedInstance),
      keys.mapM (inv.resolveMember c) = .ok out →
        ∀ key ∈ keys, ∃ e, inv.memberPlace c key = .ok e := by
    intro keys
    induction keys with
    | nil => simp
    | cons key keys ih =>
      intro out hout k hk
      rw [List.mapM_cons, resolveMember_eq] at hout
      cases hplace : inv.memberPlace c key with
      | error e =>
        rw [hplace] at hout
        cases hout
      | ok e =>
        rcases List.mem_cons.mp hk with rfl | hk
        · exact ⟨e, hplace⟩
        · cases hrest : keys.mapM (inv.resolveMember c) with
          | error err =>
            rw [hplace, hrest] at hout
            cases hout
          | ok rest => exact ih rest hrest k hk
  exact hkeys c.members out h

theorem resolved_member_iff {r : ResolvedInstance} :
    (∃ c ∈ inv.clusters, ∃ out, inv.resolveClusterMembers c = .ok out ∧ r ∈ out) ↔
      ∃ c ∈ inv.clusters, inv.AllFound c ∧ ∃ key ∈ c.members, ∃ e,
        inv.memberPlace c key = .ok e ∧ r = resolveAt e.1 c.clusterPort e.2.1 e.2.2 := by
  constructor
  · rintro ⟨c, hc, out, hout, hr⟩
    obtain ⟨key, hkey, hrkey⟩ := (mapM_ok hout r).mp hr
    rw [resolveMember_eq] at hrkey
    cases hplace : inv.memberPlace c key with
    | error e =>
      rw [hplace] at hrkey
      cases hrkey
    | ok e =>
      rw [hplace] at hrkey
      exact ⟨c, hc, allFound_of_ok hout, key, hkey, e, hplace, (Except.ok.inj hrkey).symm⟩
  · rintro ⟨c, hc, hfound, key, hkey, e, hplace, rfl⟩
    obtain ⟨out, hout⟩ := resolveClusterMembers_ok hfound
    refine ⟨c, hc, out, hout, (mapM_ok hout _).mpr ⟨key, hkey, ?_⟩⟩
    rw [resolveMember_eq, hplace]
    rfl

theorem mem_of_memberPlace {c : ClusterDef} {key : String} {e : Host × Nat × Instance}
    (h : inv.memberPlace c key = .ok e) : e.1 ∈ inv.host ∧ (e.2.1, e.2.2) ∈ e.1.places := by
  unfold memberPlace at h
  split at h
  · cases h
  · split at h
    · cases h
    · next host hhost =>
      split at h
      · cases h
      · next index inst hplace =>
        cases h
        exact ⟨List.mem_of_find?_eq_some hhost, List.mem_of_find?_eq_some hplace⟩

end Inventory

/-! ## When the ports are right -/

theorem getD_toNat {pin : Option UInt16} {base : UInt16} {index : Nat}
    (h : PortFits base.toNat pin index) :
    (pin.getD (base + UInt16.ofNat index * 100)).toNat = portNat base.toNat pin index := by
  cases pin with
  | some port => rfl
  | none =>
    have hfits := h rfl
    have h100 : (100 : UInt16).toNat = 100 := rfl
    rw [Option.getD_none, UInt16.toNat_add, UInt16.toNat_mul, offset_toNat, h100, portNat]
    omega

theorem resolveAt_ports {host : Host} {base : Option UInt16} {index : Nat} {inst : Instance}
    (h : PlaceFits (clusterBase base) inst index) :
    (resolveAt host base index inst).relayPort.toNat = portNat 3478 inst.relayPort index ∧
      (resolveAt host base index inst).wsPort.toNat = portNat 34935 inst.wsPort index ∧
      (resolveAt host base index inst).clusterPort.toNat =
        portNat (clusterBase base) inst.clusterPort index := by
  have hcluster : (resolveAt host base index inst).clusterPort =
      inst.clusterPort.getD (base.getD 4478 + UInt16.ofNat index * 100) := by
    cases base <;> rfl
  exact ⟨getD_toNat h.relay, getD_toNat h.ws, hcluster ▸ getD_toNat h.cluster⟩

/-- The ports of one service at two places differ. Two that are pinned nowhere
differ with the places, as far as sixteen bits tell them. -/
def ServiceClear (base : Nat) (pin : Option UInt16) (index : Nat) (pin' : Option UInt16)
    (index' : Nat) : Prop :=
  match pin, pin' with
  | some port, some port' => port ≠ port'
  | some port, none => port.toNat ≠ base + index' % 65536 * 100
  | none, some port' => base + index % 65536 * 100 ≠ port'.toNat
  | none, none => index % 65536 ≠ index' % 65536

/-- A relay port differs from a cluster port. Of two that are pinned nowhere the
relay port is not the one ten places behind. -/
def UdpClear (relay : Option UInt16) (index : Nat) (cluster : Option UInt16) (index' : Nat) :
    Prop :=
  match relay, cluster with
  | some port, some port' => port ≠ port'
  | some port, none => port.toNat ≠ 4478 + index' % 65536 * 100
  | none, some port' => 3478 + index % 65536 * 100 ≠ port'.toNat
  | none, none => index % 65536 ≠ index' % 65536 + 10

theorem serviceClear_iff (base : Nat) (pin : Option UInt16) (index : Nat) (pin' : Option UInt16)
    (index' : Nat) :
    ServiceClear base pin index pin' index' ↔
      portNat base pin index ≠ portNat base pin' index' := by
  cases pin with
  | some port =>
    cases pin' with
    | some port' => exact not_congr UInt16.toNat_inj.symm
    | none => exact Iff.rfl
  | none =>
    cases pin' with
    | some port' => exact Iff.rfl
    | none =>
      simp only [ServiceClear, portNat]
      omega

theorem udpClear_iff (relay : Option UInt16) (index : Nat) (cluster : Option UInt16)
    (index' : Nat) :
    UdpClear relay index cluster index' ↔
      portNat 3478 relay index ≠ portNat 4478 cluster index' := by
  cases relay with
  | some port =>
    cases cluster with
    | some port' => exact not_congr UInt16.toNat_inj.symm
    | none => exact Iff.rfl
  | none =>
    cases cluster with
    | some port' => exact Iff.rfl
    | none =>
      simp only [UdpClear, portNat]
      omega

/-- No two services of a host meet, by their pins and places. -/
structure Host.Spaced (host : Host) : Prop where
  fits : ∀ p ∈ host.places, PlaceFits 4478 p.2 p.1
  relay : ∀ p ∈ host.places, ∀ q ∈ host.places, p.1 ≠ q.1 →
    ServiceClear 3478 p.2.relayPort p.1 q.2.relayPort q.1
  ws : ∀ p ∈ host.places, ∀ q ∈ host.places, p.1 ≠ q.1 →
    ServiceClear 34935 p.2.wsPort p.1 q.2.wsPort q.1
  cluster : ∀ p ∈ host.places, ∀ q ∈ host.places, p.1 ≠ q.1 →
    ServiceClear 4478 p.2.clusterPort p.1 q.2.clusterPort q.1
  udp : ∀ p ∈ host.places, ∀ q ∈ host.places, UdpClear p.2.relayPort p.1 q.2.clusterPort q.1

namespace Inventory

variable {inv : Inventory}

/-- A cluster whose members are all found has the usual base, unless they have
their ports pinned; another cluster has no sum that leaves sixteen bits before
the member that is not found. -/
structure ClusterSpaced (inv : Inventory) (c : ClusterDef) : Prop where
  fits : ¬ inv.OverflowsAt c c.members
  base : inv.AllFound c → ∀ key ∈ c.members, ∀ e, inv.memberPlace c key = .ok e →
    e.2.2.clusterPort = none → clusterBase c.clusterPort = 4478

structure PortsSpaced (inv : Inventory) : Prop where
  hosts : ∀ host ∈ inv.host, host.Spaced
  clusters : ∀ c ∈ inv.clusters, inv.ClusterSpaced c

/-- What is known of an instance that was resolved, when the ports are spaced. -/
structure Placed (host : Host) (p : Nat × Instance) (r : ResolvedInstance) : Prop where
  host_eq : r.host = host
  inst_eq : r.inst = p.2
  relay : r.relayPort.toNat = portNat 3478 p.2.relayPort p.1
  ws : r.wsPort.toNat = portNat 34935 p.2.wsPort p.1
  cluster : r.clusterPort.toNat = portNat 4478 p.2.clusterPort p.1

theorem placed_alone {host : Host} (h : host.Spaced) {p : Nat × Instance} (hp : p ∈ host.places) :
    Placed host p (resolveAt host none p.1 p.2) := by
  obtain ⟨hrelay, hws, hcluster⟩ := @resolveAt_ports host none p.1 p.2 (h.fits p hp)
  exact ⟨rfl, rfl, hrelay, hws, hcluster⟩

theorem PortsSpaced.placed (h : inv.PortsSpaced) {r : ResolvedInstance} (hr : inv.Resolved r) :
    ∃ host ∈ inv.host, ∃ p ∈ host.places, Placed host p r := by
  rcases hr with halone | hmember
  · obtain ⟨host, hhost, p, hp, rfl⟩ := resolved_alone_iff.mp halone
    exact ⟨host, hhost, p, hp, placed_alone (h.hosts host hhost) hp⟩
  · obtain ⟨c, hc, hfound, key, hkey, e, hplace, rfl⟩ := resolved_member_iff.mp hmember
    obtain ⟨hhost, hp⟩ := mem_of_memberPlace hplace
    have hfits := (h.hosts e.1 hhost).fits _ hp
    have hbase := (h.clusters c hc).base hfound key hkey e hplace
    have hport : PortFits (clusterBase c.clusterPort) e.2.2.clusterPort e.2.1 := fun hnone => by
      rw [hbase hnone]
      exact hfits.cluster hnone
    have hnat : portNat (clusterBase c.clusterPort) e.2.2.clusterPort e.2.1 =
        portNat 4478 e.2.2.clusterPort e.2.1 := by
      cases hpin : e.2.2.clusterPort with
      | some port => rfl
      | none => rw [hbase hpin]
    obtain ⟨hrelay, hws, hcluster⟩ := @resolveAt_ports e.1 c.clusterPort e.2.1 e.2.2
      ⟨hfits.relay, hfits.ws, hport⟩
    exact ⟨e.1, hhost, _, hp, rfl, rfl, hrelay, hws, hcluster.trans hnat⟩

theorem place_unique (hvalid : inv.Valid) {host : Host} (hhost : host ∈ inv.host)
    {p q : Nat × Instance} (hp : p ∈ host.places) (hq : q ∈ host.places) (heq : p.2 = q.2) :
    p.1 = q.1 := by
  obtain ⟨hi, hpi⟩ := List.getElem?_eq_some_iff.mp (mem_places.mp hp)
  obtain ⟨hj, hqj⟩ := List.getElem?_eq_some_iff.mp (mem_places.mp hq)
  have hlen : (host.instances.map (·.id)).length = host.instances.length := List.length_map _
  have hinj := List.nodup_iff_injective_getElem.mp (hvalid.hosts host hhost).distinct
  have hsame : (⟨p.1, by omega⟩ : Fin (host.instances.map (·.id)).length) = ⟨q.1, by omega⟩ := by
    apply hinj
    simp only [List.getElem_map, hpi, hqj, heq]
  exact congrArg Fin.val hsame

theorem place_inst {host : Host} {p q : Nat × Instance} (hp : p ∈ host.places)
    (hq : q ∈ host.places) (heq : p.1 = q.1) : p.2 = q.2 := by
  have hpi := mem_places.mp hp
  rw [heq, mem_places.mp hq] at hpi
  exact (Option.some.inj hpi).symm

theorem PortsSpaced.right (h : inv.PortsSpaced) (hvalid : inv.Valid) : inv.PortsRight where
  noOverflow selector := by
    intro hnone
    refine absurd ((resolveInstances_panicsIff inv selector).returns ?_) (by rw [hnone]; nofun)
    rintro ⟨host, hhost, -, p, hp, -, hbad⟩
    exact hbad ((h.hosts host hhost).fits p hp)
  noMemberOverflow c hc := by
    intro hnone
    exact absurd ((resolveMembers_panicsIff c c.members).returns (h.clusters c hc).fits)
      (by rw [← resolveClusterMembersChecked, hnone]; nofun)
  agree r r' hr hr' hhost hinst := by
    obtain ⟨host, hin, p, hp, hplaced⟩ := h.placed hr
    obtain ⟨host', -, q, hq, hplaced'⟩ := h.placed hr'
    obtain rfl : host = host' := hplaced.host_eq.symm.trans (hhost.trans hplaced'.host_eq)
    have hinst' : p.2 = q.2 := hplaced.inst_eq.symm.trans (hinst.trans hplaced'.inst_eq)
    have hplace := place_unique hvalid hin hp hq hinst'
    refine ⟨UInt16.toNat_inj.mp ?_, UInt16.toNat_inj.mp ?_, UInt16.toNat_inj.mp ?_⟩
    · rw [hplaced.relay, hplaced'.relay, hplace, hinst']
    · rw [hplaced.ws, hplaced'.ws, hplace, hinst']
    · rw [hplaced.cluster, hplaced'.cluster, hplace, hinst']
  apart r r' hr hr' hhost hinst := by
    obtain ⟨host, hin, p, hp, hplaced⟩ := h.placed hr
    obtain ⟨host', -, q, hq, hplaced'⟩ := h.placed hr'
    obtain rfl : host = host' := hplaced.host_eq.symm.trans (hhost.trans hplaced'.host_eq)
    have hplace : p.1 ≠ q.1 := fun heq =>
      hinst (hplaced.inst_eq.trans ((place_inst hp hq heq).trans hplaced'.inst_eq.symm))
    have hspaced := h.hosts host hin
    refine ⟨fun heq => ?_, fun heq => ?_, fun heq => ?_⟩
    · refine (serviceClear_iff _ _ _ _ _).mp (hspaced.relay p hp q hq hplace) ?_
      rw [← hplaced.relay, ← hplaced'.relay, heq]
    · refine (serviceClear_iff _ _ _ _ _).mp (hspaced.ws p hp q hq hplace) ?_
      rw [← hplaced.ws, ← hplaced'.ws, heq]
    · refine (serviceClear_iff _ _ _ _ _).mp (hspaced.cluster p hp q hq hplace) ?_
      rw [← hplaced.cluster, ← hplaced'.cluster, heq]
  udpApart r r' hr hr' hhost := by
    obtain ⟨host, hin, p, hp, hplaced⟩ := h.placed hr
    obtain ⟨host', -, q, hq, hplaced'⟩ := h.placed hr'
    obtain rfl : host = host' := hplaced.host_eq.symm.trans (hhost.trans hplaced'.host_eq)
    intro heq
    refine (udpClear_iff _ _ _ _).mp ((h.hosts host hin).udp p hp q hq) ?_
    rw [← hplaced.relay, ← hplaced'.cluster, heq]

theorem PortsRight.fits (h : inv.PortsRight) {host : Host} (hhost : host ∈ inv.host) :
    ∀ p ∈ host.places, PlaceFits 4478 p.2 p.1 := by
  intro p hp
  by_contra hbad
  exact h.noOverflow ⟨none, none⟩ ((resolveInstances_panicsIff inv ⟨none, none⟩).panics
    ⟨host, hhost, rfl, p, hp, rfl, hbad⟩)

theorem PortsRight.hostSpaced (h : inv.PortsRight) (hvalid : inv.Valid) {host : Host}
    (hhost : host ∈ inv.host) : host.Spaced := by
  have hfits := h.fits hhost
  have hres : ∀ p ∈ host.places, inv.Resolved (resolveAt host none p.1 p.2) := fun p hp =>
    .inl (resolved_alone_iff.mpr ⟨host, hhost, p, hp, rfl⟩)
  have hports : ∀ p ∈ host.places,
      (resolveAt host none p.1 p.2).relayPort.toNat = portNat 3478 p.2.relayPort p.1 ∧
        (resolveAt host none p.1 p.2).wsPort.toNat = portNat 34935 p.2.wsPort p.1 ∧
        (resolveAt host none p.1 p.2).clusterPort.toNat = portNat 4478 p.2.clusterPort p.1 :=
    fun p hp => @resolveAt_ports host none p.1 p.2 (hfits p hp)
  have hapart : ∀ p ∈ host.places, ∀ q ∈ host.places, p.1 ≠ q.1 → _ := fun p hp q hq hne =>
    h.apart _ _ (hres p hp) (hres q hq) rfl fun heq => hne (place_unique hvalid hhost hp hq heq)
  refine ⟨hfits, fun p hp q hq hne => ?_, fun p hp q hq hne => ?_, fun p hp q hq hne => ?_,
    fun p hp q hq => ?_⟩
  · rw [serviceClear_iff, ← (hports p hp).1, ← (hports q hq).1]
    exact fun heq => (hapart p hp q hq hne).1 (UInt16.toNat_inj.mp heq)
  · rw [serviceClear_iff, ← (hports p hp).2.1, ← (hports q hq).2.1]
    exact fun heq => (hapart p hp q hq hne).2.1 (UInt16.toNat_inj.mp heq)
  · rw [serviceClear_iff, ← (hports p hp).2.2, ← (hports q hq).2.2]
    exact fun heq => (hapart p hp q hq hne).2.2 (UInt16.toNat_inj.mp heq)
  · rw [udpClear_iff, ← (hports p hp).1, ← (hports q hq).2.2]
    exact fun heq => h.udpApart _ _ (hres p hp) (hres q hq) rfl (UInt16.toNat_inj.mp heq)

theorem PortsRight.clusterSpaced (h : inv.PortsRight) {c : ClusterDef} (hc : c ∈ inv.clusters) :
    inv.ClusterSpaced c := by
  refine ⟨fun hover => ?_, fun hfound key hkey e hplace hpin => ?_⟩
  · exact h.noMemberOverflow c hc ((resolveMembers_panicsIff c c.members).panics hover)
  · obtain ⟨hhost, hp⟩ := mem_of_memberPlace hplace
    have hagree := (h.agree _ _
      (.inl (resolved_alone_iff.mpr ⟨e.1, hhost, _, hp, rfl⟩))
      (.inr (resolved_member_iff.mpr ⟨c, hc, hfound, key, hkey, e, hplace, rfl⟩)) rfl rfl).2.2
    have hbase : (resolveAt e.1 c.clusterPort e.2.1 e.2.2).clusterPort =
        c.clusterPort.getD 4478 + UInt16.ofNat e.2.1 * 100 := by
      unfold resolveAt
      simp only [hpin, Option.getD_none]
      cases c.clusterPort <;> rfl
    have halone : (resolveAt e.1 none e.2.1 e.2.2).clusterPort =
        4478 + UInt16.ofNat e.2.1 * 100 := by
      unfold resolveAt
      simp only [hpin, Option.getD_none]
      rfl
    rw [hbase, halone] at hagree
    have hsum := congrArg UInt16.toNat hagree
    have hlt := (c.clusterPort.getD 4478).toNat_lt
    have hplace := (UInt16.ofNat e.2.1 * 100).toNat_lt
    have h4478 : (4478 : UInt16).toNat = 4478 := rfl
    rw [UInt16.toNat_add, UInt16.toNat_add, h4478] at hsum
    rw [clusterBase]
    omega

/-- The ports of a fleet are right exactly when they are spaced: the sums stay in
sixteen bits, clusters with members that pin nothing have the usual base, and on
no host a pin or a place meets another. -/
theorem ports_right_iff (inv : Inventory) (hvalid : inv.validate = .ok ()) :
    inv.PortsRight ↔ inv.PortsSpaced := by
  have hvalid := (validate_ok_iff inv).mp hvalid
  constructor
  · intro h
    exact ⟨fun _ hhost => h.hostSpaced hvalid hhost, fun _ hc => h.clusterSpaced hc⟩
  · intro h
    exact h.right hvalid

theorem edge_ports_right_iff : edge.PortsRight ↔ edge.PortsSpaced :=
  ports_right_iff edge rfl

/-- Eleven instances of one host that pin nothing. -/
def crowded : Inventory where
  defaults := .default
  host := [{
    name := "edge"
    ssh := "conquerd@edge"
    arch := none
    instances := ["a", "b", "c", "d", "e", "f", "g", "h", "i", "j", "k"].map (freshInstance · []) }]
  clusters := []

/-- The relay of the last has the port of the first's cluster link. -/
theorem crowded_ports_meet : crowded.validate = .ok () ∧ ¬ crowded.PortsRight := by
  refine ⟨by rfl, fun h => ?_⟩
  have hres : ∀ host ∈ crowded.host, ∀ p ∈ host.places,
      crowded.Resolved (resolveAt host none p.1 p.2) := fun host hhost p hp =>
    .inl (resolved_alone_iff.mpr ⟨host, hhost, p, hp, rfl⟩)
  exact h.udpApart _ _
    (hres _ List.mem_cons_self (10, freshInstance "k" []) (mem_places.mpr rfl))
    (hres _ List.mem_cons_self (0, freshInstance "a" []) (mem_places.mpr rfl)) rfl rfl

end Inventory

end ConquerD.Manager
