import ConquerD.Supernode.ClusterRoster

/-!
# Supernode: what the signature on a roster binds

The signed bytes join the cluster id and the members' ids by bars. Addresses are not
among them, so a roster with a member is bound to no address; and a cluster id may
itself spell a shorter id with a member after it. What is bound is the empty roster of
a cluster whose id spells none.
-/

namespace ConquerD.Supernode

open Lib.Encoding Lib.Text Lib.Words Wire

namespace ClusterConfig

variable {config config' : ClusterConfig} {self : String}

/-! ## What is accepted -/

theorem validateMembers_eq_ok_iff {members : List ClusterMember} {seen : List String} :
    validateMembers seen members = .ok () ↔
      (∀ m ∈ members, trim m.relayAddr.toList ≠ []) ∧
      (∀ m ∈ members, m.normalizedId ∉ seen) ∧ (members.map ClusterMember.normalizedId).Nodup := by
  induction members generalizing seen with
  | nil => simp [validateMembers]
  | cons m rest ih =>
    unfold validateMembers
    by_cases hrelay : trim m.relayAddr.toList = []
    · simp [hrelay]
    · by_cases hseen : m.normalizedId ∈ seen
      · simp [hrelay, hseen]
      · rw [if_neg hrelay, if_neg hseen, ih]
        simp only [List.mem_cons, forall_eq_or_imp, not_or, List.map_cons, List.nodup_cons,
          List.mem_map, not_exists, not_and]
        constructor
        · rintro ⟨hrelays, hfresh, hnodup⟩
          exact ⟨⟨hrelay, hrelays⟩, ⟨hseen, fun m' hm' => (hfresh m' hm').2⟩,
            fun m' hm' => (hfresh m' hm').1, hnodup⟩
        · rintro ⟨⟨-, hrelays⟩, ⟨-, hfresh⟩, hown, hnodup⟩
          exact ⟨hrelays, fun m' hm' => ⟨hown m' hm', hfresh m' hm'⟩, hnodup⟩

theorem validate_eq_ok_iff :
    config.validate self = .ok () ↔
      trim config.clusterId.toList ≠ [] ∧
      (∀ m ∈ config.members, trim m.relayAddr.toList ≠ []) ∧
      (config.members.map ClusterMember.normalizedId).Nodup ∧
      (config.members = [] ∨ config.contains self = true) := by
  unfold validate
  by_cases hid : trim config.clusterId.toList = []
  · simp [hid]
  · rw [if_neg hid]
    cases hmembers : validateMembers [] config.members with
    | error e =>
      have hbad : ¬ validateMembers [] config.members = .ok () := by
        rw [hmembers]
        nofun
      rw [validateMembers_eq_ok_iff] at hbad
      simp only [reduceCtorEq, false_iff]
      rintro ⟨-, hrelays, hnodup, -⟩
      exact hbad ⟨hrelays, fun _ _ => List.not_mem_nil, hnodup⟩
    | ok _ =>
      obtain ⟨hrelays, -, hnodup⟩ := validateMembers_eq_ok_iff.mp hmembers
      have hunlisted : (!config.members.isEmpty && !config.contains self) = true ↔
          ¬ (config.members = [] ∨ config.contains self = true) := by
        simp
      dsimp only
      by_cases hlisted : config.members = [] ∨ config.contains self = true
      · rw [if_neg fun h => hunlisted.mp h hlisted]
        exact ⟨fun _ => ⟨hid, hrelays, hnodup, hlisted⟩, fun _ => rfl⟩
      · rw [if_pos (hunlisted.mpr hlisted)]
        exact ⟨nofun, fun h => absurd h.2.2.2 hlisted⟩

/-- Some node takes the declaration. -/
def Accepted (config : ClusterConfig) : Prop :=
  ∃ self, config.validate self = .ok ()

def SameRoster (config config' : ClusterConfig) : Prop :=
  config.clusterId = config'.clusterId ∧
    ∀ entry, entry ∈ config.members.map (fun m => { m with identityPub := m.normalizedId }) ↔
      entry ∈ config'.members.map (fun m => { m with identityPub := m.normalizedId })

/-- There are no members, and the cluster id does not spell another one with a member
after it. -/
def SpellsNoMember (config : ClusterConfig) : Prop :=
  config.members = [] ∧
    ∀ before id, config.clusterId = before ++ "|" ++ id → trim before.toList = [] ∨ bare id ≠ id

end ClusterConfig

/-! ## What is signed -/

/-- Texts with bars between them. -/
def joined : String → List String → String
  | first, [] => first
  | first, id :: rest => first ++ "|" ++ joined id rest

theorem utf8Bytes_joined (first : String) (ids : List String) :
    utf8Bytes (joined first ids) =
      utf8Bytes first ++ ids.flatMap fun id => 0x7C :: utf8Bytes id := by
  induction ids generalizing first with
  | nil => simp [joined]
  | cons id rest ih =>
    have hbar : utf8Bytes "|" = [0x7C] := by decide
    rw [joined, utf8Bytes_append, utf8Bytes_append, hbar, ih id]
    simp

theorem bare_append_bar {s t : String} (ht : bare t = t) : bare (s ++ "|" ++ t) = s ++ "|" ++ t := by
  refine trimEndMatches_of_getLast_ne fun hne => ?_
  by_cases hempty : t.toList = []
  · simp [String.toList_eq_nil_iff.mp hempty]
  · have htrim := congrArg String.toList ht
    rw [bare, toList_trimEndMatches, List.rdropWhile_eq_self_iff] at htrim
    have hlast := htrim hempty
    simp only [String.toList_append]
    rw [List.getLast_append_of_ne_nil _ hempty]
    simpa using hlast

theorem bare_joined {first : String} {ids : List String} (hfirst : bare first = first)
    (hids : ∀ id ∈ ids, bare id = id) : bare (joined first ids) = joined first ids := by
  induction ids generalizing first with
  | nil => exact hfirst
  | cons id rest ih =>
    exact bare_append_bar (ih (hids id List.mem_cons_self)
      fun other hother => hids other (List.mem_cons_of_mem _ hother))

namespace ClusterMembership

variable {m m' : ClusterMembership}

def signedIds (m : ClusterMembership) : List String :=
  (m.config.members.map ClusterMember.normalizedId).mergeSort fun a b => a ≤ b

theorem canonicalBytes_eq_joined (m : ClusterMembership) :
    m.canonicalBytes = utf8Bytes clusterLabel ++ utf8Bytes (joined m.config.clusterId m.signedIds) := by
  rw [utf8Bytes_joined, ← List.append_assoc]
  rfl

theorem canonicalBytes_inj :
    m'.canonicalBytes = m.canonicalBytes ↔
      joined m'.config.clusterId m'.signedIds = joined m.config.clusterId m.signedIds := by
  rw [canonicalBytes_eq_joined, canonicalBytes_eq_joined, List.append_cancel_left_eq,
    utf8Bytes_injective.eq_iff]

theorem bare_of_mem_signedIds {id : String} (h : id ∈ m.signedIds) : bare id = id := by
  obtain ⟨member, -, rfl⟩ := List.mem_map.mp (List.mem_mergeSort.mp h)
  exact bare_bare _

/-- The members, all moved to one relay address. -/
def movedTo (m : ClusterMembership) (relayAddr : String) : ClusterMembership where
  config := ⟨m.config.clusterId, m.config.members.map fun member => { member with relayAddr }⟩
  selfId := m.selfId

theorem canonicalBytes_movedTo (m : ClusterMembership) (relayAddr : String) :
    (m.movedTo relayAddr).canonicalBytes = m.canonicalBytes := by
  unfold canonicalBytes movedTo
  simp only [List.map_map]
  rfl

theorem accepted_movedTo (h : m.config.Accepted) {relayAddr : String}
    (hrelay : trim relayAddr.toList ≠ []) : (m.movedTo relayAddr).config.Accepted := by
  obtain ⟨self, hself⟩ := h
  rw [ClusterConfig.validate_eq_ok_iff] at hself
  obtain ⟨hid, -, hnodup, hlisted⟩ := hself
  refine ⟨self, ClusterConfig.validate_eq_ok_iff.mpr ⟨hid, ?_, ?_, ?_⟩⟩
  · rintro member hmember
    obtain ⟨old, -, rfl⟩ := List.mem_map.mp hmember
    exact hrelay
  · unfold movedTo
    rw [List.map_map]
    exact hnodup
  · refine hlisted.imp (fun hempty => ?_) fun hcontains => ?_
    · unfold movedTo
      rw [hempty, List.map_nil]
    · unfold ClusterConfig.contains movedTo
      rw [List.any_map]
      exact hcontains

theorem exists_moved (h : m.config.Accepted) (hmembers : m.config.members ≠ []) :
    ∃ m' : ClusterMembership, m'.config.Accepted ∧ m'.canonicalBytes = m.canonicalBytes ∧
      ¬ m'.config.SameRoster m.config := by
  obtain ⟨member, rest, hcons⟩ := List.exists_cons_of_ne_nil hmembers
  obtain ⟨relayAddr, hrelay, hother⟩ :
      ∃ relayAddr : String, trim relayAddr.toList ≠ [] ∧ relayAddr ≠ member.relayAddr := by
    by_cases hx : "x" = member.relayAddr
    · exact ⟨"y", by decide, hx ▸ by decide⟩
    · exact ⟨"x", by decide, hx⟩
  refine ⟨m.movedTo relayAddr, accepted_movedTo h hrelay, canonicalBytes_movedTo m relayAddr, ?_⟩
  rintro ⟨-, hentries⟩
  have hentry := (hentries { member with identityPub := member.normalizedId }).mpr
    (by rw [hcons]; exact List.mem_cons_self)
  obtain ⟨moved, hmoved, heq⟩ := List.mem_map.mp hentry
  obtain ⟨old, -, rfl⟩ := List.mem_map.mp hmoved
  exact hother (congrArg ClusterMember.relayAddr heq)

theorem exists_spelled (hmembers : m.config.members = []) {before id : String}
    (hid : m.config.clusterId = before ++ "|" ++ id) (hbefore : trim before.toList ≠ [])
    (hbare : bare id = id) :
    ∃ m' : ClusterMembership, m'.config.Accepted ∧ m'.canonicalBytes = m.canonicalBytes ∧
      ¬ m'.config.SameRoster m.config := by
  refine ⟨.new ⟨before, [⟨id, "x", none, none⟩]⟩ id, ⟨id, ?_⟩, ?_, ?_⟩
  · rw [ClusterConfig.validate_eq_ok_iff]
    refine ⟨hbefore, ?_, List.pairwise_singleton _ _, .inr ?_⟩
    · intro member hmember
      rw [List.mem_singleton.mp hmember]
      exact (by decide : trim "x".toList ≠ [])
    · simp [ClusterConfig.contains, ClusterMembership.new]
  · rw [canonicalBytes_inj]
    simp [signedIds, ClusterMembership.new, hmembers, joined, hid, ClusterMember.normalizedId, hbare]
  · rintro ⟨-, hentries⟩
    have hentry := (hentries ⟨bare id, "x", none, none⟩).mp List.mem_cons_self
    rw [hmembers] at hentry
    cases hentry

theorem canonicalBytes_bind_iff (h : m.config.Accepted) :
    (∀ m' : ClusterMembership, m'.config.Accepted → m'.canonicalBytes = m.canonicalBytes →
      m'.config.SameRoster m.config) ↔ m.config.SpellsNoMember := by
  constructor
  · intro hbound
    have hno : ¬ ∃ m' : ClusterMembership, m'.config.Accepted ∧
        m'.canonicalBytes = m.canonicalBytes ∧ ¬ m'.config.SameRoster m.config := by
      rintro ⟨m', haccepted, hbytes, hother⟩
      exact hother (hbound m' haccepted hbytes)
    have hmembers : m.config.members = [] := by
      by_contra hmembers
      exact hno (exists_moved h hmembers)
    refine ⟨hmembers, fun before id hid => ?_⟩
    by_contra hspelled
    rw [not_or, not_not] at hspelled
    exact hno (exists_spelled hmembers hid hspelled.1 hspelled.2)
  · rintro ⟨hmembers, hspells⟩ m' haccepted hbytes
    have hempty : m.signedIds = [] := by
      simp [signedIds, hmembers]
    rw [canonicalBytes_inj, hempty] at hbytes
    cases hids : m'.signedIds with
    | nil =>
      have hmembers' : m'.config.members = [] := by
        have hlen := congrArg List.length hids
        simpa [signedIds] using hlen
      rw [hids] at hbytes
      exact ⟨hbytes, by rw [hmembers, hmembers']; exact fun _ => Iff.rfl⟩
    | cons id rest =>
      rw [hids] at hbytes
      obtain ⟨self, hself⟩ := haccepted
      have hbare : bare (joined id rest) = joined id rest := by
        refine bare_joined (bare_of_mem_signedIds (m := m') ?_) fun other hother =>
          bare_of_mem_signedIds (m := m') ?_
        · rw [hids]
          exact List.mem_cons_self
        · rw [hids]
          exact List.mem_cons_of_mem _ hother
      rcases hspells _ _ hbytes.symm with hblank | hpadded
      · exact absurd hblank (ClusterConfig.validate_eq_ok_iff.mp hself).1
      · exact absurd hbare hpadded

end ClusterMembership

/-! ## Descriptors -/

/-- The id is the key's, a signature with it verifies and is read back from its text,
and of all rosters only one was signed with it. -/
structure SignsOneRoster (P : Platform) (identity : Identity) (key message : Bytes) : Prop where
  readKey : P.b64urlDecode identity.publicId = some key
  keyLength : key.length = 32
  signatureLength : (identity.sign message).length = 64
  readSignature : P.b64urlDecode (b64UrlEncode (identity.sign message)) = some (identity.sign message)
  verifies : P.ed25519Verify key (identity.sign message) message = true
  unforgeable : ∀ sig other, utf8Bytes clusterLabel <+: other →
    P.ed25519Verify key sig other = true → other = message

namespace SignedClusterDescriptor

variable {P : Platform} {identity : Identity} {key : Bytes} {m : ClusterMembership}
  {d : SignedClusterDescriptor}

/-- The roster a descriptor carries. -/
def config (d : SignedClusterDescriptor) : ClusterConfig where
  clusterId := d.clusterId
  members := d.members

theorem verify_sign_of_canonicalBytes_eq (hkey : SignsOneRoster P identity key m.canonicalBytes)
    {m' : ClusterMembership} (hbytes : m'.canonicalBytes = m.canonicalBytes) :
    (m'.sign identity).verify P = true := by
  have hsame : (ClusterMembership.new m'.config identity.publicId).canonicalBytes =
      m.canonicalBytes := hbytes
  have hsignature : (m'.sign identity).signature = b64UrlEncode (identity.sign m.canonicalBytes) := by
    rw [← hbytes]
    rfl
  unfold verify
  rw [hsignature, hkey.readSignature]
  have hsigner : (m'.sign identity).signer = identity.publicId := rfl
  rw [hsigner, hkey.readKey]
  have hlengths : ¬ (key.length ≠ 32 ∨ (identity.sign m.canonicalBytes).length ≠ 64) := by
    rw [hkey.keyLength, hkey.signatureLength]
    decide
  dsimp only
  unfold Signaling.verifyWithPub
  rw [if_neg hlengths]
  exact (congrArg _ hsame).trans hkey.verifies

theorem canonicalBytes_of_verify (hkey : SignsOneRoster P identity key m.canonicalBytes)
    (hsigner : d.signer = identity.publicId) (hverify : d.verify P = true) :
    (ClusterMembership.new d.config d.signer).canonicalBytes = m.canonicalBytes := by
  unfold verify at hverify
  rw [hsigner, hkey.readKey] at hverify
  cases hsig : P.b64urlDecode d.signature with
  | none =>
    rw [hsig] at hverify
    cases hverify
  | some sig =>
    rw [hsig] at hverify
    dsimp only at hverify
    unfold Signaling.verifyWithPub at hverify
    split at hverify
    · cases hverify
    · refine hkey.unforgeable sig _ ?_ hverify
      rw [ClusterMembership.canonicalBytes_eq_joined]
      exact List.prefix_append _ _

/-- Equal bytes mean equal rosters, and a descriptor that verifies carries the roster its
signer signed, exactly when that roster is empty and its cluster id spells no member. -/
theorem roster_bound_iff (hm : m.config.Accepted)
    (hkey : SignsOneRoster P identity key m.canonicalBytes) :
    ((∀ m' : ClusterMembership, m'.config.Accepted → m'.canonicalBytes = m.canonicalBytes →
      m'.config.SameRoster m.config) ↔ m.config.SpellsNoMember) ∧
    ((∀ d : SignedClusterDescriptor, d.config.Accepted → d.signer = identity.publicId →
      d.verify P = true → d.config.SameRoster m.config) ↔ m.config.SpellsNoMember) := by
  have hbytes := ClusterMembership.canonicalBytes_bind_iff hm
  refine ⟨hbytes, ?_⟩
  rw [← hbytes]
  constructor
  · intro hcarried m' haccepted hsame
    exact hcarried (m'.sign identity) haccepted rfl (verify_sign_of_canonicalBytes_eq hkey hsame)
  · intro hbound d haccepted hsigner hverify
    exact hbound (.new d.config d.signer) haccepted (canonicalBytes_of_verify hkey hsigner hverify)

/-- One node at the given address. -/
def soloCluster (relayAddr : String) : ClusterMembership :=
  .new ⟨"acme", [⟨onesId, relayAddr, none, none⟩]⟩ onesId

/-- A key that has signed the roster of the node at home and nothing else. -/
def homePlatform : Platform :=
  { Platform.oneKey with
    ed25519Verify := fun key sig message => key == List.replicate 32 1 &&
      sig == List.replicate 64 2 && message == (soloCluster "home:1").canonicalBytes }

theorem roster_bound_iff_solo :
    ¬ ∀ d : SignedClusterDescriptor, d.config.Accepted → d.signer = onesId →
      d.verify homePlatform = true → d.config.SameRoster (soloCluster "home:1").config := by
  have hkey : SignsOneRoster homePlatform ⟨onesId, fun _ => List.replicate 64 2⟩
      (List.replicate 32 1) (soloCluster "home:1").canonicalBytes := by
    refine ⟨by decide +kernel, rfl, rfl, by decide +kernel, by decide +kernel, ?_⟩
    intro sig other _ hverify
    exact eq_of_beq (Bool.and_eq_true_iff.mp hverify).2
  have hm : (soloCluster "home:1").config.Accepted := ⟨onesId, by decide +kernel⟩
  rw [(roster_bound_iff hm hkey).2]
  exact fun h => absurd h.1 (List.cons_ne_nil _ _)

/-- A roster is signed alike wherever its member is. -/
theorem rosters_signed_alike :
    ¬ ∀ m m' : ClusterMembership, m.config.Accepted → m'.config.Accepted →
      m'.canonicalBytes = m.canonicalBytes → m'.config.SameRoster m.config := by
  intro h
  have hsame := h (soloCluster "home:1") (soloCluster "evil:1") ⟨onesId, by decide +kernel⟩
    ⟨onesId, by decide +kernel⟩ (by decide +kernel)
  have hmoved := (hsame.2 ⟨bare onesId, "evil:1", none, none⟩).mp List.mem_cons_self
  have hhome := congrArg ClusterMember.relayAddr (List.mem_singleton.mp hmoved)
  revert hhome
  decide

end SignedClusterDescriptor

end ConquerD.Supernode
