import ConquerD.Lib.Run
import ConquerD.Manager.Firewall
import Mathlib.Data.List.Nodup
import Mathlib.Data.List.TakeWhile
import Mathlib.Tactic.Tauto

/-!
# What the firewall scripts leave and what they make

A script finds the rules of its instance by a text in their comments. It always finds
all of them; whether it finds others depends on their comments, and on the names that
are spelt there. A sync of a cluster with nobody else in it finds nothing.
-/

namespace ConquerD.Manager

open Lib.Numbered Lib.Run

/-! ## Comments -/

section Comments

variable {i : InstanceRef}

theorem comment_eq (tag : String) :
    ufwComment i.hostName i.id tag = instanceNeedle i ++ tag := rfl

theorem clusterNeedle_eq : clusterNeedle i = instanceNeedle i ++ "cluster" := rfl

theorem instanceNeedle_eq : instanceNeedle i = removeNeedle i ++ ":" := rfl

theorem contains_append (needle rest : String) : Contains needle (needle ++ rest) := by
  unfold Contains
  rw [String.toList_append]
  exact (List.prefix_append _ _).isInfix

theorem contains_instanceNeedle (tag : String) :
    Contains (instanceNeedle i) (ufwComment i.hostName i.id tag) :=
  contains_append _ _

theorem contains_removeNeedle (tag : String) :
    Contains (removeNeedle i) (ufwComment i.hostName i.id tag) := by
  rw [comment_eq, instanceNeedle_eq, String.append_assoc]
  exact contains_append _ _

theorem contains_clusterNeedle (ip : String) :
    Contains (clusterNeedle i) (ufwComment i.hostName i.id (RuleTag.cluster ip).text) := by
  rw [comment_eq, RuleTag.text, String.append_assoc, ← String.append_assoc, ← clusterNeedle_eq]
  exact contains_append _ _

theorem not_contains_clusterNeedle {tag : String} (hshort : tag.toList.length < 7) :
    ¬ Contains (clusterNeedle i) (ufwComment i.hostName i.id tag) := by
  intro h
  have hle := List.IsInfix.length_le h
  rw [clusterNeedle_eq, comment_eq, String.toList_append, String.toList_append,
    List.length_append, List.length_append] at hle
  have hseven : "cluster".toList.length = 7 := rfl
  omega

end Comments

/-! ## What is asked -/

namespace Ufw

/-- The script for the instance leaves every other rule as it is. -/
def Confined (i : InstanceRef) (before after : Ufw) : Prop :=
  after.filter (fun r => !r.ownedBy i) = before.filter fun r => !r.ownedBy i

/-- The other members are those that report another key. -/
def IsPeer (member : ResolvedMember) (members : List ResolvedMember) (m : ResolvedMember) : Prop :=
  m ∈ members ∧ m.identityPub ≠ member.identityPub

/-- The instance's rules after its script. -/
def Exact (before after : Ufw) : FirewallEvent → Prop
  | .install i network =>
    after.filter (UfwRule.portRuleOf i) = portRules i network ∧
      after.filter (UfwRule.clusterRuleOf i) = before.filter (UfwRule.clusterRuleOf i)
  | .uninstall i => ∀ r ∈ after, r.ownedBy i = false
  | .clusterSync member members =>
    (after.filter (UfwRule.clusterRuleOf member.ref)).Nodup ∧
      ∀ r, r ∈ after.filter (UfwRule.clusterRuleOf member.ref) ↔
        ∃ m, IsPeer member members m ∧ r = clusterRule member.ref member.clusterPort m.publicHost

end Ufw

def FirewallEvent.instanceRef : FirewallEvent → InstanceRef
  | .install i _ | .uninstall i => i
  | .clusterSync member _ => member.ref

namespace Ufw

def EditedRight (ufw : Ufw) (e : FirewallEvent) : Prop :=
  Confined e.instanceRef ufw (ufw.step e) ∧ Exact ufw (ufw.step e) e

/-- No other rule has the text in its comment. -/
def OnlyOwn (i : InstanceRef) (needle : String) (ufw : Ufw) : Prop :=
  ∀ r ∈ ufw, r.ownedBy i = false → ¬ Contains needle r.comment

/-- An install finds no other rule, but one that looks like a cluster rule of the
instance; an uninstall finds no other rule. A sync with peers finds no other rule, and
their hosts have no colon in them; one without peers has no cluster rule to take away. -/
def EditsApart (ufw : Ufw) : FirewallEvent → Prop
  | .install i _ => ∀ r ∈ ufw, r.ownedBy i = false →
      Contains (instanceNeedle i) r.comment → Contains (clusterNeedle i) r.comment
  | .uninstall i => OnlyOwn i (removeNeedle i) ufw
  | .clusterSync member members =>
    ((∃ m, IsPeer member members m) → OnlyOwn member.ref (clusterNeedle member.ref) ufw) ∧
      (∀ m, IsPeer member members m → ':' ∉ m.publicHost.toList) ∧
      ((¬ ∃ m, IsPeer member members m) → ∀ r ∈ ufw, r.clusterRuleOf member.ref = false)

end Ufw

/-! ## Scripts as filters -/

section Scripts

variable {i : InstanceRef} {ufw : Ufw}

theorem runScript_allow (rules : List UfwRule) :
    runScript ufw (rules.map .allow) = ufw ++ rules := by
  unfold runScript
  induction rules generalizing ufw with
  | nil => exact (List.append_nil ufw).symm
  | cons r rules ih =>
    simp only [List.map_cons, List.foldl_cons, UfwCommand.run]
    rw [ih, List.append_assoc]
    rfl

theorem run_deleteTagged (needle : String) (keep : Option String) :
    UfwCommand.run ufw (.deleteTagged needle keep) =
      ufw.filter fun r => !searched needle keep r :=
  deleteNumbers_reverse _ _

theorem run_ensureScript (network : NetworkEnv) :
    runScript ufw (ufwEnsureScript i network) =
      (ufw.filter fun r => !searched (instanceNeedle i) (some (clusterNeedle i)) r) ++
        portRules i network := by
  unfold ufwEnsureScript
  rw [← run_deleteTagged, ← runScript_allow]
  rfl

theorem run_removeScript :
    runScript ufw (ufwRemoveScript i) = ufw.filter fun r => !searched (removeNeedle i) none r :=
  run_deleteTagged _ _

theorem run_clusterScript {clusterPort : UInt16} {ips : List String} (hips : ips ≠ []) :
    runScript ufw (clusterUfwScript i clusterPort ips) =
      (ufw.filter fun r => !searched (clusterNeedle i) none r) ++
        ips.map (clusterRule i clusterPort) := by
  unfold clusterUfwScript
  rw [if_neg hips, ← run_deleteTagged, ← runScript_allow, List.map_map]
  rfl

end Scripts

/-! ## Rules by their owners -/

section Owners

variable {i : InstanceRef} {r : UfwRule}

theorem owner_of_ownedBy (h : r.ownedBy i = true) : ∃ tag, r.owner = .tagged i tag := by
  unfold UfwRule.ownedBy at h
  split at h
  · rename_i j tag howner
    exact ⟨tag, by rw [howner, of_decide_eq_true h]⟩
  · cases h

theorem owner_of_clusterRuleOf (h : r.clusterRuleOf i = true) :
    ∃ ip, r.owner = .tagged i (.cluster ip) := by
  unfold UfwRule.clusterRuleOf at h
  split at h
  · rename_i j ip howner
    exact ⟨ip, by rw [howner, of_decide_eq_true h]⟩
  · cases h

theorem owner_of_portRuleOf (h : r.portRuleOf i = true) :
    r.owner = .tagged i .relay ∨ r.owner = .tagged i .ws := by
  unfold UfwRule.portRuleOf at h
  split at h
  · rename_i j howner
    exact .inl (by rw [howner, of_decide_eq_true h])
  · rename_i j howner
    exact .inr (by rw [howner, of_decide_eq_true h])
  · cases h

theorem comment_of_owner {tag : RuleTag} (h : r.owner = .tagged i tag) :
    r.comment = ufwComment i.hostName i.id tag.text := by
  unfold UfwRule.comment
  rw [h]
  rfl

theorem searched_none {needle : String} :
    searched needle none r = true ↔ Contains needle r.comment := by
  simp [searched]

theorem searched_some {needle text : String} :
    searched needle (some text) r = true ↔
      Contains needle r.comment ∧ ¬ Contains text r.comment := by
  simp [searched]

end Owners

/-! ## One script -/

namespace Ufw

variable {i : InstanceRef} {ufw : Ufw} {keep : UfwRule → Bool} {new : List UfwRule}

theorem confined_iff (hnew : ∀ r ∈ new, r.ownedBy i = true) :
    Confined i ufw (ufw.filter keep ++ new) ↔
      ∀ r ∈ ufw, r.ownedBy i = false → keep r = true := by
  have hown : new.filter (fun r => !r.ownedBy i) = [] := by
    rw [List.filter_eq_nil_iff]
    intro r hr
    simp [hnew r hr]
  unfold Confined
  rw [List.filter_append, hown, List.append_nil, filter_filter_eq_iff]
  simp

theorem step_install (network : NetworkEnv) :
    ufw.step (.install i network) =
      (ufw.filter fun r => !searched (instanceNeedle i) (some (clusterNeedle i)) r) ++
        portRules i network :=
  run_ensureScript network

theorem step_uninstall :
    ufw.step (.uninstall i) = ufw.filter fun r => !searched (removeNeedle i) none r :=
  run_removeScript

theorem confined_install_iff {network : NetworkEnv} :
    Confined i ufw (ufw.step (.install i network)) ↔ EditsApart ufw (.install i network) := by
  rw [step_install, confined_iff (by simp [portRules, relayRule, wsRule, UfwRule.ownedBy])]
  refine forall₃_congr fun r _ _ => ?_
  rw [Bool.not_eq_true', Bool.eq_false_iff, ne_eq, searched_some]
  tauto

/-- The instance's relay and ws rules of before are found and not spared. -/
theorem portRules_not_kept :
    (ufw.filter fun r => !searched (instanceNeedle i) (some (clusterNeedle i)) r).filter
      (UfwRule.portRuleOf i) = [] := by
  rw [List.filter_eq_nil_iff]
  intro r hr hport
  have hkept := (List.mem_filter.mp hr).2
  rw [Bool.not_eq_true', Bool.eq_false_iff, ne_eq, searched_some] at hkept
  rcases owner_of_portRuleOf hport with howner | howner
  · rw [comment_of_owner howner] at hkept
    exact hkept ⟨contains_instanceNeedle _, not_contains_clusterNeedle (by decide)⟩
  · rw [comment_of_owner howner] at hkept
    exact hkept ⟨contains_instanceNeedle _, not_contains_clusterNeedle (by decide)⟩

theorem clusterRules_kept :
    (ufw.filter fun r => !searched (instanceNeedle i) (some (clusterNeedle i)) r).filter
      (UfwRule.clusterRuleOf i) = ufw.filter (UfwRule.clusterRuleOf i) := by
  rw [filter_filter_eq_iff]
  intro r _ hcluster
  obtain ⟨ip, howner⟩ := owner_of_clusterRuleOf hcluster
  rw [Bool.not_eq_true', Bool.eq_false_iff, ne_eq, searched_some, comment_of_owner howner]
  exact fun h => h.2 (contains_clusterNeedle ip)

theorem install_right_iff {network : NetworkEnv} :
    EditedRight ufw (.install i network) ↔ EditsApart ufw (.install i network) := by
  have hexact : Exact ufw (ufw.step (.install i network)) (.install i network) := by
    rw [step_install]
    refine ⟨?_, ?_⟩
    · rw [List.filter_append, portRules_not_kept]
      simp [portRules, relayRule, wsRule, UfwRule.portRuleOf]
    · rw [List.filter_append, clusterRules_kept]
      simp [portRules, relayRule, wsRule, UfwRule.clusterRuleOf]
  exact ⟨fun h => confined_install_iff.mp h.1, fun h => ⟨confined_install_iff.mpr h, hexact⟩⟩

theorem confined_uninstall_iff :
    Confined i ufw (ufw.step (.uninstall i)) ↔ EditsApart ufw (.uninstall i) := by
  rw [step_uninstall, ← List.append_nil (ufw.filter _), confined_iff (by simp)]
  refine forall₃_congr fun r _ _ => ?_
  rw [Bool.not_eq_true', Bool.eq_false_iff, ne_eq, searched_none]

theorem uninstall_right_iff :
    EditedRight ufw (.uninstall i) ↔ EditsApart ufw (.uninstall i) := by
  have hexact : Exact ufw (ufw.step (.uninstall i)) (.uninstall i) := by
    rw [step_uninstall]
    intro r hr
    by_contra hown
    obtain ⟨tag, howner⟩ := owner_of_ownedBy (by simpa using hown)
    have hkept := (List.mem_filter.mp hr).2
    rw [Bool.not_eq_true', Bool.eq_false_iff, ne_eq, searched_none,
      comment_of_owner howner] at hkept
    exact hkept (contains_removeNeedle _)
  exact ⟨fun h => confined_uninstall_iff.mp h.1, fun h => ⟨confined_uninstall_iff.mpr h, hexact⟩⟩

end Ufw

/-! ## The peers of a member -/

section Peers

variable {member m : ResolvedMember} {members : List ResolvedMember}

theorem hostOfAddr_colonFree (addr : String) : ':' ∉ (hostOfAddr addr).toList := by
  unfold hostOfAddr
  rw [String.toList_ofList]
  intro h
  simpa using List.mem_takeWhile_imp h

theorem hostOfAddr_entry (h : ':' ∉ m.publicHost.toList) :
    hostOfAddr m.entry.relayAddr = m.publicHost := by
  unfold hostOfAddr ResolvedMember.entry
  simp only [String.toList_append, List.append_assoc]
  rw [List.takeWhile_append_of_pos]
  · have hcolon : ":".toList = [':'] := rfl
    simp [hcolon]
  · intro c hc
    have hne : c ≠ ':' := fun heq => h (heq ▸ hc)
    simp [hne]

theorem mem_foldl_pushNew {ip : String} : ∀ (ips seen : List String),
    ip ∈ ips.foldl pushNew seen ↔ ip ∈ seen ∨ (ip ≠ "" ∧ ip ∈ ips)
  | [], seen => by simp
  | first :: ips, seen => by
    rw [List.foldl_cons, mem_foldl_pushNew ips, List.mem_cons]
    unfold pushNew
    split
    · rename_i hnew
      rw [List.mem_append, List.mem_singleton]
      constructor
      · rintro ((hseen | rfl) | ⟨hne, hmem⟩)
        · exact .inl hseen
        · exact .inr ⟨hnew.1, .inl rfl⟩
        · exact .inr ⟨hne, .inr hmem⟩
      · rintro (hseen | ⟨hne, rfl | hmem⟩)
        · exact .inl (.inl hseen)
        · exact .inl (.inr rfl)
        · exact .inr ⟨hne, hmem⟩
    · rename_i hold
      constructor
      · rintro (hseen | ⟨hne, hmem⟩)
        · exact .inl hseen
        · exact .inr ⟨hne, .inr hmem⟩
      · rintro (hseen | ⟨hne, rfl | hmem⟩)
        · exact .inl hseen
        · exact .inl (by simpa [hne] using hold)
        · exact .inr ⟨hne, hmem⟩

theorem nodup_foldl_pushNew : ∀ (ips : List String) {seen : List String},
    seen.Nodup → (ips.foldl pushNew seen).Nodup
  | [], _, h => h
  | first :: ips, seen, h => by
    refine nodup_foldl_pushNew ips ?_
    unfold pushNew
    split
    · rename_i hnew
      rw [List.nodup_append_comm, List.singleton_append, List.nodup_cons]
      exact ⟨hnew.2, h⟩
    · exact h

theorem mem_peerIps {ip : String} :
    ip ∈ peerIps (members.map (·.entry)) member.entry ↔
      ip ≠ "" ∧ ∃ m, Ufw.IsPeer member members m ∧ hostOfAddr m.entry.relayAddr = ip := by
  unfold peerIps Ufw.IsPeer
  rw [mem_foldl_pushNew]
  simp only [List.not_mem_nil, false_or, List.mem_map, List.mem_filter, decide_eq_true_eq]
  refine and_congr_right fun _ => ⟨?_, ?_⟩
  · rintro ⟨entry, ⟨⟨m, hm, rfl⟩, hne⟩, rfl⟩
    exact ⟨m, ⟨hm, hne⟩, rfl⟩
  · rintro ⟨m, ⟨hm, hne⟩, rfl⟩
    exact ⟨m.entry, ⟨⟨m, hm, rfl⟩, hne⟩, rfl⟩

theorem peerIps_colonFree {ip : String}
    (h : ip ∈ peerIps (members.map (·.entry)) member.entry) : ':' ∉ ip.toList := by
  obtain ⟨-, m, -, rfl⟩ := mem_peerIps.mp h
  exact hostOfAddr_colonFree _

theorem mem_peerIps_of_colonFree
    (hfree : ∀ m, Ufw.IsPeer member members m → ':' ∉ m.publicHost.toList) {ip : String} :
    ip ∈ peerIps (members.map (·.entry)) member.entry ↔
      ∃ m, Ufw.IsPeer member members m ∧ m.publicHost = ip := by
  rw [mem_peerIps]
  constructor
  · rintro ⟨-, m, hm, rfl⟩
    exact ⟨m, hm, (hostOfAddr_entry (hfree m hm)).symm⟩
  · rintro ⟨m, hm, rfl⟩
    exact ⟨m.publicHost_ne, m, hm, hostOfAddr_entry (hfree m hm)⟩

end Peers

/-! ## A sync -/

namespace Ufw

variable {ufw : Ufw} {member : ResolvedMember} {members : List ResolvedMember}

/-- Cluster rules are for addresses a script may have read off a roster. -/
def ColonFreePeers (ufw : Ufw) : Prop :=
  ∀ r ∈ ufw, ∀ i ip, r.owner = .tagged i (.cluster ip) → ':' ∉ ip.toList

theorem clusterRule_injective {i : InstanceRef} {port : UInt16} :
    Function.Injective (clusterRule i port) := by
  intro ip ip' h
  injection h with hbody
  injection hbody

theorem clusterRules_run {ips : List String} (hips : ips ≠ []) :
    (runScript ufw (clusterUfwScript member.ref member.clusterPort ips)).filter
        (UfwRule.clusterRuleOf member.ref) = ips.map (clusterRule member.ref member.clusterPort) := by
  rw [run_clusterScript hips, List.filter_append]
  have hold : (ufw.filter fun r => !searched (clusterNeedle member.ref) none r).filter
      (UfwRule.clusterRuleOf member.ref) = [] := by
    rw [List.filter_eq_nil_iff]
    intro r hr hcluster
    obtain ⟨ip, howner⟩ := owner_of_clusterRuleOf hcluster
    have hkept := (List.mem_filter.mp hr).2
    rw [Bool.not_eq_true', Bool.eq_false_iff, ne_eq, searched_none,
      comment_of_owner howner] at hkept
    exact hkept (contains_clusterNeedle ip)
  rw [hold, List.nil_append, List.filter_eq_self]
  intro r hr
  obtain ⟨ip, -, rfl⟩ := List.mem_map.mp hr
  simp [clusterRule, UfwRule.clusterRuleOf]

theorem step_clusterSync :
    ufw.step (.clusterSync member members) =
      runScript ufw (clusterUfwScript member.ref member.clusterPort
        (peerIps (members.map (·.entry)) member.entry)) :=
  rfl

theorem confined_clusterScript {ips : List String} (hips : ips ≠ []) :
    Confined member.ref ufw
        (runScript ufw (clusterUfwScript member.ref member.clusterPort ips)) ↔
      OnlyOwn member.ref (clusterNeedle member.ref) ufw := by
  rw [run_clusterScript hips, confined_iff]
  · refine forall₃_congr fun r _ _ => ?_
    rw [Bool.not_eq_true', Bool.eq_false_iff, ne_eq, searched_none]
  · intro r hr
    obtain ⟨ip, -, rfl⟩ := List.mem_map.mp hr
    simp [clusterRule, UfwRule.ownedBy]

theorem colonFree_of_exact (hfree : ColonFreePeers ufw)
    (h : Exact ufw (ufw.step (.clusterSync member members)) (.clusterSync member members))
    {m : ResolvedMember} (hm : IsPeer member members m) : ':' ∉ m.publicHost.toList := by
  have hmem := (h.2 (clusterRule member.ref member.clusterPort m.publicHost)).mpr ⟨m, hm, rfl⟩
  rw [step_clusterSync] at hmem
  by_cases hips : peerIps (members.map (·.entry)) member.entry = []
  · rw [hips] at hmem
    exact hfree _ (List.mem_filter.mp hmem).1 member.ref _ rfl
  · rw [clusterRules_run hips] at hmem
    obtain ⟨ip, hip, heq⟩ := List.mem_map.mp hmem
    rw [← clusterRule_injective heq]
    exact peerIps_colonFree hip

theorem clusterSync_right_iff (hfree : ColonFreePeers ufw) :
    EditedRight ufw (.clusterSync member members) ↔
      EditsApart ufw (.clusterSync member members) := by
  by_cases hpeer : ∃ m, IsPeer member members m
  · constructor
    · rintro ⟨hconfined, hexact⟩
      have hhosts : ∀ m, IsPeer member members m → ':' ∉ m.publicHost.toList :=
        fun m hm => colonFree_of_exact hfree hexact hm
      obtain ⟨m, hm⟩ := hpeer
      have hips : peerIps (members.map (·.entry)) member.entry ≠ [] :=
        List.ne_nil_of_mem ((mem_peerIps_of_colonFree hhosts).mpr ⟨m, hm, rfl⟩)
      refine ⟨fun _ => (confined_clusterScript hips).mp hconfined, hhosts, ?_⟩
      exact fun hnone => absurd ⟨m, hm⟩ hnone
    · rintro ⟨hown, hhosts, -⟩
      obtain ⟨m, hm⟩ := hpeer
      have hips : peerIps (members.map (·.entry)) member.entry ≠ [] :=
        List.ne_nil_of_mem ((mem_peerIps_of_colonFree hhosts).mpr ⟨m, hm, rfl⟩)
      refine ⟨(confined_clusterScript hips).mpr (hown ⟨m, hm⟩), ?_⟩
      rw [step_clusterSync]
      simp only [Exact, clusterRules_run hips, List.mem_map]
      refine ⟨(nodup_foldl_pushNew _ List.nodup_nil).map clusterRule_injective, fun r => ?_⟩
      constructor
      · rintro ⟨ip, hip, rfl⟩
        obtain ⟨m, hm, rfl⟩ := (mem_peerIps_of_colonFree hhosts).mp hip
        exact ⟨m, hm, rfl⟩
      · rintro ⟨m, hm, rfl⟩
        exact ⟨m.publicHost, (mem_peerIps_of_colonFree hhosts).mpr ⟨m, hm, rfl⟩, rfl⟩
  · -- the script is empty: the rules are as they were
    have hips : peerIps (members.map (·.entry)) member.entry = [] := by
      rw [List.eq_nil_iff_forall_not_mem]
      intro ip hip
      obtain ⟨-, m, hm, -⟩ := mem_peerIps.mp hip
      exact hpeer ⟨m, hm⟩
    have hsame : ufw.step (.clusterSync member members) = ufw := by
      rw [step_clusterSync, hips]
      rfl
    unfold EditedRight
    rw [hsame]
    constructor
    · rintro ⟨-, -, hexact⟩
      refine ⟨fun h => absurd h hpeer, fun m hm => absurd ⟨m, hm⟩ hpeer, fun _ r hr => ?_⟩
      by_contra hcluster
      obtain ⟨m, hm, -⟩ := (hexact r).mp (List.mem_filter.mpr ⟨hr, by simpa using hcluster⟩)
      exact hpeer ⟨m, hm⟩
    · rintro ⟨-, -, hnone⟩
      have hempty : ufw.filter (UfwRule.clusterRuleOf member.ref) = [] := by
        rw [List.filter_eq_nil_iff]
        intro r hr
        simp [hnone hpeer r hr]
      refine ⟨rfl, ?_⟩
      simp only [Exact, hempty]
      refine ⟨List.nodup_nil, fun r => ⟨(fun h => nomatch h), ?_⟩⟩
      rintro ⟨m, hm, -⟩
      exact absurd ⟨m, hm⟩ hpeer

/-! ## Runs -/

/-- A firewall the manager has not touched yet. -/
def start (rules : List (RuleBody × ForeignComment)) : Ufw :=
  rules.map fun rule => ⟨rule.1, .untagged rule.2⟩

theorem colonFreePeers_start (rules : List (RuleBody × ForeignComment)) :
    ColonFreePeers (start rules) := by
  intro r hr i ip howner
  obtain ⟨rule, -, rfl⟩ := List.mem_map.mp hr
  cases howner

theorem ColonFreePeers.append (hfree : ColonFreePeers ufw) {keep : UfwRule → Bool}
    {new : List UfwRule} (hnew : ColonFreePeers new) :
    ColonFreePeers (ufw.filter keep ++ new) := by
  intro r hr i ip howner
  rcases List.mem_append.mp hr with hold | hr
  · exact hfree r (List.mem_filter.mp hold).1 i ip howner
  · exact hnew r hr i ip howner

theorem ColonFreePeers.step (hfree : ColonFreePeers ufw) (e : FirewallEvent) :
    ColonFreePeers (ufw.step e) := by
  cases e with
  | install i network =>
    rw [step_install]
    refine hfree.append fun r hr j ip howner => ?_
    simp only [portRules, List.mem_cons, List.not_mem_nil, or_false] at hr
    rcases hr with rfl | rfl
    · cases howner
    · cases howner
  | uninstall i =>
    rw [step_uninstall, ← List.append_nil (ufw.filter _)]
    exact hfree.append fun r hr => nomatch hr
  | clusterSync member members =>
    rw [step_clusterSync]
    by_cases hips : peerIps (members.map (·.entry)) member.entry = []
    · rw [hips]
      exact hfree
    · rw [run_clusterScript hips]
      refine hfree.append fun r hr j ip howner => ?_
      obtain ⟨ip', hip, rfl⟩ := List.mem_map.mp hr
      cases howner
      exact peerIps_colonFree hip

theorem edited_step_iff (hfree : ColonFreePeers ufw) (e : FirewallEvent) :
    EditedRight ufw e ↔ EditsApart ufw e := by
  cases e with
  | install i network => exact install_right_iff
  | uninstall i => exact uninstall_right_iff
  | clusterSync member members => exact clusterSync_right_iff hfree

/-- Along a run of scripts, each leaves the rules of others alone and makes the rules
of its instance what they are to be exactly when each finds only what is its own, and
no sync loses a peer by its host or is without peers where it has rules to take away. -/
theorem edits_right_iff (rules : List (RuleBody × ForeignComment)) (es : List FirewallEvent) :
    Along step EditedRight (start rules) es ↔ Along step EditsApart (start rules) es :=
  along_congr_inv ColonFreePeers (colonFreePeers_start rules) (fun _ e h => h.step e)
    fun _ e h => edited_step_iff h e

/-- An instance whose id begins as another's goes with it. -/
theorem uninstall_takes_a_neighbour :
    ¬ ∀ (rules : List (RuleBody × ForeignComment)) (es : List FirewallEvent),
      Along step EditedRight (start rules) es := by
  intro h
  have hrun := h [] [.install ⟨"acdc", "ab"⟩ ⟨3578, 35035⟩, .uninstall ⟨"acdc", "a"⟩]
  have hlength := congrArg List.length hrun.2.1.1
  revert hlength
  decide +kernel

end Ufw

end ConquerD.Manager
