import ConquerD.Lib.Highest
import ConquerD.Lib.Run
import ConquerD.Supernode.Space

/-!
# Gossip of Space roots

Roots reach a member from owners, from clients that carry them and from other
members, in any order and more than once. Where every space has one signer and
one hash per epoch, each offer is a step up or nothing, and members that heard
of the same roots hold the same epochs, signers and hashes. What else a root
says (when it was issued, over how many nodes) is that of the first root of its
epoch to arrive.
-/

namespace ConquerD.Supernode

open Std (ExtTreeMap)
open Lib.Highest Lib.Run Wire

/-- What a root commits its space to. -/
def commitment (root : SignedSpaceRoot) : String × Nat × String :=
  (root.signer, root.epoch, root.rootHash)

structure NoEquivocation (P : Platform) (roots : List SignedSpaceRoot) : Prop where
  verified : ∀ r ∈ roots, r.verify P = true
  signer : ∀ r ∈ roots, ∀ r' ∈ roots, r.spaceId = r'.spaceId → r.signer = r'.signer
  rootHash : ∀ r ∈ roots, ∀ r' ∈ roots, r.spaceId = r'.spaceId → r.epoch = r'.epoch →
    r.rootHash = r'.rootHash

theorem NoEquivocation.commitment_eq {P : Platform} {roots : List SignedSpaceRoot}
    (h : NoEquivocation P roots) {r r' : SignedSpaceRoot} (hr : r ∈ roots) (hr' : r' ∈ roots)
    (hspace : r.spaceId = r'.spaceId) (hepoch : r.epoch = r'.epoch) :
    commitment r = commitment r' := by
  unfold commitment
  rw [h.signer r hr r' hr' hspace, hepoch, h.rootHash r hr r' hr' hspace hepoch]

namespace SpaceRootStore

variable (P : Platform)

/-- The store after the roots arrived, in this order. -/
def deliver (store : SpaceRootStore) (roots : List SignedSpaceRoot) : SpaceRootStore :=
  run (fun s r => (accept P s r).1) store roots

/-- The store holds nothing but some of the roots, under their spaces. -/
def HoldsOnly (store : SpaceRootStore) (roots : List SignedSpaceRoot) : Prop :=
  ∀ s r, store.get s = some r → r ∈ roots ∧ r.spaceId = s

/-- No step of a store goes down: what is held stays or gives way to a higher
epoch. -/
def EpochsRise (store : SpaceRootStore) (root : SignedSpaceRoot) : Prop :=
  ∀ s r, store.get s = some r → ∃ r', (accept P store root).1.get s = some r' ∧
    (r' = r ∨ r.epoch < r'.epoch)

variable {P} {store : SpaceRootStore} {roots : List SignedSpaceRoot} {root : SignedSpaceRoot}

theorem get_accept (h : NoEquivocation P roots) (hheld : store.HoldsOnly roots)
    (hroot : root ∈ roots) (s : String) :
    (accept P store root).1.get s =
      if root.spaceId = s then keepHigher SignedSpaceRoot.epoch (store.get s) root
      else store.get s := by
  have hstored : get { store with roots := store.roots.insert root.spaceId root } s =
      if root.spaceId = s then some root else store.get s := by
    simp only [get, ExtTreeMap.getElem?_insert, Std.compare_eq_iff_eq]
  simp only [accept, h.verified root hroot, Bool.not_true, Bool.false_eq_true, if_false]
  cases hget : store.get root.spaceId with
  | none =>
    simp only [hstored]
    split
    · rename_i heq
      rw [← heq, hget]
      rfl
    · rfl
  | some existing =>
    obtain ⟨hmem, hspace⟩ := hheld _ _ hget
    have hsigner := h.signer existing hmem root hroot hspace
    have hnot : ¬ (root.epoch = existing.epoch ∧ root.rootHash ≠ existing.rootHash) := by
      rintro ⟨hepoch, hne⟩
      exact hne (h.rootHash root hroot existing hmem hspace.symm hepoch)
    simp only [hsigner, ne_eq, not_true_eq_false, if_false]
    rw [if_neg hnot]
    by_cases heq : root.spaceId = s
    · subst heq
      rw [if_pos rfl, hget]
      simp only [keepHigher]
      split
      · exact hget
      · rw [hstored, if_pos rfl]
    · rw [if_neg heq]
      split
      · rfl
      · rw [hstored, if_neg heq]

theorem accept_equivocations (h : NoEquivocation P roots) (hheld : store.HoldsOnly roots)
    (hroot : root ∈ roots) :
    (accept P store root).1.equivocations = store.equivocations := by
  simp only [accept, h.verified root hroot, Bool.not_true, Bool.false_eq_true, if_false]
  cases hget : store.get root.spaceId with
  | none => rfl
  | some existing =>
    obtain ⟨hmem, hspace⟩ := hheld _ _ hget
    have hnot : ¬ (root.epoch = existing.epoch ∧ root.rootHash ≠ existing.rootHash) := by
      rintro ⟨hepoch, hne⟩
      exact hne (h.rootHash root hroot existing hmem hspace.symm hepoch)
    simp only [if_neg hnot]
    split
    · rfl
    · split
      · rfl
      · rfl

theorem epochsRise (h : NoEquivocation P roots) (hheld : store.HoldsOnly roots)
    (hroot : root ∈ roots) : EpochsRise P store root := by
  intro s r hr
  rw [get_accept h hheld hroot, hr]
  split
  · simp only [keepHigher]
    split
    · exact ⟨r, rfl, .inl rfl⟩
    · rename_i hlt
      exact ⟨root, rfl, .inr (not_le.mp hlt)⟩
  · exact ⟨r, rfl, .inl rfl⟩

/-! ## After some deliveries -/

structure Settled (store : SpaceRootStore) (heard : List SignedSpaceRoot) : Prop where
  held : store.HoldsOnly heard
  highest : ∀ r ∈ heard, ∃ m, store.get r.spaceId = some m ∧ r.epoch ≤ m.epoch
  quiet : store.equivocations = ∅

variable {heard heard' : List SignedSpaceRoot}

theorem Settled.new : Settled new [] := by
  refine ⟨?_, by simp, rfl⟩
  intro s r hr
  simp [SpaceRootStore.new, get] at hr

theorem Settled.accept (hs : Settled store heard) (h : NoEquivocation P roots)
    (hsub : heard ⊆ roots) (hroot : root ∈ roots) :
    Settled (accept P store root).1 (heard ++ [root]) := by
  have hheld : store.HoldsOnly roots := fun s r hr => ⟨hsub (hs.held s r hr).1, (hs.held s r hr).2⟩
  refine ⟨?_, ?_, ?_⟩
  · intro s r hr
    rw [get_accept h hheld hroot] at hr
    split at hr
    · rename_i hspace
      rcases keepHigher_mem hr with hold | rfl
      · exact ⟨List.mem_append_left _ (hs.held s r hold).1, (hs.held s r hold).2⟩
      · exact ⟨by simp, hspace⟩
    · exact ⟨List.mem_append_left _ (hs.held s r hr).1, (hs.held s r hr).2⟩
  · intro r hr
    rw [get_accept h hheld hroot]
    rcases List.mem_append.mp hr with hr | hr
    · obtain ⟨m, hm, hle⟩ := hs.highest r hr
      split
      · obtain ⟨m', hm'⟩ := Option.isSome_iff_exists.mp
          (@keepHigher_isSome _ _ _ SignedSpaceRoot.epoch (store.get r.spaceId) root)
        exact ⟨m', hm', hle.trans ((le_rank_keepHigher hm').2 m hm)⟩
      · exact ⟨m, hm, hle⟩
    · rw [List.mem_singleton.mp hr, if_pos rfl]
      obtain ⟨m', hm'⟩ := Option.isSome_iff_exists.mp
        (@keepHigher_isSome _ _ _ SignedSpaceRoot.epoch (store.get root.spaceId) root)
      exact ⟨m', hm', (le_rank_keepHigher hm').1⟩
  · rw [accept_equivocations h hheld hroot, hs.quiet]

theorem Settled.deliver (hs : Settled store heard) (h : NoEquivocation P roots)
    (hsub : heard ⊆ roots) (hsub' : heard' ⊆ roots) :
    Settled (deliver P store heard') (heard ++ heard') ∧
      Along (fun s r => (SpaceRootStore.accept P s r).1) (EpochsRise P) store heard' := by
  induction heard' generalizing store heard with
  | nil => exact ⟨by rw [List.append_nil]; exact hs, trivial⟩
  | cons root rest ih =>
    have hroot : root ∈ roots := hsub' List.mem_cons_self
    have hheld : store.HoldsOnly roots :=
      fun s r hr => ⟨hsub (hs.held s r hr).1, (hs.held s r hr).2⟩
    obtain ⟨hsettled, hrise⟩ := ih (hs.accept h hsub hroot)
      (List.append_subset.mpr ⟨hsub, by simpa using hroot⟩)
      fun r hr => hsub' (List.mem_cons_of_mem _ hr)
    rw [List.append_assoc, List.singleton_append] at hsettled
    exact ⟨hsettled, epochsRise h hheld hroot, hrise⟩

/-! ## Agreement -/

/-- Two stores commit every space to the same, and are equal when an epoch of a
space has one root only. -/
def Agree (roots : List SignedSpaceRoot) (a b : SpaceRootStore) : Prop :=
  (∀ s, (a.get s).map commitment = (b.get s).map commitment) ∧
    ((∀ r ∈ roots, ∀ r' ∈ roots, r.spaceId = r'.spaceId → r.epoch = r'.epoch → r = r') →
      a.roots = b.roots)

/-- For every space it holds, `b` holds as high an epoch as `a`. -/
def Covers (b a : SpaceRootStore) : Prop :=
  ∀ s m, a.get s = some m → ∃ m', b.get s = some m' ∧ m.epoch ≤ m'.epoch

theorem agree_of_covers {a b : SpaceRootStore} (h : NoEquivocation P roots)
    (ha : a.HoldsOnly roots) (hb : b.HoldsOnly roots) (hab : b.Covers a) (hba : a.Covers b) :
    Agree roots a b := by
  have hpair : ∀ s, (a.get s = none ∧ b.get s = none) ∨
      ∃ m ∈ roots, ∃ m' ∈ roots, a.get s = some m ∧ b.get s = some m' ∧
        m.spaceId = m'.spaceId ∧ m.epoch = m'.epoch := by
    intro s
    cases hm : a.get s with
    | none =>
      cases hm' : b.get s with
      | none => exact .inl ⟨rfl, rfl⟩
      | some m' =>
        obtain ⟨m, hsome, -⟩ := hba s m' hm'
        rw [hm] at hsome
        cases hsome
    | some m =>
      obtain ⟨m', hm', hle⟩ := hab s m hm
      obtain ⟨m'', hm'', hle'⟩ := hba s m' hm'
      rw [hm] at hm''
      cases hm''
      refine .inr ⟨m, (ha s m hm).1, m', (hb s m' hm').1, rfl, hm', ?_, le_antisymm hle hle'⟩
      rw [(ha s m hm).2, (hb s m' hm').2]
  constructor
  · intro s
    rcases hpair s with ⟨hm, hm'⟩ | ⟨m, hmem, m', hmem', hm, hm', hspace, hepoch⟩
    · rw [hm, hm']
    · rw [hm, hm', Option.map_some, Option.map_some, h.commitment_eq hmem hmem' hspace hepoch]
  · intro honly
    refine ExtTreeMap.ext_getElem? fun s => ?_
    rcases hpair s with ⟨hm, hm'⟩ | ⟨m, hmem, m', hmem', hm, hm', hspace, hepoch⟩
    · exact hm.trans hm'.symm
    · exact hm.trans ((congrArg some (honly m hmem m' hmem' hspace hepoch)).trans hm'.symm)

theorem Settled.covers {a b : SpaceRootStore} (hb : Settled b heard)
    (hsub : ∀ s m, a.get s = some m → ∃ r ∈ heard, r.spaceId = s ∧ m.epoch ≤ r.epoch) :
    b.Covers a := by
  intro s m hm
  obtain ⟨r, hr, rfl, hle⟩ := hsub s m hm
  obtain ⟨m', hm', hle'⟩ := hb.highest r hr
  exact ⟨m', hm', hle.trans hle'⟩

theorem mem_all {r : SignedSpaceRoot} : r ∈ store.all ↔ ∃ s, store.get s = some r := by
  simp [all, get]

/-- What one member holds is covered by another that heard what the first
gossips. -/
theorem Settled.covers_of_all {a b : SpaceRootStore} {la lb mb : List SignedSpaceRoot}
    (ha : Settled a la) (hb : Settled b lb) (hmb : ∀ r, r ∈ mb ↔ r ∈ b.all)
    {ma : List SignedSpaceRoot} (hma : ∀ r, r ∈ ma ↔ r ∈ a.all) {a' b' : SpaceRootStore}
    (ha' : Settled a' (la ++ mb)) (hb' : Settled b' (lb ++ ma)) : b'.Covers a' := by
  refine hb'.covers fun s m hm => ?_
  obtain ⟨hmem, hspace⟩ := ha'.held s m hm
  rcases List.mem_append.mp hmem with hla | hmb'
  · obtain ⟨top, htop, hle⟩ := ha.highest m hla
    refine ⟨top, List.mem_append_right _ ((hma top).mpr (mem_all.mpr ⟨_, htop⟩)), ?_, hle⟩
    rw [(ha.held _ _ htop).2, hspace]
  · obtain ⟨s', hs'⟩ := mem_all.mp ((hmb m).mp hmb')
    exact ⟨m, List.mem_append_left _ (hb.held s' m hs').1, hspace, le_rfl⟩

/-- Gossip converges: the order and the number of deliveries do not matter, the
highest epoch is held, nothing is counted as equivocation, stores only rise,
and two members that take in each other's roots agree. -/
structure Converges (P : Platform) (roots : List SignedSpaceRoot) : Prop where
  anyOrder : ∀ l l', (∀ r, r ∈ l ↔ r ∈ roots) → (∀ r, r ∈ l' ↔ r ∈ roots) →
    Agree roots (deliver P new l) (deliver P new l')
  highest : ∀ l, (∀ r, r ∈ l ↔ r ∈ roots) → ∀ r ∈ roots, ∃ m,
    (deliver P new l).get r.spaceId = some m ∧
      IsHighest SignedSpaceRoot.epoch (roots.filter (·.spaceId = r.spaceId)) m
  nothingElse : ∀ l, l ⊆ roots → (deliver P new l).HoldsOnly roots
  quiet : ∀ l, l ⊆ roots → (deliver P new l).equivocations = ∅
  rises : ∀ l, l ⊆ roots → Along (fun s r => (accept P s r).1) (EpochsRise P) new l
  merge : ∀ la lb, la ⊆ roots → lb ⊆ roots → ∀ ma mb,
    (∀ r, r ∈ ma ↔ r ∈ (deliver P new la).all) → (∀ r, r ∈ mb ↔ r ∈ (deliver P new lb).all) →
    Agree roots (deliver P (deliver P new la) mb) (deliver P (deliver P new lb) ma)

/-- Gossip converges wherever nobody equivocates. -/
theorem gossip_converges (h : NoEquivocation P roots) : Converges P roots := by
  have hsettled : ∀ l, l ⊆ roots → Settled (deliver P new l) l ∧
      Along (fun s r => (accept P s r).1) (EpochsRise P) new l :=
    fun l hl => Settled.new.deliver h (List.nil_subset _) hl
  have honly : ∀ {store l}, Settled store l → l ⊆ roots → store.HoldsOnly roots :=
    fun hs hl s r hr => ⟨hl (hs.held s r hr).1, (hs.held s r hr).2⟩
  have hall : ∀ l ma, l ⊆ roots → (∀ r, r ∈ ma ↔ r ∈ (deliver P new l).all) → ma ⊆ roots := by
    intro l ma hl hma r hr
    obtain ⟨s, hs⟩ := mem_all.mp ((hma r).mp hr)
    exact hl ((hsettled l hl).1.held s r hs).1
  refine ⟨?_, ?_, ?_, ?_, ?_, ?_⟩
  · intro l l' hl hl'
    have hsub : l ⊆ roots := fun r => (hl r).mp
    have hsub' : l' ⊆ roots := fun r => (hl' r).mp
    refine agree_of_covers h (honly (hsettled l hsub).1 hsub) (honly (hsettled l' hsub').1 hsub')
      ((hsettled l' hsub').1.covers ?_) ((hsettled l hsub).1.covers ?_)
    · intro s m hm
      obtain ⟨hmem, hspace⟩ := (hsettled l hsub).1.held s m hm
      exact ⟨m, (hl' m).mpr ((hl m).mp hmem), hspace, le_rfl⟩
    · intro s m hm
      obtain ⟨hmem, hspace⟩ := (hsettled l' hsub').1.held s m hm
      exact ⟨m, (hl m).mpr ((hl' m).mp hmem), hspace, le_rfl⟩
  · intro l hl r hr
    have hs := (hsettled l fun r => (hl r).mp).1
    obtain ⟨m, hm, -⟩ := hs.highest r ((hl r).mpr hr)
    obtain ⟨hmem, hspace⟩ := hs.held _ m hm
    refine ⟨m, hm, List.mem_filter.mpr ⟨(hl m).mp hmem, by simpa using hspace⟩, ?_⟩
    intro r' hr'
    obtain ⟨hr', hspace'⟩ := List.mem_filter.mp hr'
    obtain ⟨m', hm', hle⟩ := hs.highest r' ((hl r').mpr hr')
    rw [of_decide_eq_true hspace', hm] at hm'
    cases hm'
    exact hle
  · exact fun l hl => honly (hsettled l hl).1 hl
  · exact fun l hl => (hsettled l hl).1.quiet
  · exact fun l hl => (hsettled l hl).2
  · intro la lb hla hlb ma mb hma hmb
    have ha := (hsettled la hla).1
    have hb := (hsettled lb hlb).1
    have ha' := (ha.deliver h hla (hall lb mb hlb hmb)).1
    have hb' := (hb.deliver h hlb (hall la ma hla hma)).1
    exact agree_of_covers h (honly ha' (List.append_subset.mpr ⟨hla, hall lb mb hlb hmb⟩))
      (honly hb' (List.append_subset.mpr ⟨hlb, hall la ma hla hma⟩))
      (ha.covers_of_all hb hmb hma ha' hb') (hb.covers_of_all ha hma hmb hb' ha')

end SpaceRootStore

/-! ## Two roots of one epoch -/

/-- Alice's root of her space for an epoch, issued at some time. -/
def alicesRoot (epoch issuedAt : Nat) : SignedSpaceRoot where
  schema := 1
  spaceId := "space"
  epoch := epoch
  rootHash := "hash"
  nodeCount := 1
  issuedAt := issuedAt
  signer := alice.text
  signature := "signed"

theorem alicesRoot_verify (epoch issuedAt : Nat) :
    (alicesRoot epoch issuedAt).verify (platformOf alice) = true := by
  simp [SignedSpaceRoot.verify, verifyWithId, Platform.b64urlDecode, platformOf,
    Platform.symbolic, alicesRoot]

theorem noEquivocation_alice (dates : List (Nat × Nat)) :
    NoEquivocation (platformOf alice) (dates.map fun d => alicesRoot d.1 d.2) := by
  have hroot : ∀ r ∈ dates.map (fun d => alicesRoot d.1 d.2), ∃ e t, r = alicesRoot e t := by
    intro r hr
    obtain ⟨d, -, rfl⟩ := List.mem_map.mp hr
    exact ⟨_, _, rfl⟩
  refine ⟨?_, ?_, ?_⟩
  · intro r hr
    obtain ⟨e, t, rfl⟩ := hroot r hr
    exact alicesRoot_verify e t
  · intro r hr r' hr' _
    obtain ⟨e, t, rfl⟩ := hroot r hr
    obtain ⟨e', t', rfl⟩ := hroot r' hr'
    rfl
  · intro r hr r' hr' _ _
    obtain ⟨e, t, rfl⟩ := hroot r hr
    obtain ⟨e', t', rfl⟩ := hroot r' hr'
    rfl

theorem gossip_converges_alice : SpaceRootStore.Converges (platformOf alice)
    [alicesRoot 1 0, alicesRoot 1 60, alicesRoot 2 90] :=
  SpaceRootStore.gossip_converges (noEquivocation_alice [(1, 0), (1, 60), (2, 90)])

/-- Alice signs one tree twice for one epoch. Which of the two roots is held
depends on which came first. -/
theorem firstRoot_of_epoch_stays :
    NoEquivocation (platformOf alice) [alicesRoot 1 0, alicesRoot 1 60] ∧
      (SpaceRootStore.deliver (platformOf alice) .new [alicesRoot 1 0, alicesRoot 1 60]).roots ≠
        (SpaceRootStore.deliver (platformOf alice) .new [alicesRoot 1 60, alicesRoot 1 0]).roots := by
  refine ⟨noEquivocation_alice [(1, 0), (1, 60)], ?_⟩
  intro h
  have hissued : ((SpaceRootStore.deliver (platformOf alice) .new
      [alicesRoot 1 0, alicesRoot 1 60]).get "space").map SignedSpaceRoot.issuedAt ≠
    ((SpaceRootStore.deliver (platformOf alice) .new
      [alicesRoot 1 60, alicesRoot 1 0]).get "space").map SignedSpaceRoot.issuedAt := by
    decide +kernel
  unfold SpaceRootStore.get at hissued
  rw [h] at hissued
  exact hissued rfl

end ConquerD.Supernode
