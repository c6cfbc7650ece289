import Mathlib.Algebra.Order.Group.Nat
import Mathlib.Data.Nat.Log
import Mathlib.Tactic.TypeStar

/-!
# Merkle trees over a list of leaves

A list of more than one leaf is cut at the largest power of two below its
length, and the roots of the two parts are combined. An audit path holds the
roots of the parts that a leaf is not in; climbing it from the leaf gives the
root again. The combining function is arbitrary: what soundness needs is that
it does not take two different pairs, met on the climb and in the tree, to one
value, nor a pair to a leaf.
-/

namespace ConquerD.Lib.Merkle

/-! ## The cut -/

/-- The largest power of two strictly below `n`, for `n ≥ 2`. -/
def cut (n : Nat) : Nat :=
  2 ^ (n - 1).log2

theorem cut_pos (n : Nat) : 0 < cut n :=
  Nat.two_pow_pos _

theorem cut_lt {n : Nat} (h : 2 ≤ n) : cut n < n := by
  have hle : cut n ≤ n - 1 := Nat.log2_self_le (by omega)
  omega

theorem le_two_mul_cut (n : Nat) : n ≤ 2 * cut n := by
  have hlt : n - 1 < 2 ^ ((n - 1).log2 + 1) := Nat.lt_log2_self
  rw [Nat.pow_succ] at hlt
  unfold cut
  omega

theorem cut_le_of_le {n c : Nat} (h : n ≤ 2 ^ (c + 1)) : cut n ≤ 2 ^ c := by
  unfold cut
  by_cases hn : n - 1 = 0
  · rw [hn]
    exact Nat.one_le_two_pow
  · refine Nat.pow_le_pow_right (by omega) (Nat.lt_succ_iff.mp ?_)
    have hlt : n - 1 < n := by omega
    exact (Nat.log2_lt hn).mpr (hlt.trans_le h)

theorem dvd_cut {n c : Nat} (h : 2 ^ c < n) : 2 ^ c ∣ cut n := by
  have hpos := Nat.two_pow_pos c
  exact Nat.pow_dvd_pow 2 ((Nat.le_log2 (by omega)).mpr (by omega))

theorem cut_two_pow (c : Nat) : cut (2 ^ (c + 1)) = 2 ^ c := by
  refine Nat.le_antisymm (cut_le_of_le le_rfl) ?_
  exact Nat.le_of_dvd (cut_pos _) (dvd_cut (Nat.pow_lt_pow_right (by omega) (by omega)))

/-! ## Roots, paths and climbs -/

variable {η : Type*} (node : η → η → η) (empty : η)

/-- The root over the leaves. -/
def root : List η → η
  | [] => empty
  | [leaf] => leaf
  | leaf :: leaf' :: rest =>
    let leaves := leaf :: leaf' :: rest
    node (root (leaves.take (cut leaves.length))) (root (leaves.drop (cut leaves.length)))
termination_by leaves => leaves.length
decreasing_by
  · have hlt := cut_lt (n := (leaf :: leaf' :: rest).length) (by simp)
    rw [List.length_take]
    omega
  · have hpos := cut_pos (leaf :: leaf' :: rest).length
    rw [List.length_drop]
    simp only [List.length_cons] at hpos ⊢
    omega

/-- The audit path of the leaf at `m`, deepest sibling first. -/
def auditPath (m : Nat) (leaves : List η) : List η :=
  if leaves.length ≤ 1 then []
  else
    let k := cut leaves.length
    if m < k then auditPath m (leaves.take k) ++ [root node empty (leaves.drop k)]
    else auditPath (m - k) (leaves.drop k) ++ [root node empty (leaves.take k)]
termination_by leaves.length
decreasing_by
  · next hlen _ =>
    have hlt := cut_lt (n := leaves.length) (by omega)
    rw [List.length_take]
    omega
  · next hlen _ =>
    have hpos := cut_pos leaves.length
    rw [List.length_drop]
    omega

/-- Climbs a path from the leaf at `m` in a tree of `n` leaves, topmost sibling first. -/
def climb (leaf : η) : Nat → Nat → List η → Option η
  | m, n, [] => if n = 0 ∨ m ≥ n then none else if n = 1 then some leaf else none
  | m, n, top :: rest =>
    if n = 0 ∨ m ≥ n then none
    else if n = 1 then none
    else if m < cut n then (climb leaf m (cut n) rest).map fun left => node left top
    else (climb leaf (m - cut n) (n - cut n) rest).map fun right => node top right

/-- The pairs that are combined on the way to the root. -/
def pairs : List η → List (η × η)
  | [] => []
  | [_] => []
  | leaf :: leaf' :: rest =>
    let leaves := leaf :: leaf' :: rest
    (root node empty (leaves.take (cut leaves.length)),
        root node empty (leaves.drop (cut leaves.length))) ::
      (pairs (leaves.take (cut leaves.length)) ++ pairs (leaves.drop (cut leaves.length)))
termination_by leaves => leaves.length
decreasing_by
  · have hlt := cut_lt (n := (leaf :: leaf' :: rest).length) (by simp)
    rw [List.length_take]
    omega
  · have hpos := cut_pos (leaf :: leaf' :: rest).length
    rw [List.length_drop]
    simp only [List.length_cons] at hpos ⊢
    omega

/-- The pairs that are combined on a climb. -/
def climbPairs (leaf : η) : Nat → Nat → List η → List (η × η)
  | _, _, [] => []
  | m, n, top :: rest =>
    if m < cut n then
      ((climb node leaf m (cut n) rest).map fun left => (left, top)).toList ++
        climbPairs leaf m (cut n) rest
    else
      ((climb node leaf (m - cut n) (n - cut n) rest).map fun right => (top, right)).toList ++
        climbPairs leaf (m - cut n) (n - cut n) rest

variable {node empty} {leaf : η} {leaves path : List η} {m m' n n' : Nat}

@[simp] theorem root_singleton : root node empty [leaf] = leaf := by
  rw [root]

theorem root_eq (h : 2 ≤ leaves.length) :
    root node empty leaves =
      node (root node empty (leaves.take (cut leaves.length)))
        (root node empty (leaves.drop (cut leaves.length))) := by
  match leaves, h with
  | leaf :: leaf' :: rest, _ => rw [root]

@[simp] theorem pairs_singleton : pairs node empty [leaf] = [] := by
  rw [pairs]

theorem pairs_eq (h : 2 ≤ leaves.length) :
    pairs node empty leaves =
      (root node empty (leaves.take (cut leaves.length)),
          root node empty (leaves.drop (cut leaves.length))) ::
        (pairs node empty (leaves.take (cut leaves.length)) ++
          pairs node empty (leaves.drop (cut leaves.length))) := by
  match leaves, h with
  | leaf :: leaf' :: rest, _ => rw [pairs]

theorem root_pair {x y : η} : root node empty [x, y] = node x y := by
  have hcut : cut [x, y].length = 1 := rfl
  rw [root_eq (by simp), hcut]
  exact congrArg₂ node root_singleton root_singleton

theorem pairs_pair {x y : η} : pairs node empty [x, y] = [(x, y)] := by
  have hcut : cut [x, y].length = 1 := rfl
  rw [pairs_eq (by simp), hcut]
  simp

theorem climb_pair {top : η} : climb node leaf 1 2 [top] = some (node top leaf) := by
  have hcut : cut 2 = 1 := rfl
  simp [climb, hcut]

theorem climbPairs_pair {top : η} : climbPairs node leaf 1 2 [top] = [(top, leaf)] := by
  have hcut : cut 2 = 1 := rfl
  simp [climbPairs, climb, hcut]

theorem length_take_cut (leaves : List η) (h : 2 ≤ leaves.length) :
    (leaves.take (cut leaves.length)).length = cut leaves.length := by
  rw [List.length_take]
  exact Nat.min_eq_left (Nat.le_of_lt (cut_lt h))

theorem climb_cons (hn : 2 ≤ n) (hm : m < n) (top : η) (rest : List η) :
    climb node leaf m n (top :: rest) =
      if m < cut n then (climb node leaf m (cut n) rest).map fun left => node left top
      else (climb node leaf (m - cut n) (n - cut n) rest).map fun right => node top right := by
  rw [climb, if_neg (by omega), if_neg (by omega)]

theorem lt_of_climb {r : η} (h : climb node leaf m n path = some r) : m < n := by
  cases path with
  | nil =>
    rw [climb] at h
    split at h
    · cases h
    · omega
  | cons top rest =>
    rw [climb] at h
    split at h
    · cases h
    · omega

/-! ## Completeness -/

theorem climb_auditPath (hleaf : leaves[m]? = some leaf) :
    climb node leaf m leaves.length (auditPath node empty m leaves).reverse =
      some (root node empty leaves) := by
  obtain ⟨hm, -⟩ := List.getElem?_eq_some_iff.mp hleaf
  induction m, leaves using auditPath.induct with
  | case1 m leaves hlen =>
    obtain ⟨x, rfl⟩ : ∃ x, leaves = [x] := List.length_eq_one_iff.mp (by omega)
    obtain rfl : m = 0 := by simpa using hm
    obtain rfl : x = leaf := by simpa using hleaf
    rw [auditPath, if_pos hlen]
    simp [climb]
  | case2 m leaves hlen k hlt ih =>
    have htake := length_take_cut leaves (by omega)
    have hrec := ih (by rw [List.getElem?_take_of_lt hlt]; exact hleaf) (htake ▸ hlt)
    rw [auditPath, if_neg hlen, root_eq (by omega)]
    dsimp only
    rw [if_pos hlt, List.reverse_append, List.reverse_singleton, List.singleton_append,
      climb_cons (by omega) hm, if_pos hlt]
    rw [htake] at hrec
    rw [hrec]
    rfl
  | case3 m leaves hlen k hge ih =>
    have hrec := ih (by rw [List.getElem?_drop, Nat.add_sub_cancel' (by omega)]; exact hleaf)
      (by rw [List.length_drop]; omega)
    rw [auditPath, if_neg hlen, root_eq (by omega)]
    dsimp only
    rw [if_neg hge, List.reverse_append, List.reverse_singleton, List.singleton_append,
      climb_cons (by omega) hm, if_neg hge]
    rw [List.length_drop] at hrec
    rw [hrec]
    rfl

theorem length_auditPath_le {c : Nat} (h : leaves.length ≤ 2 ^ c) :
    (auditPath node empty m leaves).length ≤ c := by
  induction c generalizing m leaves with
  | zero =>
    rw [auditPath, if_pos (by simpa using h)]
    exact Nat.zero_le 0
  | succ c ih =>
    rw [auditPath]
    split
    · exact Nat.zero_le _
    · next hlen =>
      have hk := cut_le_of_le h
      have htwo := le_two_mul_cut leaves.length
      dsimp only
      split
      · have hleft : (leaves.take (cut leaves.length)).length ≤ 2 ^ c := by
          rw [length_take_cut _ (by omega)]
          exact hk
        have hrec := ih (m := m) hleft
        rw [List.length_append, List.length_singleton]
        omega
      · have hright : (leaves.drop (cut leaves.length)).length ≤ 2 ^ c := by
          rw [List.length_drop]
          omega
        have hrec := ih (m := m - cut leaves.length) hright
        rw [List.length_append, List.length_singleton]
        omega

theorem root_of_forall {p : η → Prop} (hempty : p empty) (hleaf : ∀ x ∈ leaves, p x)
    (hnode : ∀ a b, p (node a b)) : p (root node empty leaves) := by
  match leaves with
  | [] =>
    rw [root]
    exact hempty
  | [x] =>
    rw [root]
    exact hleaf x List.mem_cons_self
  | x :: y :: rest =>
    rw [root]
    exact hnode _ _

theorem forall_auditPath {p : η → Prop} (hempty : p empty) (hleaf : ∀ x ∈ leaves, p x)
    (hnode : ∀ a b, p (node a b)) : ∀ x ∈ auditPath node empty m leaves, p x := by
  induction m, leaves using auditPath.induct with
  | case1 m leaves hlen =>
    rw [auditPath, if_pos hlen]
    exact fun x hx => nomatch hx
  | case2 m leaves hlen k hlt ih =>
    rw [auditPath, if_neg hlen]
    dsimp only
    rw [if_pos hlt]
    intro x hx
    rcases List.mem_append.mp hx with hx | hx
    · exact ih (fun x hx => hleaf x (List.mem_of_mem_take hx)) x hx
    · rw [List.mem_singleton.mp hx]
      exact root_of_forall hempty (fun x hx => hleaf x (List.mem_of_mem_drop hx)) hnode
  | case3 m leaves hlen k hge ih =>
    rw [auditPath, if_neg hlen]
    dsimp only
    rw [if_neg hge]
    intro x hx
    rcases List.mem_append.mp hx with hx | hx
    · exact ih (fun x hx => hleaf x (List.mem_of_mem_drop hx)) x hx
    · rw [List.mem_singleton.mp hx]
      exact root_of_forall hempty (fun x hx => hleaf x (List.mem_of_mem_take hx)) hnode

/-- What holds of leaves and of combined values holds of what is combined in a tree. -/
theorem forall_pairs {p : η → Prop} (hempty : p empty) (hleaf : ∀ x ∈ leaves, p x)
    (hnode : ∀ a b, p (node a b)) : ∀ q ∈ pairs node empty leaves, p q.1 ∧ p q.2 := by
  induction leaves using pairs.induct with
  | case1 =>
    rw [pairs]
    exact fun q hq => nomatch hq
  | case2 x =>
    rw [pairs]
    exact fun q hq => nomatch hq
  | case3 x y rest leaves ihLeft ihRight =>
    have hleft : ∀ x ∈ leaves.take (cut leaves.length), p x := fun x hx =>
      hleaf x (List.mem_of_mem_take hx)
    have hright : ∀ x ∈ leaves.drop (cut leaves.length), p x := fun x hx =>
      hleaf x (List.mem_of_mem_drop hx)
    intro q hq
    rw [pairs] at hq
    rcases List.mem_cons.mp hq with rfl | hq
    · exact ⟨root_of_forall hempty hleft hnode, root_of_forall hempty hright hnode⟩
    · rcases List.mem_append.mp hq with hq | hq
      · exact ihLeft hleft q hq
      · exact ihRight hright q hq

theorem climb_of_forall {p : η → Prop} (hleaf : p leaf) (hnode : ∀ a b, p (node a b)) {r : η}
    (h : climb node leaf m n path = some r) : p r := by
  cases path with
  | nil =>
    rw [climb] at h
    split at h
    · cases h
    · split at h
      · cases h
        exact hleaf
      · cases h
  | cons top rest =>
    rw [climb] at h
    split at h
    · cases h
    · split at h
      · cases h
      · split at h <;>
        · obtain ⟨_, -, rfl⟩ := Option.map_eq_some_iff.mp h
          exact hnode _ _

theorem forall_climbPairs {p : η → Prop} (hleaf : p leaf) (hpath : ∀ x ∈ path, p x)
    (hnode : ∀ a b, p (node a b)) : ∀ q ∈ climbPairs node leaf m n path, p q.1 ∧ p q.2 := by
  induction path generalizing m n with
  | nil => exact fun q hq => nomatch hq
  | cons top rest ih =>
    have htop : p top := hpath top List.mem_cons_self
    have hrest : ∀ x ∈ rest, p x := fun x hx => hpath x (List.mem_cons_of_mem _ hx)
    intro q hq
    rw [climbPairs] at hq
    split at hq
    · rcases List.mem_append.mp hq with hq | hq
      · obtain ⟨l, hl, rfl⟩ := Option.map_eq_some_iff.mp (Option.mem_toList.mp hq)
        exact ⟨climb_of_forall hleaf hnode hl, htop⟩
      · exact ih hrest q hq
    · rcases List.mem_append.mp hq with hq | hq
      · obtain ⟨r, hr, rfl⟩ := Option.map_eq_some_iff.mp (Option.mem_toList.mp hq)
        exact ⟨htop, climb_of_forall hleaf hnode hr⟩
      · exact ih hrest q hq

/-! ## Soundness -/

inductive SameTurns : Nat → Nat → Nat → Nat → Prop
  | leaf : SameTurns 0 1 0 1
  | left {m n m' n' : Nat} : 2 ≤ n → 2 ≤ n' → m < cut n → m' < cut n' →
      SameTurns m (cut n) m' (cut n') → SameTurns m n m' n'
  | right {m n m' n' : Nat} : 2 ≤ n → 2 ≤ n' → cut n ≤ m → cut n' ≤ m' →
      SameTurns (m - cut n) (n - cut n) (m' - cut n') (n' - cut n') → SameTurns m n m' n'

theorem mem_pairs_take {q : η × η} (h : 2 ≤ leaves.length)
    (hq : q ∈ pairs node empty (leaves.take (cut leaves.length))) : q ∈ pairs node empty leaves := by
  rw [pairs_eq h]
  exact List.mem_cons_of_mem _ (List.mem_append_left _ hq)

theorem mem_pairs_drop {q : η × η} (h : 2 ≤ leaves.length)
    (hq : q ∈ pairs node empty (leaves.drop (cut leaves.length))) : q ∈ pairs node empty leaves := by
  rw [pairs_eq h]
  exact List.mem_cons_of_mem _ (List.mem_append_right _ hq)

theorem exists_sameTurns (hleaves : leaves ≠ [])
    (hnode : ∀ p ∈ climbPairs node leaf m n path, ∀ q ∈ pairs node empty leaves,
      node p.1 p.2 = node q.1 q.2 → p = q)
    (hleaf : ∀ q ∈ pairs node empty leaves, leaf ≠ node q.1 q.2)
    (hinner : ∀ p ∈ climbPairs node leaf m n path, ∀ x ∈ leaves, node p.1 p.2 ≠ x)
    (h : climb node leaf m n path = some (root node empty leaves)) :
    ∃ i, leaves[i]? = some leaf ∧ SameTurns m n i leaves.length := by
  have hm := lt_of_climb h
  induction path generalizing m n leaves with
  | nil =>
    have hone : n = 1 ∧ leaf = root node empty leaves := by
      rw [climb, if_neg (by omega)] at h
      split at h
      · next hn => exact ⟨hn, Option.some.inj h⟩
      · cases h
    obtain ⟨rfl, hroot⟩ := hone
    obtain rfl : m = 0 := by omega
    by_cases hlen : leaves.length = 1
    · obtain ⟨x, rfl⟩ := List.length_eq_one_iff.mp hlen
      rw [root_singleton] at hroot
      exact ⟨0, by rw [hroot]; rfl, .leaf⟩
    · have hpos := List.length_pos_iff.mpr hleaves
      rw [root_eq (by omega)] at hroot
      refine absurd hroot (hleaf (_, _) ?_)
      rw [pairs_eq (by omega)]
      exact List.mem_cons_self
  | cons top rest ih =>
    have hn : 2 ≤ n := by
      by_contra hlt
      rw [climb, if_neg (by omega), if_pos (by omega)] at h
      cases h
    rw [climb_cons hn hm] at h
    by_cases hlen : leaves.length = 1
    · -- a pair is not the leaf of a tree of one leaf
      obtain ⟨x, rfl⟩ := List.length_eq_one_iff.mp hlen
      rw [root_singleton] at h
      split at h
      · next hlt =>
        obtain ⟨l, hl, hroot⟩ := Option.map_eq_some_iff.mp h
        refine absurd hroot (hinner (l, top) ?_ x List.mem_cons_self)
        rw [climbPairs, if_pos hlt, hl]
        exact List.mem_cons_self
      · next hge =>
        obtain ⟨r, hr, hroot⟩ := Option.map_eq_some_iff.mp h
        refine absurd hroot (hinner (top, r) ?_ x List.mem_cons_self)
        rw [climbPairs, if_neg hge, hr]
        exact List.mem_cons_self
    · have hpos := List.length_pos_iff.mpr hleaves
      have htwo : 2 ≤ leaves.length := by omega
      have hk := cut_lt htwo
      have hkpos := cut_pos leaves.length
      have htake := length_take_cut leaves htwo
      have htop : (root node empty (leaves.take (cut leaves.length)),
          root node empty (leaves.drop (cut leaves.length))) ∈ pairs node empty leaves := by
        rw [pairs_eq htwo]
        exact List.mem_cons_self
      rw [root_eq htwo] at h
      split at h
      · next hlt =>
        obtain ⟨l, hl, hroot⟩ := Option.map_eq_some_iff.mp h
        have hclimbed : ∀ p ∈ climbPairs node leaf m (cut n) rest,
            p ∈ climbPairs node leaf m n (top :: rest) := fun p hp => by
          rw [climbPairs, if_pos hlt]
          exact List.mem_append_right _ hp
        have hpair : (l, top) ∈ climbPairs node leaf m n (top :: rest) := by
          rw [climbPairs, if_pos hlt, hl]
          exact List.mem_cons_self
        obtain ⟨rfl, -⟩ := Prod.mk.inj (hnode _ hpair _ htop hroot)
        obtain ⟨i, hi, hturns⟩ := ih (List.ne_nil_of_length_pos (by omega))
          (fun p hp q hq => hnode p (hclimbed p hp) q (mem_pairs_take htwo hq))
          (fun q hq => hleaf q (mem_pairs_take htwo hq))
          (fun p hp x hx => hinner p (hclimbed p hp) x (List.mem_of_mem_take hx)) hl
          (lt_of_climb hl)
        have hilt : i < cut leaves.length := by
          rw [← htake]
          exact (List.getElem?_eq_some_iff.mp hi).1
        rw [List.getElem?_take_of_lt hilt] at hi
        rw [htake] at hturns
        exact ⟨i, hi, .left hn (by omega) hlt hilt hturns⟩
      · next hge =>
        obtain ⟨r, hr, hroot⟩ := Option.map_eq_some_iff.mp h
        have hclimbed : ∀ p ∈ climbPairs node leaf (m - cut n) (n - cut n) rest,
            p ∈ climbPairs node leaf m n (top :: rest) := fun p hp => by
          rw [climbPairs, if_neg hge]
          exact List.mem_append_right _ hp
        have hpair : (top, r) ∈ climbPairs node leaf m n (top :: rest) := by
          rw [climbPairs, if_neg hge, hr]
          exact List.mem_cons_self
        obtain ⟨-, rfl⟩ := Prod.mk.inj (hnode _ hpair _ htop hroot)
        obtain ⟨i, hi, hturns⟩ := ih (List.ne_nil_of_length_pos (by rw [List.length_drop]; omega))
          (fun p hp q hq => hnode p (hclimbed p hp) q (mem_pairs_drop htwo hq))
          (fun q hq => hleaf q (mem_pairs_drop htwo hq))
          (fun p hp x hx => hinner p (hclimbed p hp) x (List.mem_of_mem_drop hx)) hr
          (lt_of_climb hr)
        rw [List.getElem?_drop] at hi
        rw [List.length_drop] at hturns
        refine ⟨cut leaves.length + i, hi, .right hn (by omega) (by omega) (by omega) ?_⟩
        rw [Nat.add_sub_cancel_left]
        exact hturns

/-! ## The root tells the leaves -/

theorem root_cases (node : η → η → η) (empty : η) (hleaves : leaves ≠ []) :
    leaves = [root node empty leaves] ∨
      2 ≤ leaves.length ∧
        (root node empty (leaves.take (cut leaves.length)),
          root node empty (leaves.drop (cut leaves.length))) ∈ pairs node empty leaves := by
  match leaves, hleaves with
  | [leaf], _ => exact .inl (by rw [root_singleton])
  | leaf :: leaf' :: rest, _ =>
    have htwo : 2 ≤ (leaf :: leaf' :: rest).length := by simp
    refine .inr ⟨htwo, ?_⟩
    rw [pairs_eq htwo]
    exact List.mem_cons_self

theorem root_ne_empty (hleaves : leaves ≠ []) (hleaf : ∀ x ∈ leaves, x ≠ empty)
    (hnode : ∀ q ∈ pairs node empty leaves, node q.1 q.2 ≠ empty) :
    root node empty leaves ≠ empty := by
  rcases root_cases node empty hleaves with hone | ⟨htwo, hpair⟩
  · apply hleaf
    rw [hone, root_singleton]
    exact List.mem_cons_self
  · rw [root_eq htwo]
    exact hnode _ hpair

theorem take_cut_ne_nil (h : 2 ≤ leaves.length) : leaves.take (cut leaves.length) ≠ [] := by
  apply List.ne_nil_of_length_pos
  rw [length_take_cut leaves h]
  exact cut_pos _

theorem drop_cut_ne_nil (h : 2 ≤ leaves.length) : leaves.drop (cut leaves.length) ≠ [] := by
  have hlt := cut_lt h
  apply List.ne_nil_of_length_pos
  rw [List.length_drop]
  omega

/-- Trees of one root have the same leaves, when no two pairs in them are combined to one
value and none to a leaf. -/
theorem eq_of_root_eq {leaves' : List η} (hne : leaves ≠ []) (hne' : leaves' ≠ [])
    (hnode : ∀ p ∈ pairs node empty leaves, ∀ q ∈ pairs node empty leaves',
      node p.1 p.2 = node q.1 q.2 → p = q)
    (hleaf : ∀ x ∈ leaves, ∀ q ∈ pairs node empty leaves', x ≠ node q.1 q.2)
    (hleaf' : ∀ x ∈ leaves', ∀ p ∈ pairs node empty leaves, x ≠ node p.1 p.2)
    (h : root node empty leaves = root node empty leaves') : leaves = leaves' := by
  induction hlen : leaves.length using Nat.strong_induction_on generalizing leaves leaves' with
  | h n ih =>
    rcases root_cases node empty hne with hone | ⟨htwo, hpair⟩
    · rcases root_cases node empty hne' with hone' | ⟨htwo', hpair'⟩
      · rw [hone, hone', h]
      · -- a leaf is not a pair
        rw [root_eq htwo'] at h
        refine absurd h (hleaf _ ?_ _ hpair')
        rw [hone, root_singleton]
        exact List.mem_cons_self
    · rcases root_cases node empty hne' with hone' | ⟨htwo', hpair'⟩
      · rw [root_eq htwo] at h
        refine absurd h.symm (hleaf' _ ?_ _ hpair)
        rw [hone', root_singleton]
        exact List.mem_cons_self
      · rw [root_eq htwo, root_eq htwo'] at h
        obtain ⟨hleft, hright⟩ := Prod.mk.inj (hnode _ hpair _ hpair' h)
        have hcut := cut_lt htwo
        have hpos := cut_pos leaves.length
        have htake := ih (leaves.take (cut leaves.length)).length
          (by rw [length_take_cut leaves htwo]; omega) (take_cut_ne_nil htwo)
          (take_cut_ne_nil htwo')
          (fun p hp q hq => hnode p (mem_pairs_take htwo hp) q (mem_pairs_take htwo' hq))
          (fun x hx q hq => hleaf x (List.mem_of_mem_take hx) q (mem_pairs_take htwo' hq))
          (fun x hx p hp => hleaf' x (List.mem_of_mem_take hx) p (mem_pairs_take htwo hp))
          hleft rfl
        have hdrop := ih (leaves.drop (cut leaves.length)).length
          (by rw [List.length_drop]; omega) (drop_cut_ne_nil htwo) (drop_cut_ne_nil htwo')
          (fun p hp q hq => hnode p (mem_pairs_drop htwo hp) q (mem_pairs_drop htwo' hq))
          (fun x hx q hq => hleaf x (List.mem_of_mem_drop hx) q (mem_pairs_drop htwo' hq))
          (fun x hx p hp => hleaf' x (List.mem_of_mem_drop hx) p (mem_pairs_drop htwo hp))
          hright rfl
        rw [← List.take_append_drop (cut leaves.length) leaves, htake, hdrop,
          List.take_append_drop]

theorem SameTurns.lt (h : SameTurns m n m' n') : m < n := by
  induction h with
  | leaf => omega
  | left hn _ hm _ _ _ => exact hm.trans (cut_lt hn)
  | right _ _ hm _ _ ih => omega

theorem SameTurns.index_eq (h : SameTurns m n m' n') (hn : n = n') : m = m' := by
  induction h with
  | leaf => rfl
  | left _ _ _ _ _ ih =>
    subst hn
    exact ih rfl
  | right _ _ hm hm' _ ih =>
    subst hn
    have := ih rfl
    omega

theorem two_pow_sub_cut (c : Nat) : 2 ^ (c + 1) - cut (2 ^ (c + 1)) = 2 ^ c := by
  rw [cut_two_pow, Nat.pow_succ]
  omega

theorem SameTurns.height_eq {a b : Nat} (h : SameTurns m n m' n') (hn : n = 2 ^ a)
    (hn' : n' = 2 ^ b) : a = b := by
  induction h generalizing a b with
  | leaf =>
    have ha : a = 0 := by simpa using hn.symm
    have hb : b = 0 := by simpa using hn'.symm
    rw [ha, hb]
  | left htwo htwo' _ _ _ ih =>
    cases a with
    | zero => omega
    | succ a =>
      cases b with
      | zero => omega
      | succ b =>
        subst hn hn'
        rw [ih (cut_two_pow a) (cut_two_pow b)]
  | right htwo htwo' _ _ _ ih =>
    cases a with
    | zero => omega
    | succ a =>
      cases b with
      | zero => omega
      | succ b =>
        subst hn hn'
        rw [ih (two_pow_sub_cut a) (two_pow_sub_cut b)]

theorem SameTurns.cut_eq (h : SameTurns m (cut n) m' (cut n')) : cut n = cut n' := by
  have hheight := h.height_eq rfl rfl
  unfold cut
  rw [hheight]

/-- `a` is the size of the part of a tree of `n` leaves that some right turns lead to. -/
inductive OnSpine (a : Nat) : Nat → Prop
  | here : OnSpine a a
  | right {n : Nat} : 2 ≤ n → OnSpine a (n - cut n) → OnSpine a n

theorem OnSpine.le {a : Nat} (h : OnSpine a n) : a ≤ n := by
  induction h with
  | here => exact le_rfl
  | right _ _ ih => omega

theorem OnSpine.step {a : Nat} (h : OnSpine a n) (ha : 2 ≤ a) : OnSpine (a - cut a) n := by
  induction h with
  | here => exact .right ha .here
  | right hn _ ih => exact .right hn ih

theorem not_sameTurns_of_onSpine {a : Nat} (hn : 2 ≤ n) (ha : OnSpine a (n - cut n)) :
    ¬ SameTurns m a m' n := by
  induction n using Nat.strong_induction_on generalizing m m' a with
  | h n ih =>
    intro h
    have hlt := cut_lt hn
    have htwo := le_two_mul_cut n
    have hle := ha.le
    cases h with
    | leaf => omega
    | left hatwo _ _ _ h =>
      have hcut := cut_lt hatwo
      have heq := h.cut_eq
      omega
    | right hatwo _ _ _ h =>
      have hpos := cut_pos n
      refine ih (n - cut n) (by omega) (by omega) ?_ h
      cases ha with
      | here => exact .here
      | right _ ha => exact ha.step hatwo

theorem onSpine_of_mod {c : Nat} (hpos : 0 < n % 2 ^ c) : OnSpine (n % 2 ^ c) n := by
  induction n using Nat.strong_induction_on with
  | h n ih =>
    by_cases hlt : n < 2 ^ c
    · rw [Nat.mod_eq_of_lt hlt]
      exact .here
    · have hne : n ≠ 2 ^ c := by
        rintro rfl
        simp at hpos
      have hbig : 2 ^ c < n := by omega
      have htwo : 2 ≤ n := by
        have := Nat.two_pow_pos c
        omega
      have hcut := cut_lt htwo
      have hmod : (n - cut n) % 2 ^ c = n % 2 ^ c := by
        obtain ⟨q, hq⟩ := dvd_cut hbig
        rw [hq, Nat.sub_mul_mod (by omega)]
      refine .right htwo ?_
      have hrec := ih (n - cut n) (by have := cut_pos n; omega) (by rw [hmod]; exact hpos)
      rw [hmod] at hrec
      exact hrec

/-- No leaf has the same turns in a tree and in one whose size is that of the first up
to a power of two, but for trees of one size. -/
theorem SameTurns.lt_of_mod {c : Nat} (h : SameTurns m (n % 2 ^ c) m' n) : n < 2 ^ c := by
  by_contra hge
  have hpos : 0 < n % 2 ^ c := Nat.zero_lt_of_lt h.lt
  have hmod := Nat.mod_lt n (Nat.two_pow_pos c)
  have hspine := onSpine_of_mod hpos
  generalize n % 2 ^ c = a at *
  cases hspine with
  | here => omega
  | right htwo hspine => exact not_sameTurns_of_onSpine htwo hspine h

/-- A climb in a tree whose size is known up to `2 ^ c`: if it ends in the root, the leaf
is the one at its place. -/
theorem leaf_of_climb {c : Nat} (hleaves : leaves ≠ [])
    (hnode : ∀ p ∈ climbPairs node leaf m (leaves.length % 2 ^ c) path,
      ∀ q ∈ pairs node empty leaves, node p.1 p.2 = node q.1 q.2 → p = q)
    (hleaf : ∀ q ∈ pairs node empty leaves, leaf ≠ node q.1 q.2)
    (hinner : ∀ p ∈ climbPairs node leaf m (leaves.length % 2 ^ c) path,
      ∀ x ∈ leaves, node p.1 p.2 ≠ x)
    (h : climb node leaf m (leaves.length % 2 ^ c) path = some (root node empty leaves)) :
    leaves[m]? = some leaf := by
  obtain ⟨i, hi, hturns⟩ := exists_sameTurns hleaves hnode hleaf hinner h
  have hlt := hturns.lt_of_mod
  rw [Nat.mod_eq_of_lt hlt] at hturns
  rw [hturns.index_eq rfl]
  exact hi

end ConquerD.Lib.Merkle
