import Mathlib.Tactic.Tauto
import Std.Data.ExtTreeMap
import Std.Data.ExtTreeSet

/-!
# Rosters: finite maps to finite sets

A roster files members under keys (rooms to peers, sessions to peers). The
operations are the ones a server does on such a map: add a member under a key,
take one away, take one away everywhere. A key whose set becomes empty is
dropped. Only the membership relation matters to callers, so each operation
has one lemma that says what it does to membership.
-/

namespace ConquerD.Lib.Rosters

open Std (ExtTreeMap ExtTreeSet TransOrd LawfulEqOrd)

variable {κ α : Type} [Ord κ] [TransOrd κ] [Ord α] [TransOrd α]

/-- Keys to sets of members. -/
abbrev Roster (κ α : Type) [Ord κ] [Ord α] := ExtTreeMap κ (ExtTreeSet α)

/-- The members filed under `k`. -/
def members (m : Roster κ α) (k : κ) : ExtTreeSet α :=
  m[k]?.getD ∅

/-- `a` is filed under `k`. -/
def Listed (m : Roster κ α) (k : κ) (a : α) : Prop :=
  a ∈ members m k

instance (m : Roster κ α) (k : κ) (a : α) : Decidable (Listed m k a) :=
  inferInstanceAs (Decidable (a ∈ members m k))

def addMember (m : Roster κ α) (k : κ) (a : α) : Roster κ α :=
  m.insert k ((members m k).insert a)

def removeMember (m : Roster κ α) (k : κ) (a : α) : Roster κ α :=
  match m[k]? with
  | none => m
  | some s => if (s.erase a).isEmpty then m.erase k else m.insert k (s.erase a)

/-- Take `a` away under every key. -/
def removeEverywhere (m : Roster κ α) (a : α) : Roster κ α :=
  m.filterMap fun _ s => if (s.erase a).isEmpty then none else some (s.erase a)

theorem nodup_toList [LawfulEqOrd α] {s : ExtTreeSet α} : s.toList.Nodup :=
  s.distinct_toList.imp fun h heq => h (Std.compare_eq_iff_eq.mpr heq)

@[simp] theorem listed_empty (k : κ) (a : α) : ¬ Listed (∅ : Roster κ α) k a := by
  simp [Listed, members]

variable [DecidableEq κ] [LawfulEqOrd κ]

omit [TransOrd α] in
theorem members_insert {m : Roster κ α} {k k' : κ} {s : ExtTreeSet α} :
    members (m.insert k s) k' = if k = k' then s else members m k' := by
  simp only [members, ExtTreeMap.getElem?_insert, Std.compare_eq_iff_eq]
  split
  · rfl
  · rfl

omit [TransOrd α] in
theorem members_erase {m : Roster κ α} {k k' : κ} :
    members (m.erase k) k' = if k = k' then ∅ else members m k' := by
  simp only [members, ExtTreeMap.getElem?_erase, Std.compare_eq_iff_eq]
  split
  · rfl
  · rfl

/-- Removing under one key leaves the other keys alone; an emptied key reads as
the empty set, as an absent one does. -/
theorem members_removeMember {m : Roster κ α} {k k' : κ} {a : α} :
    members (removeMember m k a) k' =
      if k = k' then (members m k).erase a else members m k' := by
  unfold removeMember
  cases hm : m[k]? with
  | none =>
    by_cases hk : k = k'
    · subst hk
      simp [members, hm]
    · simp [hk]
  | some s =>
    have hs : members m k = s := by simp [members, hm]
    simp only [hs]
    split
    · rename_i he
      rw [members_erase, ExtTreeSet.isEmpty_iff.mp he]
    · rw [members_insert]

omit [DecidableEq κ] in
theorem members_removeEverywhere {m : Roster κ α} {k : κ} {a : α} :
    members (removeEverywhere m a) k = (members m k).erase a := by
  simp only [members, removeEverywhere, ExtTreeMap.getElem?_filterMap']
  cases m[k]? with
  | none => simp
  | some s =>
    simp only [Option.bind_some, Option.getD_some]
    split
    · rename_i he
      exact (ExtTreeSet.isEmpty_iff.mp he).symm
    · rfl

variable [LawfulEqOrd α]

omit [DecidableEq κ] in
@[simp] theorem listed_addMember {m : Roster κ α} {k k' : κ} {a a' : α} :
    Listed (addMember m k a) k' a' ↔ Listed m k' a' ∨ (k = k' ∧ a = a') := by
  classical
  simp only [Listed, addMember, members_insert]
  by_cases hk : k = k'
  · subst hk
    simp [or_comm]
  · simp [hk]

omit [DecidableEq κ] in
@[simp] theorem listed_removeMember {m : Roster κ α} {k k' : κ} {a a' : α} :
    Listed (removeMember m k a) k' a' ↔ Listed m k' a' ∧ ¬ (k = k' ∧ a = a') := by
  classical
  simp only [Listed, members_removeMember]
  by_cases hk : k = k'
  · subst hk
    simp [and_comm]
  · simp [hk]

omit [DecidableEq κ] in
@[simp] theorem listed_removeEverywhere {m : Roster κ α} {k : κ} {a a' : α} :
    Listed (removeEverywhere m a) k a' ↔ Listed m k a' ∧ a ≠ a' := by
  simp only [Listed, members_removeEverywhere]
  simp [and_comm]

/-! ## No empty sets -/

/-- A key is there only as long as somebody is filed under it. -/
def NoneEmpty (m : Roster κ α) : Prop :=
  ∀ (k : κ) (s : ExtTreeSet α), m[k]? = some s → ¬ s.isEmpty

variable {m : Roster κ α}

omit [DecidableEq κ] [LawfulEqOrd κ] [LawfulEqOrd α] in
theorem noneEmpty_addMember (h : NoneEmpty m) (k : κ) (a : α) : NoneEmpty (addMember m k a) := by
  intro k' s hs
  rw [addMember, ExtTreeMap.getElem?_insert] at hs
  split at hs
  · cases hs
    simp
  · exact h k' s hs

omit [DecidableEq κ] [LawfulEqOrd κ] [LawfulEqOrd α] in
theorem noneEmpty_removeMember (h : NoneEmpty m) (k : κ) (a : α) :
    NoneEmpty (removeMember m k a) := by
  intro k' s hs
  unfold removeMember at hs
  split at hs
  · exact h k' s hs
  · next old _ =>
    split at hs
    · rw [ExtTreeMap.getElem?_erase] at hs
      split at hs
      · cases hs
      · exact h k' s hs
    · next hleft =>
      rw [ExtTreeMap.getElem?_insert] at hs
      split at hs
      · cases hs
        exact hleft
      · exact h k' s hs

omit [DecidableEq κ] [LawfulEqOrd α] in
theorem noneEmpty_removeEverywhere (a : α) : NoneEmpty (removeEverywhere m a) := by
  intro k s hs
  rw [removeEverywhere, ExtTreeMap.getElem?_filterMap'] at hs
  obtain ⟨old, -, hold⟩ := Option.bind_eq_some_iff.mp hs
  split at hold
  · cases hold
  · next hleft =>
    cases hold
    exact hleft

end ConquerD.Lib.Rosters
