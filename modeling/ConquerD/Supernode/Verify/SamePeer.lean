import ConquerD.Supernode.Crypto
import Mathlib.Data.Set.Finite.Basic

/-!
# Supernode: spellings of a peer

A peer's id comes padded or not. Two texts name one peer when their canonical spellings
agree: they are the same text, or the same key padded otherwise. A key has spellings
without end, and there are canonical spellings without end.
-/

namespace ConquerD.Supernode

open Lib.Text Wire

/-- A text of 43 bytes, padding aside. -/
def IsKeyText (p : String) : Prop :=
  (bare p).utf8ByteSize = 43

instance (p : String) : Decidable (IsKeyText p) :=
  inferInstanceAs (Decidable ((bare p).utf8ByteSize = 43))

/-- The same text, or the same key padded otherwise. -/
def SamePeer (p p' : String) : Prop :=
  p' = p ∨ (IsKeyText p ∧ bare p' = bare p)

instance (p p' : String) : Decidable (SamePeer p p') :=
  inferInstanceAs (Decidable (p' = p ∨ (IsKeyText p ∧ bare p' = bare p)))

theorem samePeer_iff {p p' : String} :
    SamePeer p p' ↔ normalizePublicId p' = normalizePublicId p := by
  constructor
  · rintro (rfl | ⟨hkey, hbare⟩)
    · rfl
    · unfold normalizePublicId
      have hsize : (bare p).utf8ByteSize = 43 := hkey
      rw [hbare, if_pos hsize, if_pos hsize]
  · intro h
    have hbare := bare_eq_of_normalizePublicId_eq h
    by_cases hkey : IsKeyText p
    · exact .inr ⟨hkey, hbare⟩
    · left
      have hsize : ¬ (bare p).utf8ByteSize = 43 := hkey
      unfold normalizePublicId at h
      rwa [hbare, if_neg hsize, if_neg hsize] at h

theorem SamePeer.eq {p p' : String} (h : SamePeer p p') (hkey : ¬ IsKeyText p) : p' = p :=
  h.resolve_right fun hk => hkey hk.1

theorem SamePeer.isKeyText {p p' : String} (h : SamePeer p p') (hkey : IsKeyText p) :
    IsKeyText p' := by
  rcases h with rfl | ⟨-, hbare⟩
  · exact hkey
  · exact (congrArg String.utf8ByteSize hbare).trans hkey

/-- A key with so many pads. -/
def paddedBy (p : String) (k : Nat) : String :=
  (String.push · '=')^[k] (bare p)

theorem bare_paddedBy (p : String) (k : Nat) : bare (paddedBy p k) = bare p := by
  unfold paddedBy
  induction k with
  | zero => exact bare_bare p
  | succ k ih => rw [Function.iterate_succ_apply', bare_push, ih]

theorem length_paddedBy (p : String) (k : Nat) :
    (paddedBy p k).length = (bare p).length + k := by
  unfold paddedBy
  induction k with
  | zero => rw [Function.iterate_zero_apply, Nat.add_zero]
  | succ k ih => rw [Function.iterate_succ_apply', String.length_push, ih, Nat.add_assoc]

theorem exists_spelling_notMem {p : String} (hkey : IsKeyText p) (used : Finset String) :
    ∃ p', SamePeer p p' ∧ p' ∉ used := by
  have hinj : Function.Injective (paddedBy p) := by
    intro k k' h
    have hlen := congrArg String.length h
    rw [length_paddedBy, length_paddedBy] at hlen
    omega
  obtain ⟨p', ⟨k, rfl⟩, hfresh⟩ := (Set.infinite_range_of_injective hinj).exists_notMem_finset used
  exact ⟨_, .inr ⟨hkey, bare_paddedBy p k⟩, hfresh⟩

theorem exists_canonical_notMem (used : Finset String) :
    ∃ p, normalizePublicId p ∉ used := by
  have hbare : ∀ k, bare (String.ofList (List.replicate k 'a')) =
      String.ofList (List.replicate k 'a') := by
    intro k
    refine trimEndMatches_of_notMem fun hmem => ?_
    rw [String.toList_ofList] at hmem
    exact absurd (List.eq_of_mem_replicate hmem) (by decide)
  have hinj : Function.Injective fun k =>
      normalizePublicId (String.ofList (List.replicate k 'a')) := by
    intro k k' h
    have htexts := bare_eq_of_normalizePublicId_eq h
    rw [hbare, hbare] at htexts
    simpa using congrArg String.length htexts
  obtain ⟨p, ⟨k, rfl⟩, hfresh⟩ := (Set.infinite_range_of_injective hinj).exists_notMem_finset used
  exact ⟨_, hfresh⟩

end ConquerD.Supernode
