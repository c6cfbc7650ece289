import ConquerD.Wire.PublicId

/-!
# Supernode: the canonical spelling of a public id

The peer store, the SFU and the signaling table key peers by the padded
44-character form; the relay keys them by the bare one. Texts that are not a
43-character key up to padding are left alone.
-/

namespace ConquerD.Supernode

open Lib.Text Wire

def normalizePublicId (id : String) : String :=
  if (bare id).utf8ByteSize = 43 then (bare id).push '=' else id

/-- Appends `=` until the length is a multiple of four. -/
def padBase64url (id : String) : String :=
  match id.utf8ByteSize % 4 with
  | 0 => id
  | rem => id ++ String.ofList (List.replicate (4 - rem) '=')

theorem normalizePublicId_of_valid {id : String} (h : IsPublicId id) :
    normalizePublicId id = (bare id).push '=' :=
  if_pos h.size

@[simp] theorem bare_normalizePublicId (id : String) : bare (normalizePublicId id) = bare id := by
  unfold normalizePublicId
  split
  · rw [bare_push, bare_bare]
  · rfl

@[simp] theorem normalizePublicId_idem (id : String) :
    normalizePublicId (normalizePublicId id) = normalizePublicId id := by
  by_cases h : (bare id).utf8ByteSize = 43
  · have h' : (bare (normalizePublicId id)).utf8ByteSize = 43 := by
      rw [bare_normalizePublicId]
      exact h
    unfold normalizePublicId at h' ⊢
    rw [if_pos h] at h' ⊢
    rw [if_pos h', bare_push, bare_bare]
  · unfold normalizePublicId
    rw [if_neg h, if_neg h]

theorem bare_eq_of_normalizePublicId_eq {a b : String}
    (h : normalizePublicId a = normalizePublicId b) : bare a = bare b := by
  rw [← bare_normalizePublicId a, h, bare_normalizePublicId]

/-- On public ids the canonical spellings agree exactly when the bare forms do. -/
theorem normalizePublicId_eq_iff {a b : String} (ha : IsPublicId a) :
    normalizePublicId a = normalizePublicId b ↔ bare a = bare b := by
  constructor
  · exact bare_eq_of_normalizePublicId_eq
  · intro h
    rw [normalizePublicId_of_valid ha, normalizePublicId_of_valid (ha.of_bare_eq h), h]

theorem normalizePublicId_bare {id : String} (h : IsPublicId id) :
    normalizePublicId (bare id) = normalizePublicId id := by
  rw [normalizePublicId_eq_iff h.bare, bare_bare]

theorem isPublicId_normalizePublicId {id : String} (h : IsPublicId id) :
    IsPublicId (normalizePublicId id) :=
  h.of_bare_eq (bare_normalizePublicId id).symm

end ConquerD.Supernode
