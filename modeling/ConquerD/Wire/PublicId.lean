import ConquerD.Lib.Text

/-!
# Public ids

A peer is named by the base64url text of its 32-byte Ed25519 key. The text is
43 characters of the base64url alphabet, and both programs read it with any
number of trailing `=`: signatures verify under every spelling, so an
authenticated sender may use any of them. Two spellings name one peer when
their `bare` forms agree.
-/

namespace ConquerD.Wire

open Lib.Text

/-- An id without its padding. -/
def bare (id : String) : String :=
  trimEndMatches '=' id

@[simp] theorem bare_bare (id : String) : bare (bare id) = bare id :=
  trimEndMatches_idem '=' id

@[simp] theorem bare_push (id : String) : bare (id.push '=') = bare id :=
  trimEndMatches_push '=' id

/-- The base64url alphabet. -/
def isB64Url (c : Char) : Bool :=
  c.isAlphanum || c == '-' || c == '_'

/-- A text that decodes, padding aside, to a 32-byte key. -/
structure IsPublicId (id : String) : Prop where
  size : (bare id).utf8ByteSize = 43
  alphabet : ∀ c ∈ (bare id).toList, isB64Url c = true

instance (id : String) : Decidable (IsPublicId id) :=
  decidable_of_iff ((bare id).utf8ByteSize = 43 ∧ (bare id).toList.all isB64Url = true)
    ⟨fun h => ⟨h.1, List.all_eq_true.mp h.2⟩, fun h => ⟨h.size, List.all_eq_true.mpr h.alphabet⟩⟩

/-- A spelling of a public id, as an authenticated message carries it. -/
structure PublicId where
  text : String
  valid : IsPublicId text

instance : DecidableEq PublicId := fun a b =>
  decidable_of_iff (a.text = b.text) (by cases a; cases b; simp)

theorem IsPublicId.bare {id : String} (h : IsPublicId id) : IsPublicId (Wire.bare id) :=
  ⟨by rw [bare_bare]; exact h.size, by rw [bare_bare]; exact h.alphabet⟩

theorem IsPublicId.of_bare_eq {a b : String} (h : IsPublicId a) (hab : Wire.bare a = Wire.bare b) :
    IsPublicId b :=
  ⟨hab ▸ h.size, hab ▸ h.alphabet⟩

theorem PublicId.notMem_text (id : PublicId) {c : Char} (hc : isB64Url c = false) (hpad : c ≠ '=') :
    c ∉ id.text.toList := by
  intro hmem
  rcases mem_trimEndMatches_or_eq (c := '=') hmem with hbare | heq
  · have halpha := id.valid.alphabet c hbare
    rw [hc] at halpha
    cases halpha
  · exact hpad heq

/-! ## Two sample ids -/

def alice : PublicId where
  text := "11qYAYKxCrfVS_7TyWQHOg7hcvPapiMlrwIaaPcHURo="
  valid := by decide

def bob : PublicId where
  text := "PUAXw-hDiVqStwqnTRt-vJyYLM8uxJaMwM1V8Sr0Zgw="
  valid := by decide

end ConquerD.Wire
