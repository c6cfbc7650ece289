import Mathlib.Logic.Function.Basic

/-!
# Partial functions that undo each other

A table and its reverse are kept as two partial functions. They are inverse when each
entry of one is an entry of the other, and stay so when an entry goes in on both sides,
where neither end is taken, or comes out on both.
-/

namespace ConquerD.Lib.TwoWay

variable {α β : Type*}

/-- `f` takes `a` to `b` exactly when `g` takes `b` to `a`. -/
def Inverse (f : α → Option β) (g : β → Option α) : Prop :=
  ∀ a b, f a = some b ↔ g b = some a

variable {f : α → Option β} {g : β → Option α}

variable [DecidableEq α] [DecidableEq β]

theorem Inverse.insert (h : Inverse f g) {a : α} {b : β} (ha : f a = none) (hb : g b = none) :
    Inverse (Function.update f a (some b)) (Function.update g b (some a)) := by
  intro a' b'
  by_cases haa : a' = a
  · subst haa
    by_cases hbb : b' = b
    · subst hbb
      simp
    · have hne : g b' ≠ some a' := by
        rw [ne_eq, ← h a' b', ha]
        nofun
      simp [Function.update_of_ne hbb, hne, Ne.symm hbb]
  · by_cases hbb : b' = b
    · subst hbb
      have hne : f a' ≠ some b' := by
        rw [ne_eq, h a' b', hb]
        nofun
      simp [Function.update_of_ne haa, hne, Ne.symm haa]
    · rw [Function.update_of_ne haa, Function.update_of_ne hbb]
      exact h a' b'

theorem Inverse.erase (h : Inverse f g) {a : α} {b : β} (hab : f a = some b) :
    Inverse (Function.update f a none) (Function.update g b none) := by
  have hba := (h a b).mp hab
  intro a' b'
  by_cases haa : a' = a
  · subst haa
    by_cases hbb : b' = b
    · subst hbb
      simp
    · have hne : g b' ≠ some a' := by
        rw [ne_eq, ← h a' b', hab]
        exact fun heq => hbb (Option.some.inj heq).symm
      simp [Function.update_of_ne hbb, hne]
  · by_cases hbb : b' = b
    · subst hbb
      have hne : f a' ≠ some b' := by
        rw [ne_eq, h a' b', hba]
        exact fun heq => haa (Option.some.inj heq).symm
      simp [Function.update_of_ne haa, hne]
    · rw [Function.update_of_ne haa, Function.update_of_ne hbb]
      exact h a' b'

end ConquerD.Lib.TwoWay
