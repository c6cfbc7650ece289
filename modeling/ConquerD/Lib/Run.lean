import Mathlib.Tactic.TypeStar

/-!
# Runs of a deterministic transition function

A system is a step function `step : σ → ι → σ`; a run feeds it a list of
inputs. `Along step P s is` says that `P` holds of every step the run from `s`
over `is` takes, each step seen as the state before it and its input. A
condition on a run ("no step does …") and a property of a run ("every step
keeps …") are both of this form, and the rules below carry one to the other
through an invariant.
-/

namespace ConquerD.Lib.Run

variable {σ ι : Type*} (step : σ → ι → σ)

/-- The state after the inputs. -/
def run (s : σ) (is : List ι) : σ :=
  is.foldl step s

/-- Every step of the run satisfies `P` (state before the step, input). -/
def Along (P : σ → ι → Prop) : σ → List ι → Prop
  | _, [] => True
  | s, i :: is => P s i ∧ Along P (step s i) is

instance decidableAlong (P : σ → ι → Prop) [∀ s i, Decidable (P s i)] :
    (s : σ) → (is : List ι) → Decidable (Along step P s is)
  | _, [] => .isTrue trivial
  | s, i :: is => @instDecidableAnd _ _ _ (decidableAlong P (step s i) is)

@[simp] theorem run_nil (s : σ) : run step s [] = s := rfl

@[simp] theorem run_cons (s : σ) (i : ι) (is : List ι) :
    run step s (i :: is) = run step (step s i) is := rfl

theorem run_append (s : σ) (is js : List ι) :
    run step s (is ++ js) = run step (run step s is) js := by
  simp [run]

variable {step} {P Q : σ → ι → Prop} {s : σ} {is : List ι}

theorem along_append {js : List ι} :
    Along step P s (is ++ js) ↔ Along step P s is ∧ Along step P (run step s is) js := by
  induction is generalizing s with
  | nil => simp [Along]
  | cons i is ih => simp [Along, ih, and_assoc]

theorem Along.and (hP : Along step P s is) (hQ : Along step Q s is) :
    Along step (fun s i => P s i ∧ Q s i) s is := by
  induction is generalizing s with
  | nil => trivial
  | cons i is ih => exact ⟨⟨hP.1, hQ.1⟩, ih hP.2 hQ.2⟩

/-- An invariant that every step meeting `P` keeps holds at the end of a run
whose steps all meet `P`. -/
theorem Along.run_inv (hP : Along step P s is) (Inv : σ → Prop) (h0 : Inv s)
    (hstep : ∀ s i, Inv s → P s i → Inv (step s i)) : Inv (run step s is) := by
  induction is generalizing s with
  | nil => exact h0
  | cons i is ih => exact ih hP.2 (hstep s i h0 hP.1)

theorem run_inv (Inv : σ → Prop) (h0 : Inv s) (hstep : ∀ s i, Inv s → Inv (step s i)) :
    Inv (run step s is) := by
  induction is generalizing s with
  | nil => exact h0
  | cons i is ih => exact ih (hstep s i h0)

/-- A step property that follows from `P` under an invariant holds of every step. -/
theorem Along.imp_inv (hP : Along step P s is) (Inv : σ → Prop) (h0 : Inv s)
    (hstep : ∀ s i, Inv s → P s i → Inv (step s i))
    (hQ : ∀ s i, Inv s → P s i → Q s i) : Along step Q s is := by
  induction is generalizing s with
  | nil => trivial
  | cons i is ih => exact ⟨hQ s i h0 hP.1, ih hP.2 (hstep s i h0 hP.1)⟩

/-- Under an invariant of every step, two step properties that agree step by
step agree on whole runs. -/
theorem along_congr_inv (Inv : σ → Prop) (h0 : Inv s) (hstep : ∀ s i, Inv s → Inv (step s i))
    (h : ∀ s i, Inv s → (P s i ↔ Q s i)) : Along step P s is ↔ Along step Q s is := by
  constructor
  · intro hP
    exact hP.imp_inv Inv h0 (fun s i hi _ => hstep s i hi) fun s i hi => (h s i hi).mp
  · intro hQ
    exact hQ.imp_inv Inv h0 (fun s i hi _ => hstep s i hi) fun s i hi => (h s i hi).mpr

/-- What holds at the start holds after every step exactly when each step, taken
where it holds, meets the condition under which it is kept. -/
theorem along_after_iff (Inv Good : σ → Prop) (h0 : Inv s) (hgood : Good s)
    (hstep : ∀ s i, Inv s → Inv (step s i))
    (h : ∀ s i, Inv s → Good s → (Good (step s i) ↔ Q s i)) :
    Along step (fun s i => Good (step s i)) s is ↔ Along step Q s is := by
  induction is generalizing s with
  | nil => exact Iff.rfl
  | cons i is ih =>
    constructor
    · rintro ⟨hafter, hrest⟩
      exact ⟨(h s i h0 hgood).mp hafter, (ih (hstep s i h0) hafter).mp hrest⟩
    · rintro ⟨hcond, hrest⟩
      have hafter : Good (step s i) := (h s i h0 hgood).mpr hcond
      exact ⟨hafter, (ih (hstep s i h0) hafter).mpr hrest⟩

theorem along_of_forall (h : ∀ s i, P s i) : Along step P s is := by
  induction is generalizing s with
  | nil => trivial
  | cons i is ih => exact ⟨h s i, ih⟩

end ConquerD.Lib.Run
