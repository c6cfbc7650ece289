import ConquerD.Lib.Run
import Mathlib.Data.List.Forall2

/-!
# Runs that answer

A system that answers each of its inputs. A relation on inputs says which of them an
observer is not to tell apart: he cannot, along a whole run, exactly when at each of its
steps every related input gets the same answer and leaves the same state. Where a view of
the states steps by itself, a run is seen as a run of the views.
-/

namespace ConquerD.Lib.Trace

open Lib.Run

variable {σ ι ο : Type*} (call : σ → ι → σ × ο) (R : ι → ι → Prop)

/-- The state after an input. -/
def after (s : σ) (i : ι) : σ :=
  (call s i).1

/-- Each state along the inputs, with the answer that was given. -/
def trace : σ → List ι → List (σ × ο)
  | _, [] => []
  | s, i :: is => call s i :: trace (after call s i) is

/-- Related inputs get the same answer and leave the same state. -/
def Indifferent (s : σ) (i : ι) : Prop :=
  ∀ j, R i j → call s j = call s i

variable {call R}

theorem trace_eq_iff (hrefl : ∀ i, R i i) {s : σ} {is : List ι} :
    (∀ js, List.Forall₂ R is js → trace call s js = trace call s is) ↔
      Along (after call) (Indifferent call R) s is := by
  induction is generalizing s with
  | nil =>
    refine ⟨fun _ => trivial, fun _ js hjs => ?_⟩
    cases hjs
    rfl
  | cons i is ih =>
    constructor
    · intro h
      constructor
      · intro j hj
        have htraces := h (j :: is) (.cons hj (List.forall₂_same.mpr fun i _ => hrefl i))
        exact (List.cons.inj htraces).1
      · refine ih.mp fun js hjs => ?_
        have htraces := h (i :: js) (.cons (hrefl i) hjs)
        exact (List.cons.inj htraces).2
    · rintro ⟨hsame, hrest⟩ js hjs
      cases hjs with
      | cons hj hjs =>
        next j js =>
        have hfirst := hsame j hj
        unfold trace after
        rw [hfirst]
        exact congrArg _ (ih.mpr hrest js hjs)

/-! ## Views -/

section Views

variable {τ κ π : Type*} {call' : τ → κ → τ × π} {P : σ → ι → Prop}

/-- Where a view of a state is stepped as the state is, the views along a run are a run. -/
theorem trace_view {view : σ → τ} {inp : ι → κ} {out : ο → π} {Inv : σ → Prop} {s : σ} {is : List ι}
    (hP : Along (after call) P s is) (h0 : Inv s)
    (hstep : ∀ s i, Inv s → P s i → Inv (call s i).1 ∧
      (view (call s i).1, out (call s i).2) = call' (view s) (inp i)) :
    (trace call s is).map (Prod.map view out) = trace call' (view s) (is.map inp) := by
  induction is generalizing s with
  | nil => rfl
  | cons i is ih =>
    obtain ⟨hinv, hview⟩ := hstep s i h0 hP.1
    rw [trace, List.map_cons, List.map_cons, trace, ih hP.2 hinv]
    unfold after
    rw [← hview]
    rfl

/-- Two runs that start from one view and whose inputs are seen as the same are seen as the same. -/
theorem trace_alike {view : σ → τ} {inp : ι → κ} {out : ο → π} {Inv : σ → Prop} {s s' : σ}
    {is js : List ι} (hP : Along (after call) P s is) (hP' : Along (after call) P s' js)
    (h0 : Inv s) (h0' : Inv s') (hstart : view s = view s') (hinputs : is.map inp = js.map inp)
    (hstep : ∀ s i, Inv s → P s i → Inv (call s i).1 ∧
      (view (call s i).1, out (call s i).2) = call' (view s) (inp i)) :
    List.Forall₂ (fun o o' => Prod.map view out o = Prod.map view out o')
      (trace call s is) (trace call s' js) := by
  have hsame : (trace call s is).map (Prod.map view out) =
      (trace call s' js).map (Prod.map view out) := by
    rw [trace_view hP h0 hstep, trace_view hP' h0' hstep, hstart, hinputs]
  rw [← List.forall₂_eq_eq_eq, List.forall₂_map_left_iff, List.forall₂_map_right_iff] at hsame
  exact hsame

end Views

end ConquerD.Lib.Trace
