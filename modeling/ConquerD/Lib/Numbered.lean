import Mathlib.Data.List.Basic

/-!
# Numbered lists

Lists whose entries are shown with their numbers, from one, and deleted by number.
Deleting entries renumbers those behind them, so a batch of numbers read off one
listing is deleted from the back: what remains is then the entries that were not
in the batch. Two filters of a list are compared by what they keep.
-/

namespace ConquerD.Lib.Numbered

variable {α : Type}

/-- The numbers, from `first` on, of the entries that satisfy `p`. -/
def numbersFrom (p : α → Bool) (first : Nat) : List α → List Nat
  | [] => []
  | a :: l => if p a then first :: numbersFrom p (first + 1) l else numbersFrom p (first + 1) l

/-- The listing's numbers of the entries that satisfy `p`. -/
def numbers (p : α → Bool) (l : List α) : List Nat :=
  numbersFrom p 1 l

/-- The list without the entry of that number. -/
def deleteNumber (l : List α) (n : Nat) : List α :=
  l.eraseIdx (n - 1)

/-- The numbers deleted one after the other, each from the list as it then is. -/
def deleteNumbers (l : List α) (ns : List Nat) : List α :=
  ns.foldl deleteNumber l

theorem deleteNumbers_append (front l : List α) (ns : List Nat) (first : Nat)
    (hns : ∀ n ∈ ns, front.length + first ≤ n) (hfirst : 0 < first) :
    deleteNumbers (front ++ l) ns = front ++ deleteNumbers l (ns.map (· - front.length)) := by
  induction ns generalizing l with
  | nil => rfl
  | cons n ns ih =>
    have hn : front.length + first ≤ n := hns n List.mem_cons_self
    have hstep : deleteNumber (front ++ l) n = front ++ deleteNumber l (n - front.length) := by
      unfold deleteNumber
      rw [List.eraseIdx_append_of_length_le (by omega)]
      congr 2
      omega
    simp only [deleteNumbers, List.foldl_cons, List.map_cons] at ih ⊢
    rw [hstep]
    exact ih _ fun m hm => hns m (List.mem_cons_of_mem _ hm)

theorem le_of_mem_numbersFrom {p : α → Bool} : ∀ {l : List α} {first n : Nat},
    n ∈ numbersFrom p first l → first ≤ n
  | [], _, _, h => nomatch h
  | a :: l, first, n, h => by
    unfold numbersFrom at h
    split at h
    · rcases List.mem_cons.mp h with rfl | h
      · exact Nat.le_refl _
      · exact Nat.le_of_succ_le (le_of_mem_numbersFrom h)
    · exact Nat.le_of_succ_le (le_of_mem_numbersFrom h)

theorem numbersFrom_add (p : α → Bool) (k : Nat) : ∀ (l : List α) (first : Nat),
    numbersFrom p (first + k) l = (numbersFrom p first l).map (· + k)
  | [], _ => rfl
  | a :: l, first => by
    have ih := numbersFrom_add p k l (first + 1)
    rw [Nat.add_right_comm] at ih
    unfold numbersFrom
    split
    · rw [ih, List.map_cons]
    · exact ih

theorem deleteNumbers_reverse (p : α → Bool) (l : List α) :
    deleteNumbers l (numbers p l).reverse = l.filter fun a => !p a := by
  induction l with
  | nil => rfl
  | cons a l ih =>
    -- behind the first entry the numbers are those of the tail, one higher
    have htail : deleteNumbers (a :: l) (numbersFrom p 2 l).reverse =
        a :: l.filter fun a => !p a := by
      have hshift : (numbersFrom p 2 l).reverse.map (· - [a].length) = (numbers p l).reverse := by
        rw [numbersFrom_add p 1 l 1, ← List.map_reverse, List.map_map]
        unfold numbers
        exact List.map_id'' (fun n => Nat.add_sub_cancel n 1) _
      have happend := deleteNumbers_append [a] l (numbersFrom p 2 l).reverse 1
        (fun n hn => le_of_mem_numbersFrom (List.mem_reverse.mp hn)) Nat.one_pos
      rw [List.singleton_append] at happend
      rw [happend, hshift, ih]
      rfl
    unfold numbers numbersFrom
    by_cases hp : p a = true
    · rw [if_pos hp, List.reverse_cons]
      unfold deleteNumbers at htail ⊢
      rw [List.foldl_append, htail]
      simp [deleteNumber, hp]
    · rw [if_neg hp]
      rw [htail]
      simp [hp]

/-- A filter by `p` is lost on one by `q` exactly when `p` keeps all that `q` keeps. -/
theorem filter_filter_eq_iff {p q : α → Bool} {l : List α} :
    (l.filter p).filter q = l.filter q ↔ ∀ a ∈ l, q a = true → p a = true := by
  rw [List.filter_filter]
  constructor
  · intro h a ha hq
    have hmem : a ∈ l.filter q := List.mem_filter.mpr ⟨ha, hq⟩
    rw [← h, List.mem_filter, Bool.and_eq_true] at hmem
    exact hmem.2.2
  · intro h
    refine List.filter_congr fun a ha => ?_
    cases hq : q a with
    | true => simp [h a ha hq]
    | false => rfl

end ConquerD.Lib.Numbered
