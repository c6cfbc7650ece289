import Mathlib.Data.List.Basic

/-!
# The first entry that satisfies a test

A list either has no entry that satisfies a test, or it splits at the first that does.
In the split, lookups by test, index and value, and edits at the index, are what one
expects of the parts.
-/

namespace ConquerD.Lib.FirstMatch

variable {α : Type} {p : α → Bool} {l front back : List α} {a b : α}

/-- The list splits at its first entry that satisfies the test. -/
structure FirstAt (p : α → Bool) (l front : List α) (a : α) (back : List α) : Prop where
  eq : l = front ++ a :: back
  holds : p a = true
  before : ∀ b ∈ front, p b = false

theorem firstAt_or_none (p : α → Bool) (l : List α) :
    (∃ front a back, FirstAt p l front a back) ∨ ∀ a ∈ l, p a = false := by
  cases hfind : l.find? p with
  | none => exact .inr fun a ha => by simpa using List.find?_eq_none.mp hfind a ha
  | some a =>
    obtain ⟨ha, front, back, heq, hbefore⟩ := List.find?_eq_some_iff_append.mp hfind
    exact .inl ⟨front, a, back, heq, ha, fun b hb => by simpa using hbefore b hb⟩

namespace FirstAt

theorem find? (h : FirstAt p l front a back) : l.find? p = some a :=
  List.find?_eq_some_iff_append.mpr
    ⟨h.holds, front, back, h.eq, fun b hb => by simp [h.before b hb]⟩

theorem findIdx? (h : FirstAt p l front a back) : l.findIdx? p = some front.length := by
  rw [h.eq, List.findIdx?_append, List.findIdx?_eq_none_iff.mpr h.before]
  simp [List.findIdx?_cons, h.holds]

/-- The split of a list that differs in the entry, which still satisfies the test. -/
theorem replace (h : FirstAt p l front a back) (hb : p b = true) :
    FirstAt p (front ++ b :: back) front b back :=
  ⟨rfl, hb, h.before⟩

theorem inj {front' back' : List α} (h : FirstAt p l front a back)
    (h' : FirstAt p l front' b back') : front = front' ∧ a = b ∧ back = back' := by
  have hlen : front.length = front'.length :=
    Option.some.inj (h.findIdx?.symm.trans h'.findIdx?)
  obtain ⟨hfront, hrest⟩ := List.append_inj (h.eq.symm.trans h'.eq) hlen
  injection hrest with ha hback
  exact ⟨hfront, ha, hback⟩

theorem mem (h : FirstAt p l front a back) : a ∈ l := by
  rw [h.eq]
  exact List.mem_append_right _ List.mem_cons_self

theorem set (h : FirstAt p l front a back) : l.set front.length b = front ++ b :: back := by
  rw [h.eq]
  simp

theorem eraseIdx (h : FirstAt p l front a back) : l.eraseIdx front.length = front ++ back := by
  rw [h.eq, List.eraseIdx_append_of_length_le (Nat.le_refl _)]
  simp

end FirstAt

theorem find?_of_none (h : ∀ a ∈ l, p a = false) : l.find? p = none :=
  List.find?_eq_none.mpr fun a ha => by simp [h a ha]

theorem findIdx?_of_none (h : ∀ a ∈ l, p a = false) : l.findIdx? p = none :=
  List.findIdx?_eq_none_iff.mpr h

theorem any_of_none (h : ∀ a ∈ l, p a = false) : l.any p = false :=
  List.any_eq_false.mpr fun a ha => by simp [h a ha]

theorem FirstAt.any (h : FirstAt p l front a back) : l.any p = true :=
  List.any_eq_true.mpr ⟨a, h.mem, h.holds⟩

/-! ## Beside an entry that fails the test -/

section Beside

variable {left right : List α} {x : α}

theorem FirstAt.beside (h : FirstAt p (left ++ x :: right) front a back) (hx : p x = false) :
    (∃ rest, left = front ++ a :: rest) ∨
      ∃ mid, front = left ++ x :: mid ∧ right = mid ++ a :: back := by
  rcases List.append_eq_append_iff.mp h.eq with ⟨mid, hfront, hrest⟩ | ⟨mid, hleft, hrest⟩
  · cases mid with
    | nil =>
      injection hrest with hhead
      rw [hhead] at hx
      cases hx.symm.trans h.holds
    | cons y mid =>
      injection hrest with hhead htail
      subst hhead
      exact .inr ⟨mid, hfront, htail⟩
  · cases mid with
    | nil =>
      injection hrest with hhead
      rw [← hhead] at hx
      cases hx.symm.trans h.holds
    | cons y mid =>
      injection hrest with hhead
      subst hhead
      exact .inl ⟨mid, hleft⟩

/-- Whatever is put in place of an entry that fails the test, the first match stays, at
its place or as far from its old one as the entries behind have moved. -/
theorem FirstAt.past (h : FirstAt p (left ++ x :: right) front a back) (hx : p x = false)
    (new : List α) (hnew : ∀ b ∈ new, p b = false) :
    ∃ front' back', FirstAt p (left ++ new ++ right) front' a back' ∧
      (front' = front ∨ (a ∈ right ∧ front'.length + 1 = front.length + new.length)) := by
  rcases h.beside hx with ⟨rest, rfl⟩ | ⟨mid, rfl, rfl⟩
  · refine ⟨front, rest ++ (new ++ right), ⟨?_, h.holds, h.before⟩, .inl rfl⟩
    simp
  · refine ⟨left ++ new ++ mid, back, ⟨?_, h.holds, ?_⟩, .inr ⟨?_, ?_⟩⟩
    · simp
    · intro b hb
      simp only [List.mem_append] at hb
      rcases hb with (hb | hb) | hb
      · exact h.before b (List.mem_append_left _ hb)
      · exact hnew b hb
      · exact h.before b (List.mem_append_right _ (List.mem_cons_of_mem _ hb))
    · exact List.mem_append_right _ List.mem_cons_self
    · simp only [List.length_append, List.length_cons]
      omega

end Beside

/-- The first match is the same whatever is put in place of an entry that fails the test. -/
theorem find?_past {l left right new : List α} {x : α} (hx : p x = false)
    (hnew : ∀ b ∈ new, p b = false) (heq : l = left ++ x :: right) :
    (left ++ new ++ right).find? p = l.find? p := by
  rw [heq, List.append_assoc, List.find?_append, List.find?_append, List.find?_append,
    find?_of_none hnew, List.find?_cons, hx]
  simp

theorem FirstAt.behind (h : FirstAt p l front a back) :
    (l.dropWhile fun b => !p b).tail = back := by
  have hfront : (front ++ a :: back).dropWhile (fun b => !p b) = a :: back := by
    rw [List.dropWhile_append_of_pos fun b hb => by simp [h.before b hb],
      List.dropWhile_cons_of_neg (by simp [h.holds])]
  rw [h.eq, hfront, List.tail_cons]

/-! ## Values made of an entry and its place -/

section Placed

variable {β : Type} {f : Nat → α → β} {q : β → Bool}

theorem FirstAt.find?_mapIdx (h : FirstAt p l front a back) (hq : ∀ k x, q (f k x) = p x) :
    (l.mapIdx f).find? q = some (f front.length a) := by
  have hnone : (front.mapIdx f).find? q = none := by
    refine find?_of_none fun b hb => ?_
    obtain ⟨k, hk, rfl⟩ := List.mem_mapIdx.mp hb
    rw [hq]
    exact h.before _ (List.getElem_mem hk)
  rw [h.eq, List.mapIdx_append, List.find?_append, hnone, List.mapIdx_cons, List.find?_cons,
    hq, h.holds]
  simp

theorem find?_mapIdx_of_none (h : ∀ a ∈ l, p a = false) (hq : ∀ k x, q (f k x) = p x) :
    (l.mapIdx f).find? q = none := by
  refine find?_of_none fun b hb => ?_
  obtain ⟨k, hk, rfl⟩ := List.mem_mapIdx.mp hb
  rw [hq]
  exact h _ (List.getElem_mem hk)

end Placed

end ConquerD.Lib.FirstMatch
