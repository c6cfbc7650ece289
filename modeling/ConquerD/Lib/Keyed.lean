import Mathlib.Data.List.Nodup
import Std.Data.ExtTreeMap
import Std.Data.ExtTreeSet

/-!
# Maps filed by a key of their values

A map whose values carry their own key is given back by any list of its values,
filed again one by one; so is a set by any list of its elements.
-/

namespace ConquerD.Lib.Keyed

open Std (ExtTreeMap ExtTreeSet)

variable {α : Type*} {key : α → String}

/-- Every value is filed under its own key. -/
def FiledBy (key : α → String) (m : ExtTreeMap String α) : Prop :=
  ∀ k v, m[k]? = some v → key v = k

/-- The values of a list, filed one after the other. -/
def fileAll (key : α → String) (m : ExtTreeMap String α) (l : List α) : ExtTreeMap String α :=
  l.foldl (fun m v => m.insert (key v) v) m

def values (m : ExtTreeMap String α) : List α :=
  m.toList.map Prod.snd

variable {m : ExtTreeMap String α}

theorem filedBy_empty : FiledBy key ∅ := by
  intro k v h
  simp at h

theorem FiledBy.insert (h : FiledBy key m) (v : α) : FiledBy key (m.insert (key v) v) := by
  intro k w hw
  rw [ExtTreeMap.getElem?_insert] at hw
  split at hw
  · next hk =>
    obtain rfl := Option.some.inj hw
    exact Std.compare_eq_iff_eq.mp hk
  · exact h k w hw

theorem FiledBy.erase (h : FiledBy key m) (k' : String) : FiledBy key (m.erase k') := by
  intro k w hw
  rw [ExtTreeMap.getElem?_erase] at hw
  split at hw
  · cases hw
  · exact h k w hw

theorem filedBy_fileAll (h : FiledBy key m) (l : List α) : FiledBy key (fileAll key m l) := by
  induction l generalizing m with
  | nil => exact h
  | cons v l ih => exact ih (h.insert v)

theorem mem_values {v : α} : v ∈ values m ↔ ∃ k : String, m[k]? = some v := by
  constructor
  · intro hv
    obtain ⟨⟨k, w⟩, hmem, rfl⟩ := List.mem_map.mp hv
    exact ⟨k, ExtTreeMap.mem_toList_iff_getElem?_eq_some.mp hmem⟩
  · rintro ⟨k, hk⟩
    exact List.mem_map.mpr ⟨(k, v), ExtTreeMap.mem_toList_iff_getElem?_eq_some.mpr hk, rfl⟩

theorem FiledBy.mem_values_iff (h : FiledBy key m) {v : α} : v ∈ values m ↔ m[key v]? = some v := by
  rw [mem_values]
  constructor
  · rintro ⟨k, hk⟩
    rw [h k v hk]
    exact hk
  · exact fun hv => ⟨key v, hv⟩

theorem FiledBy.nodup_keys (h : FiledBy key m) : ((values m).map key).Nodup := by
  have hkeys : (values m).map key = m.toList.map Prod.fst := by
    unfold values
    rw [List.map_map]
    refine List.map_congr_left fun e he => ?_
    exact h e.1 e.2 (ExtTreeMap.mem_toList_iff_getElem?_eq_some.mp he)
  rw [hkeys, ExtTreeMap.map_fst_toList_eq_keys]
  exact ExtTreeMap.nodup_keys

theorem getElem?_fileAll {l : List α} (hl : (l.map key).Nodup) {k : String} {v : α} :
    (fileAll key m l)[k]? = some v ↔ (v ∈ l ∧ key v = k) ∨ (k ∉ l.map key ∧ m[k]? = some v) := by
  induction l generalizing m with
  | nil => simp [fileAll]
  | cons w l ih =>
    obtain ⟨hw, hrest⟩ := List.nodup_cons.mp hl
    have hstep : fileAll key m (w :: l) = fileAll key (m.insert (key w) w) l := rfl
    rw [hstep, ih hrest, ExtTreeMap.getElem?_insert]
    by_cases hk : key w = k
    · subst hk
      rw [if_pos Std.compare_self, and_iff_right hw, List.mem_cons, List.map_cons]
      constructor
      · rintro (⟨hv, hkey⟩ | heq)
        · exact .inl ⟨.inr hv, hkey⟩
        · exact .inl ⟨.inl (Option.some.inj heq).symm, (Option.some.inj heq) ▸ rfl⟩
      · rintro (⟨rfl | hv, hkey⟩ | ⟨hnot, -⟩)
        · exact .inr rfl
        · exact .inl ⟨hv, hkey⟩
        · exact absurd List.mem_cons_self hnot
    · rw [if_neg fun hcmp => hk (Std.compare_eq_iff_eq.mp hcmp), List.map_cons]
      have hne : v = w → ¬ key v = k := fun hvw hkey => hk (hvw ▸ hkey)
      constructor
      · rintro (⟨hv, hkey⟩ | ⟨hnot, hm⟩)
        · exact .inl ⟨List.mem_cons_of_mem w hv, hkey⟩
        · exact .inr ⟨fun hmem => (List.mem_cons.mp hmem).elim (fun h => hk h.symm) hnot, hm⟩
      · rintro (⟨hv, hkey⟩ | ⟨hnot, hm⟩)
        · exact .inl ⟨(List.mem_cons.mp hv).resolve_left fun h => hne h hkey, hkey⟩
        · exact .inr ⟨fun hmem => hnot (List.mem_cons_of_mem _ hmem), hm⟩

theorem FiledBy.fileAll_values (h : FiledBy key m) {l : List α} (hl : l.Perm (values m)) :
    fileAll key ∅ l = m := by
  refine ExtTreeMap.ext_getElem? fun k => Option.ext fun v => ?_
  have hnodup : (l.map key).Nodup := ((hl.map key).nodup_iff).mpr h.nodup_keys
  rw [getElem?_fileAll hnodup]
  constructor
  · rintro (⟨hv, rfl⟩ | ⟨-, hnone⟩)
    · exact h.mem_values_iff.mp (hl.mem_iff.mp hv)
    · simp at hnone
  · intro hv
    have hkey : key v = k := h k v hv
    exact .inl ⟨hl.mem_iff.mpr (mem_values.mpr ⟨k, hv⟩), hkey⟩

/-- Whatever order its elements come in, the set is put together again. -/
theorem foldl_insert_toList {s : ExtTreeSet String} {l : List String} (hl : l.Perm s.toList) :
    l.foldl (fun s k => s.insert k) (∅ : ExtTreeSet String) = s := by
  have hmem (t : ExtTreeSet String) (k : String) :
      k ∈ l.foldl (fun s k => s.insert k) t ↔ k ∈ l ∨ k ∈ t := by
    clear hl
    induction l generalizing t with
    | nil => simp
    | cons a l ih =>
      rw [List.foldl_cons, ih, ExtTreeSet.mem_insert, Std.compare_eq_iff_eq, List.mem_cons]
      tauto
  refine ExtTreeSet.ext_mem fun k => ?_
  rw [hmem, hl.mem_iff, ExtTreeSet.mem_toList]
  simp

/-! ## Moving entries -/

/-- An entry leaves one key for another. -/
structure Move (β : Type*) where
  src : String
  dst : String
  value : β

section Move

variable {β : Type*} {f : String → Option β} {l : List (Move β)} {a b : Move β} {x : String}

def Move.apply (f : String → Option β) (a : Move β) : String → Option β :=
  fun x => if x = a.dst then some a.value else if x = a.src then none else f x

/-- What is found under a key after some moves, one after the other. -/
def moveAll (f : String → Option β) (l : List (Move β)) : String → Option β :=
  l.foldl Move.apply f

theorem moveAll_cons (f : String → Option β) (a : Move β) (l : List (Move β)) :
    moveAll f (a :: l) = moveAll (a.apply f) l := rfl

theorem moveAll_of_ne (h : ∀ a ∈ l, x ≠ a.dst ∧ x ≠ a.src) : moveAll f l x = f x := by
  induction l generalizing f with
  | nil => rfl
  | cons a l ih =>
    obtain ⟨hdst, hsrc⟩ := h a List.mem_cons_self
    rw [moveAll_cons, ih fun b hb => h b (List.mem_cons_of_mem a hb), Move.apply, if_neg hdst,
      if_neg hsrc]

theorem moveAll_some {v : β} (hsrc : ∀ a ∈ l, a.src ≠ x) (hdst : ∀ a ∈ l, a.dst = x → a.value = v)
    (h : f x = some v) : moveAll f l x = some v := by
  induction l generalizing f with
  | nil => exact h
  | cons a l ih =>
    refine ih (fun b hb => hsrc b (List.mem_cons_of_mem a hb))
      (fun b hb => hdst b (List.mem_cons_of_mem a hb)) ?_
    rw [Move.apply]
    split
    · next hsame => rw [hdst a List.mem_cons_self hsame.symm]
    · rw [if_neg fun hgone => hsrc a List.mem_cons_self hgone.symm]
      exact h

theorem moveAll_none (hdst : ∀ a ∈ l, x ≠ a.dst) (h : f x = none) : moveAll f l x = none := by
  induction l generalizing f with
  | nil => exact h
  | cons a l ih =>
    refine ih (fun b hb => hdst b (List.mem_cons_of_mem a hb)) ?_
    rw [Move.apply, if_neg (hdst a List.mem_cons_self)]
    split
    · rfl
    · exact h

/-- Where no entry leaves a key that another comes to, each is found where it went. -/
theorem moveAll_dst (hfree : ∀ a ∈ l, ∀ b ∈ l, a.src ≠ b.dst)
    (hagree : ∀ a ∈ l, ∀ b ∈ l, a.dst = b.dst → a.value = b.value) (ha : a ∈ l) :
    moveAll f l a.dst = some a.value := by
  induction l generalizing f with
  | nil => cases ha
  | cons b l ih =>
    have hmem : ∀ c ∈ l, c ∈ b :: l := fun c hc => List.mem_cons_of_mem b hc
    rw [moveAll_cons]
    rcases List.mem_cons.mp ha with rfl | hin
    · exact moveAll_some (fun c hc => hfree c (hmem c hc) a ha)
        (fun c hc => hagree c (hmem c hc) a ha) (if_pos rfl)
    · exact ih (fun c hc d hd => hfree c (hmem c hc) d (hmem d hd))
        (fun c hc d hd => hagree c (hmem c hc) d (hmem d hd)) hin

theorem moveAll_src (hnot : ∀ b ∈ l, a.src ≠ b.dst) (ha : a ∈ l) : moveAll f l a.src = none := by
  induction l generalizing f with
  | nil => cases ha
  | cons b l ih =>
    have hlater : ∀ c ∈ l, a.src ≠ c.dst := fun c hc => hnot c (List.mem_cons_of_mem b hc)
    rw [moveAll_cons]
    rcases List.mem_cons.mp ha with rfl | hin
    · refine moveAll_none hlater ?_
      rw [Move.apply, if_neg (hnot a List.mem_cons_self), if_pos rfl]
    · exact ih hlater hin

theorem of_moveAll {v : β} (h : moveAll f l x = some v) :
    (∃ a ∈ l, a.dst = x) ∨ ((∀ a ∈ l, x ≠ a.dst ∧ x ≠ a.src) ∧ f x = some v) := by
  by_cases hdst : ∃ a ∈ l, a.dst = x
  · exact .inl hdst
  · have hnot : ∀ a ∈ l, x ≠ a.dst := fun a ha heq => hdst ⟨a, ha, heq.symm⟩
    have hsrc : ∀ a ∈ l, x ≠ a.src := by
      rintro a ha rfl
      rw [moveAll_src hnot ha] at h
      cases h
    have hall : ∀ a ∈ l, x ≠ a.dst ∧ x ≠ a.src := fun a ha => ⟨hnot a ha, hsrc a ha⟩
    rw [moveAll_of_ne hall] at h
    exact .inr ⟨hall, h⟩

theorem moveAll_perm {l' : List (Move β)} (hfree : ∀ a ∈ l, ∀ b ∈ l, a.src ≠ b.dst)
    (hagree : ∀ a ∈ l, ∀ b ∈ l, a.dst = b.dst → a.value = b.value) (hperm : l.Perm l') :
    moveAll f l = moveAll f l' := by
  have hmem : ∀ {a : Move β}, a ∈ l' ↔ a ∈ l := hperm.mem_iff.symm
  funext x
  by_cases hdst : ∃ a ∈ l, a.dst = x
  · obtain ⟨a, ha, rfl⟩ := hdst
    rw [moveAll_dst hfree hagree ha, moveAll_dst (fun b hb c hc => hfree b (hmem.mp hb) c (hmem.mp hc))
      (fun b hb c hc => hagree b (hmem.mp hb) c (hmem.mp hc)) (hmem.mpr ha)]
  · have hnot : ∀ a ∈ l, x ≠ a.dst := fun a ha heq => hdst ⟨a, ha, heq.symm⟩
    by_cases hsrc : ∃ a ∈ l, a.src = x
    · obtain ⟨a, ha, rfl⟩ := hsrc
      rw [moveAll_src hnot ha, moveAll_src (fun b hb => hnot b (hmem.mp hb)) (hmem.mpr ha)]
    · have hall : ∀ a ∈ l, x ≠ a.dst ∧ x ≠ a.src :=
        fun a ha => ⟨hnot a ha, fun heq => hsrc ⟨a, ha, heq.symm⟩⟩
      rw [moveAll_of_ne hall, moveAll_of_ne fun a ha => hall a (hmem.mp ha)]

theorem moveAll_concat (f : String → Option β) (l : List (Move β)) (a : Move β) :
    moveAll f (l ++ [a]) = a.apply (moveAll f l) := by
  rw [moveAll, List.foldl_append]
  rfl

end Move

end ConquerD.Lib.Keyed
