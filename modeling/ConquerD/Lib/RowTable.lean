import Mathlib.Data.List.Nodup

/-!
# Tables of numbered rows

A table holds its rows in the order of their row numbers, and no two rows have
one key. A new row takes the number after the highest; replacing the row of a
key removes the old one and puts the new one last. What a statement does to the
contents of a table is what it does to the list of rows without their numbers,
and a selection by descending row number with a limit and an offset is a slice
of that list read backwards.
-/

namespace ConquerD.Lib

/-! ## Keeping the last ones -/

/-- The list without the elements in `p` that `k` later ones in `p` follow. -/
def keepLast {ρ : Type} (p : ρ → Bool) (k : Nat) : List ρ → List ρ
  | [] => []
  | a :: rest =>
    if p a && decide (k ≤ rest.countP p) then keepLast p k rest else a :: keepLast p k rest

section KeepLast

variable {ρ : Type} {p q : ρ → Bool} {k : Nat}

theorem filter_keepLast (l : List ρ) :
    (keepLast p k l).filter p = (l.filter p).drop ((l.filter p).length - k) := by
  induction l with
  | nil => simp [keepLast]
  | cons a rest ih =>
    rw [keepLast, List.countP_eq_length_filter]
    by_cases hp : p a
    · rw [List.filter_cons_of_pos hp, List.length_cons]
      by_cases hk : k ≤ (rest.filter p).length
      · have hlast : (rest.filter p).length + 1 - k = (rest.filter p).length - k + 1 := by omega
        simp [hp, hk, ih, hlast]
      · have hall : (rest.filter p).length + 1 - k = 0 := by omega
        have hrest : (rest.filter p).length - k = 0 := by omega
        simp [hp, hk, ih, hall, hrest]
    · simp [hp, ih]

theorem filter_keepLast_of_disjoint (hdisj : ∀ a, q a = true → p a = false) (l : List ρ) :
    (keepLast p k l).filter q = l.filter q := by
  induction l with
  | nil => rfl
  | cons a rest ih =>
    rw [keepLast]
    by_cases hq : q a
    · simp [hdisj a hq, hq, ih]
    · split <;> simp [hq, ih]

theorem countP_keepLast_of_disjoint (hdisj : ∀ a, q a = true → p a = false) (l : List ρ) :
    (keepLast p k l).countP q = l.countP q := by
  rw [List.countP_eq_length_filter, filter_keepLast_of_disjoint hdisj,
    List.countP_eq_length_filter]

/-- Keeping the last `k` of each group, the groups told by a value. -/
def keepLastEach {γ : Type} [DecidableEq γ] (g : ρ → γ) (k : Nat) : List ρ → List ρ
  | [] => []
  | a :: rest =>
    if k ≤ rest.countP fun b => decide (g b = g a) then keepLastEach g k rest
    else a :: keepLastEach g k rest

theorem foldl_keepLast_cons {γ : Type} [DecidableEq γ] (g : ρ → γ) {groups : List γ}
    (hgroups : groups.Nodup) (a : ρ) (rest : List ρ) :
    groups.foldl (fun l v => keepLast (fun b => decide (g b = v)) k l) (a :: rest) =
      if g a ∈ groups ∧ k ≤ rest.countP fun b => decide (g b = g a) then
        groups.foldl (fun l v => keepLast (fun b => decide (g b = v)) k l) rest
      else a :: groups.foldl (fun l v => keepLast (fun b => decide (g b = v)) k l) rest := by
  induction groups generalizing rest with
  | nil => simp
  | cons v groups ih =>
    obtain ⟨hv, hothers⟩ := List.nodup_cons.mp hgroups
    simp only [List.foldl_cons]
    by_cases hav : g a = v
    · subst hav
      by_cases hk : k ≤ rest.countP fun b => decide (g b = g a)
      · simp [keepLast, hk]
      · simp [keepLast, hk, ih hothers, hv]
    · have hsame : (keepLast (fun b => decide (g b = v)) k rest).countP
          (fun b => decide (g b = g a)) = rest.countP fun b => decide (g b = g a) := by
        apply countP_keepLast_of_disjoint
        intro b hb
        simpa [of_decide_eq_true hb] using hav
      simp [keepLast, hav, ih hothers, hsame]

theorem foldl_keepLast {γ : Type} [DecidableEq γ] (g : ρ → γ) {groups : List γ}
    (hgroups : groups.Nodup) {l : List ρ} (hall : ∀ a ∈ l, g a ∈ groups) :
    groups.foldl (fun l v => keepLast (fun b => decide (g b = v)) k l) l = keepLastEach g k l := by
  induction l with
  | nil =>
    clear hall hgroups
    induction groups with
    | nil => rfl
    | cons v groups ih => exact ih
  | cons a rest ih =>
    have hrest := ih fun b hb => hall b (List.mem_cons_of_mem _ hb)
    rw [foldl_keepLast_cons g hgroups, keepLastEach, hrest]
    simp [hall a List.mem_cons_self]

theorem map_keepLastEach {ρ' γ : Type} [DecidableEq γ] {g : ρ' → γ} {f : ρ → ρ'} (l : List ρ) :
    (keepLastEach (fun a => g (f a)) k l).map f = keepLastEach g k (l.map f) := by
  induction l with
  | nil => rfl
  | cons a rest ih =>
    rw [List.map_cons, keepLastEach, keepLastEach, List.countP_map]
    simp only [Function.comp_def]
    split
    · exact ih
    · rw [List.map_cons, ih]

theorem keepLastEach_sublist {γ : Type} [DecidableEq γ] (g : ρ → γ) (l : List ρ) :
    (keepLastEach g k l).Sublist l := by
  induction l with
  | nil => exact .slnil
  | cons a rest ih =>
    rw [keepLastEach]
    split
    · exact ih.cons a
    · exact ih.cons_cons a

theorem filter_keepLastEach {γ : Type} [DecidableEq γ] (g : ρ → γ) (v : γ) (l : List ρ) :
    (keepLastEach g k l).filter (fun b => decide (g b = v)) =
      (l.filter fun b => decide (g b = v)).drop
        ((l.filter fun b => decide (g b = v)).length - k) := by
  rw [← filter_keepLast]
  induction l with
  | nil => rfl
  | cons a rest ih =>
    rw [keepLastEach, keepLast]
    by_cases hav : g a = v
    · subst hav
      by_cases hk : k ≤ rest.countP fun b => decide (g b = g a)
      · simp [hk, ih]
      · simp [hk, ih]
    · split <;> simp [hav, ih]

theorem mem_take_append_cons {α : Type} {x : α} {u v : List α} (hx : x ∉ u) :
    x ∈ (u ++ x :: v).take k ↔ u.length < k := by
  rw [List.take_append, List.mem_append]
  constructor
  · rintro (hu | hv)
    · exact absurd (List.mem_of_mem_take hu) hx
    · by_contra hle
      rw [Nat.sub_eq_zero_of_le (by omega), List.take_zero] at hv
      cases hv
  · intro hlt
    obtain ⟨m, hm⟩ : ∃ m, k - u.length = m + 1 := ⟨k - u.length - 1, by omega⟩
    right
    rw [hm, List.take_succ_cons]
    exact List.mem_cons_self

end KeepLast

/-! ## Tables -/

/-- Rows under increasing numbers, with distinct keys. -/
@[ext] structure RowTable {ρ κ : Type} (key : ρ → κ) where
  rows : List (Nat × ρ)
  increasing : rows.Pairwise fun a b => a.1 < b.1
  distinct : (rows.map fun r => key r.2).Nodup

namespace RowTable

variable {ρ κ : Type} {key : ρ → κ}

def empty : RowTable key := ⟨[], .nil, .nil⟩

/-- The rows without their numbers. -/
def contents (t : RowTable key) : List ρ :=
  t.rows.map (·.2)

theorem nodup_contents (t : RowTable key) : (t.contents.map key).Nodup := by
  rw [contents, List.map_map]
  exact t.distinct

/-- The number after the highest. -/
def nextRowid (t : RowTable key) : Nat :=
  (t.rows.map (·.1)).foldr max 0 + 1

theorem lt_nextRowid {t : RowTable key} {r : Nat × ρ} (hr : r ∈ t.rows) : r.1 < t.nextRowid := by
  rw [nextRowid, Nat.lt_succ_iff]
  generalize t.rows = rows at hr
  induction rows with
  | nil => cases hr
  | cons r' rows ih =>
    rcases List.mem_cons.mp hr with rfl | hr
    · exact Nat.le_max_left _ _
    · exact Nat.le_trans (ih hr) (Nat.le_max_right _ _)

/-- Removes the rows that are in `p`, by number and content. -/
def deleteWhere (t : RowTable key) (p : Nat × ρ → Bool) : RowTable key where
  rows := t.rows.filter fun r => !p r
  increasing := t.increasing.sublist List.filter_sublist
  distinct := t.distinct.sublist (List.filter_sublist.map _)

/-- Adds a row whose key is free as the last one. -/
def add (t : RowTable key) (row : ρ) (rowid : Nat) (hid : ∀ r ∈ t.rows, r.1 < rowid)
    (hfree : ∀ r ∈ t.rows, key r.2 ≠ key row) : RowTable key where
  rows := t.rows ++ [(rowid, row)]
  increasing := by
    rw [List.pairwise_append]
    refine ⟨t.increasing, List.pairwise_singleton _ _, ?_⟩
    intro r hr s hs
    rw [List.mem_singleton.mp hs]
    exact hid r hr
  distinct := by
    rw [List.map_append, List.nodup_append]
    refine ⟨t.distinct, List.nodup_singleton _, ?_⟩
    intro k hk k' hk'
    obtain ⟨r, hr, rfl⟩ := List.mem_map.mp hk
    rw [List.mem_singleton.mp hk']
    exact hfree r hr

/-- `INSERT`: fails on a key that is taken. -/
def insert? [DecidableEq κ] (t : RowTable key) (row : ρ) : Option (RowTable key) :=
  if hfree : ∀ r ∈ t.rows, key r.2 ≠ key row then
    some (t.add row t.nextRowid (fun _ hr => lt_nextRowid hr) hfree)
  else none

/-- `INSERT OR REPLACE`: the row of the key goes, and the new one is numbered
after the highest the table had. -/
def insertOrReplace [DecidableEq κ] (t : RowTable key) (row : ρ) : RowTable key :=
  (t.deleteWhere fun r => decide (key r.2 = key row)).add row t.nextRowid
    (fun _ hr => lt_nextRowid (List.mem_of_mem_filter hr))
    (fun r hr => by
      have hne := List.of_mem_filter hr
      simpa using hne)

/-- `UPDATE`: a change that keeps the key, on the rows in `p`. -/
def updateWhere (t : RowTable key) (p : ρ → Bool) (f : ρ → ρ) (hkey : ∀ row, key (f row) = key row) :
    RowTable key where
  rows := t.rows.map fun r => (r.1, if p r.2 then f r.2 else r.2)
  increasing := by
    rw [List.pairwise_map]
    exact t.increasing
  distinct := by
    have hsame : ∀ row, key (if p row then f row else row) = key row := by
      intro row
      split
      · exact hkey row
      · rfl
    simpa [List.map_map, Function.comp_def, hsame] using t.distinct

/-- `SELECT … ORDER BY rowid DESC LIMIT … OFFSET …`. -/
def selectDesc (t : RowTable key) (p : ρ → Bool) (limit offset : Nat) : List ρ :=
  ((t.contents.filter p).reverse.drop offset).take limit

/-- The numbers of the last `limit` rows in `p`, of all of them when the limit
is negative. -/
def lastRowids (t : RowTable key) (p : ρ → Bool) (limit : Int) : List Nat :=
  let newest := ((t.rows.filter fun r => p r.2).map (·.1)).reverse
  if limit < 0 then newest else newest.take limit.toNat

def deleteAllButLast (t : RowTable key) (p : ρ → Bool) (limit : Int) : RowTable key :=
  t.deleteWhere fun r => p r.2 && !(t.lastRowids p limit).contains r.1

/-! ## What the statements do to the contents -/

@[simp] theorem contents_empty : (empty : RowTable key).contents = [] := rfl

theorem contents_deleteWhere (t : RowTable key) (p : ρ → Bool) :
    (t.deleteWhere fun r => p r.2).contents = t.contents.filter fun row => !p row := by
  rw [contents, contents, deleteWhere, List.filter_map]
  rfl

theorem contents_add (t : RowTable key) (row : ρ) (rowid : Nat) (hid hfree) :
    (t.add row rowid hid hfree).contents = t.contents ++ [row] := by
  simp [contents, add]

theorem of_insert?_eq_some [DecidableEq κ] {t t' : RowTable key} {row : ρ} (h : t.insert? row = some t') :
    key row ∉ t.contents.map key ∧ t'.contents = t.contents ++ [row] := by
  unfold insert? at h
  split at h
  · next hfree =>
    cases h
    refine ⟨?_, contents_add ..⟩
    rw [contents, List.map_map]
    intro hmem
    obtain ⟨r, hr, heq⟩ := List.mem_map.mp hmem
    exact hfree r hr heq
  · cases h

theorem insert?_eq_none_iff [DecidableEq κ] {t : RowTable key} {row : ρ} :
    t.insert? row = none ↔ key row ∈ t.contents.map key := by
  unfold insert?
  rw [contents, List.map_map]
  split
  · next hfree =>
    refine iff_of_false (by simp) ?_
    intro hmem
    obtain ⟨r, hr, heq⟩ := List.mem_map.mp hmem
    exact hfree r hr heq
  · next hfree =>
    simp only [true_iff]
    obtain ⟨r, hr, heq⟩ := not_forall₂.mp hfree
    exact List.mem_map.mpr ⟨r, hr, not_not.mp heq⟩

theorem contents_insertOrReplace [DecidableEq κ] (t : RowTable key) (row : ρ) :
    (t.insertOrReplace row).contents =
      (t.contents.filter fun r => !decide (key r = key row)) ++ [row] := by
  rw [insertOrReplace, contents_add]
  exact congrArg (· ++ [row]) (contents_deleteWhere t fun r => decide (key r = key row))

theorem contents_updateWhere (t : RowTable key) (p : ρ → Bool) (f : ρ → ρ) (hkey) :
    (t.updateWhere p f hkey).contents =
      t.contents.map fun row => if p row then f row else row := by
  simp [contents, updateWhere, Function.comp_def]

theorem contents_deleteAllButLast (t : RowTable key) (p : ρ → Bool) (k : Nat) :
    (t.deleteAllButLast p k).contents = keepLast p k t.contents := by
  have hsuffix : ∀ front back : List (Nat × ρ), t.rows = front ++ back →
      (back.filter fun r => !(p r.2 && !(t.lastRowids p k).contains r.1)).map (·.2) =
        keepLast p k (back.map (·.2)) := by
    intro front back hrows
    -- the induction is on the rows from the end, as the last ones are kept
    induction back generalizing front with
    | nil => rfl
    | cons r rest ih =>
      have hrest := ih (front ++ [r]) (by simpa using hrows)
      rw [List.map_cons, keepLast, List.countP_map, List.filter_cons]
      by_cases hp : p r.2
      · have hkept : r.1 ∈ t.lastRowids p k ↔ rest.countP (p ∘ fun r => r.2) < k := by
          have hinc := t.increasing
          rw [hrows, List.pairwise_append, List.pairwise_cons] at hinc
          have hlater : r.1 ∉ ((rest.filter fun r => p r.2).map (·.1)).reverse := by
            rw [List.mem_reverse]
            intro hmem
            obtain ⟨s, hs, hsame⟩ := List.mem_map.mp hmem
            have hlt := hinc.2.1.1 s (List.mem_of_mem_filter hs)
            omega
          have hsplit : ((t.rows.filter fun r => p r.2).map (·.1)).reverse =
              ((rest.filter fun r => p r.2).map (·.1)).reverse ++
                r.1 :: ((front.filter fun r => p r.2).map (·.1)).reverse := by
            simp [hrows, List.filter_append, hp]
          rw [lastRowids, if_neg (by omega), hsplit, Int.toNat_natCast,
            mem_take_append_cons hlater, List.countP_eq_length_filter, List.length_reverse,
            List.length_map]
          rfl
        by_cases hlt : rest.countP (p ∘ fun r => r.2) < k
        · have hmem := hkept.mpr hlt
          have hle : ¬ k ≤ rest.countP (p ∘ fun r => r.2) := by omega
          simp [hp, hmem, hle, ← hrest]
        · have hmem := mt hkept.mp hlt
          have hle : k ≤ rest.countP (p ∘ fun r => r.2) := by omega
          simp [hp, hmem, hle, ← hrest]
      · simp [hp, ← hrest]
  exact hsuffix [] t.rows rfl

end RowTable

end ConquerD.Lib
