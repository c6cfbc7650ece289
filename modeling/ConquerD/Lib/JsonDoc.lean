import ConquerD.Lib.JsonNumber
import Mathlib.Data.List.Forall2
import Mathlib.Data.String.Basic

/-!
# JSON documents

A document is a value as its text has it: numbers are literals, and an object
lists its fields in the order of the text, a key perhaps more than once. Reading
it into a map keeps the last field of a key and sorts by key. What a document
means to such a reader is its normal form; a reader with a depth limit that
converts every number returns the normal form with the numbers converted.
-/

namespace ConquerD.Lib.JsonText

variable {ν μ : Type} {α β : Type}

abbrev Doc := Value Literal

/-- A reader of JSON texts: compact texts at least are read as what they are
the text of. -/
structure JsonSyntax where
  read : String → Option Doc
  read_print : ∀ d, read (String.ofList (print Subtype.val d)) = some d

/-! ## Induction and rebuilding -/

mutual
/-- Induction over a value, through the items of its arrays and objects. -/
theorem Value.induct {motive : Value ν → Prop} (null : motive .null)
    (bool : ∀ b, motive (.bool b)) (num : ∀ n, motive (.num n)) (str : ∀ s, motive (.str s))
    (arr : ∀ items, (∀ v ∈ items, motive v) → motive (.arr items))
    (obj : ∀ fields, (∀ f ∈ fields, motive f.2) → motive (.obj fields)) : ∀ v, motive v
  | .null => null
  | .bool b => bool b
  | .num n => num n
  | .str s => str s
  | .arr items => arr items (Value.inductItems null bool num str arr obj items)
  | .obj fields => obj fields (Value.inductFields null bool num str arr obj fields)

theorem Value.inductItems {motive : Value ν → Prop} (null : motive .null)
    (bool : ∀ b, motive (.bool b)) (num : ∀ n, motive (.num n)) (str : ∀ s, motive (.str s))
    (arr : ∀ items, (∀ v ∈ items, motive v) → motive (.arr items))
    (obj : ∀ fields, (∀ f ∈ fields, motive f.2) → motive (.obj fields)) :
    ∀ (items : List (Value ν)), ∀ v ∈ items, motive v
  | [], _, h => nomatch h
  | w :: items, v, h =>
    (List.mem_cons.mp h).elim (fun hv => hv ▸ Value.induct null bool num str arr obj w)
      (Value.inductItems null bool num str arr obj items v)

theorem Value.inductFields {motive : Value ν → Prop} (null : motive .null)
    (bool : ∀ b, motive (.bool b)) (num : ∀ n, motive (.num n)) (str : ∀ s, motive (.str s))
    (arr : ∀ items, (∀ v ∈ items, motive v) → motive (.arr items))
    (obj : ∀ fields, (∀ f ∈ fields, motive f.2) → motive (.obj fields)) :
    ∀ (fields : List (String × Value ν)), ∀ f ∈ fields, motive f.2
  | [], _, h => nomatch h
  | (_, w) :: fields, f, h =>
    (List.mem_cons.mp h).elim (fun hf => hf ▸ Value.induct null bool num str arr obj w)
      (Value.inductFields null bool num str arr obj fields f)
end

section Rebuild

variable (num : ν → Value μ) (obj : List (String × Value μ) → Value μ)

mutual
/-- The value rebuilt from its leaves, numbers and objects in a given way. -/
def Value.rebuild : Value ν → Value μ
  | .null => .null
  | .bool b => .bool b
  | .num n => num n
  | .str s => .str s
  | .arr items => .arr (Value.rebuildItems items)
  | .obj fields => obj (Value.rebuildFields fields)

def Value.rebuildItems : List (Value ν) → List (Value μ)
  | [] => []
  | v :: vs => Value.rebuild v :: Value.rebuildItems vs

def Value.rebuildFields : List (String × Value ν) → List (String × Value μ)
  | [] => []
  | (k, v) :: fs => (k, Value.rebuild v) :: Value.rebuildFields fs
end

end Rebuild

/-- The values of the fields changed, the keys kept. -/
def mapFields (f : α → β) (fields : List (String × α)) : List (String × β) :=
  fields.map fun e => (e.1, f e.2)

@[simp] theorem mapFields_nil (f : α → β) : mapFields f [] = [] := rfl

@[simp] theorem mapFields_cons (f : α → β) (e : String × α) (fields : List (String × α)) :
    mapFields f (e :: fields) = (e.1, f e.2) :: mapFields f fields := rfl

@[simp] theorem mapFields_mapFields {γ : Type} (g : β → γ) (f : α → β)
    (fields : List (String × α)) : mapFields g (mapFields f fields) = mapFields (g ∘ f) fields := by
  simp [mapFields, Function.comp_def]

theorem mapFields_congr {f g : α → β} {fields : List (String × α)}
    (h : ∀ e ∈ fields, f e.2 = g e.2) : mapFields f fields = mapFields g fields :=
  List.map_congr_left fun e he => by rw [h e he]

@[simp] theorem Value.rebuild_arr (num : ν → Value μ) (obj : List (String × Value μ) → Value μ)
    (items : List (Value ν)) :
    Value.rebuild num obj (.arr items) = .arr (items.map (Value.rebuild num obj)) := by
  have hitems : ∀ vs : List (Value ν),
      Value.rebuildItems num obj vs = vs.map (Value.rebuild num obj) := by
    intro vs
    induction vs with
    | nil => rfl
    | cons v vs ih => rw [Value.rebuildItems, ih, List.map_cons]
  rw [Value.rebuild, hitems]

@[simp] theorem Value.rebuild_obj (num : ν → Value μ) (obj : List (String × Value μ) → Value μ)
    (fields : List (String × Value ν)) :
    Value.rebuild num obj (.obj fields) = obj (mapFields (Value.rebuild num obj) fields) := by
  have hfields : ∀ fs : List (String × Value ν),
      Value.rebuildFields num obj fs = mapFields (Value.rebuild num obj) fs := by
    intro fs
    induction fs with
    | nil => rfl
    | cons f fs ih => rw [Value.rebuildFields, ih, mapFields_cons]
  rw [Value.rebuild, hfields]

/-- The value with its numbers changed. -/
def Value.map (f : ν → μ) : Value ν → Value μ :=
  Value.rebuild (fun n => .num (f n)) .obj

@[simp] theorem Value.map_null (f : ν → μ) : Value.map f .null = .null := rfl
@[simp] theorem Value.map_bool (f : ν → μ) (b : Bool) : Value.map f (.bool b) = .bool b := rfl
@[simp] theorem Value.map_num (f : ν → μ) (n : ν) : Value.map f (.num n) = .num (f n) := rfl
@[simp] theorem Value.map_str (f : ν → μ) (s : String) : Value.map f (.str s) = .str s := rfl

@[simp] theorem Value.map_arr (f : ν → μ) (items : List (Value ν)) :
    Value.map f (.arr items) = .arr (items.map (Value.map f)) :=
  Value.rebuild_arr _ _ _

@[simp] theorem Value.map_obj (f : ν → μ) (fields : List (String × Value ν)) :
    Value.map f (.obj fields) = .obj (mapFields (Value.map f) fields) :=
  Value.rebuild_obj _ _ _

/-! ## The text of a value with its numbers changed -/

theorem printMoreItems_congr {show₁ : ν → List Char} {show₂ : μ → List Char}
    {g : Value ν → Value μ} {vs : List (Value ν)}
    (h : ∀ v ∈ vs, print show₂ (g v) = print show₁ v) :
    printMoreItems show₂ (vs.map g) = printMoreItems show₁ vs := by
  induction vs with
  | nil => rfl
  | cons v vs ih =>
    rw [List.map_cons, printMoreItems, printMoreItems, h v List.mem_cons_self,
      ih fun w hw => h w (List.mem_cons_of_mem _ hw)]

theorem printMoreFields_congr {show₁ : ν → List Char} {show₂ : μ → List Char}
    {g : Value ν → Value μ} {fs : List (String × Value ν)}
    (h : ∀ f ∈ fs, print show₂ (g f.2) = print show₁ f.2) :
    printMoreFields show₂ (mapFields g fs) = printMoreFields show₁ fs := by
  induction fs with
  | nil => rfl
  | cons f fs ih =>
    rw [mapFields_cons, printMoreFields, printMoreFields, h f List.mem_cons_self,
      ih fun w hw => h w (List.mem_cons_of_mem _ hw)]

theorem print_map (f : ν → μ) (showNum : μ → List Char) (v : Value ν) :
    print showNum (v.map f) = print (fun n => showNum (f n)) v := by
  induction v using Value.induct with
  | null => rfl
  | bool b => cases b <;> rfl
  | num n => rfl
  | str s => rfl
  | arr items ih =>
    rw [Value.map_arr, print, print]
    cases items with
    | nil => rfl
    | cons v vs =>
      rw [List.map_cons, printItems, printItems, ih v List.mem_cons_self,
        printMoreItems_congr fun w hw => ih w (List.mem_cons_of_mem _ hw)]
  | obj fields ih =>
    rw [Value.map_obj, print, print]
    cases fields with
    | nil => rfl
    | cons f fs =>
      rw [mapFields_cons, printFields, printFields, ih f List.mem_cons_self,
        printMoreFields_congr fun w hw => ih w (List.mem_cons_of_mem _ hw)]

/-! ## Maps by key -/

/-- A field put into its place; it replaces the field of its key. -/
def insertField (key : String) (a : α) : List (String × α) → List (String × α)
  | [] => [(key, a)]
  | (k, b) :: fields =>
    if key < k then (key, a) :: (k, b) :: fields
    else if key = k then (key, a) :: fields
    else (k, b) :: insertField key a fields

/-- The map a list of fields makes: by key, the last field of each. -/
def sortFields (fields : List (String × α)) : List (String × α) :=
  fields.foldl (fun m e => insertField e.1 e.2 m) []

/-- The keys increase. -/
def SortedKeys (fields : List (String × α)) : Prop :=
  (fields.map Prod.fst).Pairwise (· < ·)

theorem mapFields_insertField (f : α → β) (key : String) (a : α) (fields : List (String × α)) :
    mapFields f (insertField key a fields) = insertField key (f a) (mapFields f fields) := by
  induction fields with
  | nil => rfl
  | cons e fields ih =>
    obtain ⟨k, b⟩ := e
    simp only [insertField, mapFields_cons]
    split
    · rfl
    · split
      · rfl
      · rw [mapFields_cons, ih]

theorem mapFields_sortFields (f : α → β) (fields : List (String × α)) :
    mapFields f (sortFields fields) = sortFields (mapFields f fields) := by
  have hfold : ∀ m : List (String × α),
      mapFields f (fields.foldl (fun m e => insertField e.1 e.2 m) m) =
        (mapFields f fields).foldl (fun m e => insertField e.1 e.2 m) (mapFields f m) := by
    induction fields with
    | nil => exact fun _ => rfl
    | cons e fields ih =>
      intro m
      rw [List.foldl_cons, ih, mapFields_insertField, mapFields_cons, List.foldl_cons]
  exact hfold []

theorem mem_insertField {key : String} {a : α} {fields : List (String × α)} {e : String × α}
    (h : e ∈ insertField key a fields) : e = (key, a) ∨ e ∈ fields := by
  induction fields with
  | nil => exact .inl (List.mem_singleton.mp h)
  | cons f fields ih =>
    obtain ⟨k, b⟩ := f
    rw [insertField] at h
    split at h
    · exact List.mem_cons.mp h
    · split at h
      · rcases List.mem_cons.mp h with rfl | h
        · exact .inl rfl
        · exact .inr (List.mem_cons_of_mem _ h)
      · rcases List.mem_cons.mp h with rfl | h
        · exact .inr List.mem_cons_self
        · exact (ih h).imp_right (List.mem_cons_of_mem _)

theorem mem_of_mem_sortFields {fields : List (String × α)} {e : String × α}
    (h : e ∈ sortFields fields) : e ∈ fields := by
  have hfold : ∀ m : List (String × α),
      e ∈ fields.foldl (fun m e => insertField e.1 e.2 m) m → e ∈ m ∨ e ∈ fields := by
    clear h
    induction fields with
    | nil => exact fun _ h => .inl h
    | cons f fields ih =>
      intro m h
      rw [List.foldl_cons] at h
      rcases ih _ h with h | h
      · rcases mem_insertField h with rfl | h
        · exact .inr List.mem_cons_self
        · exact .inl h
      · exact .inr (List.mem_cons_of_mem _ h)
  exact (hfold [] h).resolve_left (nofun)

theorem SortedKeys.insertField {fields : List (String × α)} (h : SortedKeys fields) (key : String)
    (a : α) : SortedKeys (insertField key a fields) := by
  induction fields with
  | nil => exact List.pairwise_singleton _ _
  | cons e fields ih =>
    obtain ⟨k, b⟩ := e
    have htail : SortedKeys fields := (List.pairwise_cons.mp h).2
    have hhead : ∀ k' ∈ fields.map Prod.fst, k < k' := (List.pairwise_cons.mp h).1
    rw [JsonText.insertField]
    split
    · next hlt =>
      refine List.pairwise_cons.mpr ⟨?_, h⟩
      intro k' hk'
      rcases List.mem_cons.mp hk' with rfl | hk'
      · exact hlt
      · exact lt_trans hlt (hhead k' hk')
    · next hnlt =>
      split
      · next heq => rw [heq]; exact h
      · next hne =>
        have hgt : k < key := lt_of_le_of_ne (not_lt.mp hnlt) (Ne.symm hne)
        refine List.pairwise_cons.mpr ⟨?_, ih htail⟩
        intro k' hk'
        obtain ⟨e, he, rfl⟩ := List.mem_map.mp hk'
        rcases mem_insertField he with rfl | he
        · exact hgt
        · exact hhead _ (List.mem_map_of_mem he)

theorem sortedKeys_sortFields (fields : List (String × α)) : SortedKeys (sortFields fields) := by
  have hfold : ∀ m : List (String × α), SortedKeys m →
      SortedKeys (fields.foldl (fun m e => insertField e.1 e.2 m) m) := by
    induction fields with
    | nil => exact fun _ h => h
    | cons e fields ih => exact fun m hm => ih _ (hm.insertField _ _)
  exact hfold [] List.Pairwise.nil

theorem insertField_of_lt {key : String} {a : α} {fields : List (String × α)}
    (h : ∀ e ∈ fields, e.1 < key) : insertField key a fields = fields ++ [(key, a)] := by
  induction fields with
  | nil => rfl
  | cons e fields ih =>
    obtain ⟨k, b⟩ := e
    have hk : k < key := h (k, b) List.mem_cons_self
    rw [insertField, if_neg (not_lt.mpr hk.le), if_neg (ne_of_gt hk),
      ih fun e he => h e (List.mem_cons_of_mem _ he), List.cons_append]

theorem sortFields_of_sorted {fields : List (String × α)} (h : SortedKeys fields) :
    sortFields fields = fields := by
  have hfold : ∀ m : List (String × α), SortedKeys (m ++ fields) →
      fields.foldl (fun m e => insertField e.1 e.2 m) m = m ++ fields := by
    clear h
    induction fields with
    | nil => exact fun m _ => (List.append_nil m).symm
    | cons e fields ih =>
      intro m h
      have hlt : ∀ e' ∈ m, e'.1 < e.1 := by
        intro e' he'
        rw [SortedKeys, List.map_append] at h
        exact (List.pairwise_append.mp h).2.2 _ (List.mem_map_of_mem he') _
          (List.mem_map_of_mem List.mem_cons_self)
      rw [List.foldl_cons, insertField_of_lt hlt, ih (m ++ [e]) (by simpa using h),
        List.append_assoc, List.singleton_append]
  exact hfold [] h

theorem lookup_cons_ite (k : String) (e : String × α) (fields : List (String × α)) :
    (e :: fields).lookup k = if k = e.1 then some e.2 else fields.lookup k := by
  rw [List.lookup_cons]
  by_cases hk : k = e.1
  · rw [if_pos hk, beq_iff_eq.mpr hk]
  · rw [if_neg hk, beq_eq_false_iff_ne.mpr hk]

theorem lookup_insertField (key : String) (a : α) (fields : List (String × α)) (k : String) :
    (insertField key a fields).lookup k = if k = key then some a else fields.lookup k := by
  induction fields with
  | nil => rw [insertField, lookup_cons_ite]
  | cons e fields ih =>
    obtain ⟨k', b⟩ := e
    rw [insertField]
    split
    · rw [lookup_cons_ite]
    · split
      · next heq =>
        rw [lookup_cons_ite, lookup_cons_ite, heq]
        split <;> rfl
      · next hne =>
        rw [lookup_cons_ite, lookup_cons_ite, ih]
        by_cases hk : k = k'
        · rw [if_pos hk, if_pos hk, if_neg fun h => hne (h.symm.trans hk)]
        · rw [if_neg hk, if_neg hk]

theorem lookup_sortFields (fields : List (String × α)) (k : String) :
    (sortFields fields).lookup k = fields.reverse.lookup k := by
  have hfold : ∀ m : List (String × α),
      (fields.foldl (fun m e => insertField e.1 e.2 m) m).lookup k =
        (fields.reverse.lookup k).or (m.lookup k) := by
    induction fields with
    | nil => exact fun _ => rfl
    | cons e fields ih =>
      intro m
      rw [List.foldl_cons, ih, lookup_insertField, List.reverse_cons, List.lookup_append,
        Option.or_assoc]
      congr 1
      rw [lookup_cons_ite, List.lookup_nil]
      split <;> rfl
  rw [sortFields, hfold, List.lookup_nil, Option.or_none]

end ConquerD.Lib.JsonText
