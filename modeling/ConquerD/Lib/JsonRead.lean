import ConquerD.Lib.JsonDoc

/-!
# Reading documents into values

Two readers of a document, both with a limit on how deep it may nest. One
converts every number. The other keeps the literals as they are; it takes an
object for a number when its first key is one reserved for that, and wants the
text of a number under it. Either returns the normal form of the document, with
its numbers changed.
-/

namespace ConquerD.Lib.JsonText

variable {ν μ : Type} {α β γ : Type}

/-! ## Conditions on a value -/

/-- Every number and the fields of every object are of a kind. -/
inductive Value.Every (num : ν → Prop) (fields : List (String × Value ν) → Prop) : Value ν → Prop
  | null : Every num fields .null
  | bool b : Every num fields (.bool b)
  | num {n} : num n → Every num fields (.num n)
  | str s : Every num fields (.str s)
  | arr {items} : (∀ v ∈ items, Every num fields v) → Every num fields (.arr items)
  | obj {fs} : fields fs → (∀ e ∈ fs, Every num fields e.2) → Every num fields (.obj fs)

/-- Every object is a map by key. -/
abbrev Value.Sorted : Value ν → Prop :=
  Value.Every (fun _ => True) SortedKeys

namespace Value

theorem Every.mono {p p' : ν → Prop} {q q' : List (String × Value ν) → Prop} {v : Value ν}
    (h : v.Every p q) (hnum : ∀ n, p n → p' n) (hobj : ∀ fs, q fs → q' fs) : v.Every p' q' := by
  induction h with
  | null => exact .null
  | bool b => exact .bool b
  | num hn => exact .num (hnum _ hn)
  | str s => exact .str s
  | arr _ ih => exact .arr ih
  | obj hfs _ ih => exact .obj (hobj _ hfs) ih

theorem Every.and {p p' : ν → Prop} {q q' : List (String × Value ν) → Prop} {v : Value ν}
    (h : v.Every p q) (h' : v.Every p' q') :
    v.Every (fun n => p n ∧ p' n) fun fs => q fs ∧ q' fs := by
  induction h with
  | null => exact .null
  | bool b => exact .bool b
  | num hn => cases h' with | num hn' => exact .num ⟨hn, hn'⟩
  | str s => exact .str s
  | arr _ ih => cases h' with | arr h' => exact .arr fun v hv => ih v hv (h' v hv)
  | obj hfs _ ih =>
    cases h' with
    | obj hfs' h' => exact .obj ⟨hfs, hfs'⟩ fun e he => ih e he (h' e he)

/-- Changing the numbers changes no condition that reads the keys alone. -/
theorem every_map_iff {g : ν → μ} {p : μ → Prop} {q : List (String × Value ν) → Prop}
    {q' : List (String × Value μ) → Prop} (hq : ∀ fs, q' (mapFields (Value.map g) fs) ↔ q fs)
    (v : Value ν) : (v.map g).Every p q' ↔ v.Every (fun n => p (g n)) q := by
  induction v using Value.induct with
  | null => exact iff_of_true .null .null
  | bool b => exact iff_of_true (.bool b) (.bool b)
  | str s => exact iff_of_true (.str s) (.str s)
  | num n =>
    constructor
    · rintro (_ | _ | hn | _ | _ | _)
      exact .num hn
    · rintro (_ | _ | hn | _ | _ | _)
      exact .num hn
  | arr items ih =>
    rw [Value.map_arr]
    constructor
    · rintro (_ | _ | _ | _ | h | _)
      exact .arr fun v hv => (ih v hv).mp (h _ (List.mem_map_of_mem hv))
    · rintro (_ | _ | _ | _ | h | _)
      refine .arr fun w hw => ?_
      obtain ⟨v, hv, rfl⟩ := List.mem_map.mp hw
      exact (ih v hv).mpr (h v hv)
  | obj fields ih =>
    rw [Value.map_obj]
    constructor
    · rintro (_ | _ | _ | _ | _ | ⟨hfs, h⟩)
      exact .obj ((hq fields).mp hfs) fun e he => (ih e he).mp (h _ (List.mem_map_of_mem he))
    · rintro (_ | _ | _ | _ | _ | ⟨hfs, h⟩)
      refine .obj ((hq fields).mpr hfs) fun w hw => ?_
      obtain ⟨e, he, rfl⟩ := List.mem_map.mp hw
      exact (ih e he).mpr (h e he)

theorem every_of_map_eq {f h : ν → μ} {v : Value ν} (heq : v.map f = v.map h) :
    v.Every (fun n => f n = h n) fun _ => True := by
  induction v using Value.induct with
  | null => exact .null
  | bool b => exact .bool b
  | str s => exact .str s
  | num n => exact .num (Value.num.inj heq)
  | arr items ih =>
    rw [Value.map_arr, Value.map_arr, Value.arr.injEq] at heq
    exact .arr fun v hv => ih v hv (List.map_inj_left.mp heq v hv)
  | obj fields ih =>
    rw [Value.map_obj, Value.map_obj, Value.obj.injEq] at heq
    exact .obj trivial fun e he =>
      ih e he (congrArg Prod.snd (List.map_inj_left.mp heq e he))

theorem map_map {ξ : Type} (g : μ → ξ) (f : ν → μ) (v : Value ν) :
    (v.map f).map g = v.map (g ∘ f) := by
  induction v using Value.induct with
  | arr items ih =>
    rw [map_arr, map_arr, map_arr, List.map_map]
    exact congrArg _ (List.map_congr_left ih)
  | obj fields ih =>
    rw [map_obj, map_obj, map_obj, mapFields_mapFields]
    exact congrArg _ (mapFields_congr ih)
  | _ => rfl

end Value

theorem sortedKeys_mapFields_iff (f : α → β) (fields : List (String × α)) :
    SortedKeys (mapFields f fields) ↔ SortedKeys fields := by
  have hkeys : (mapFields f fields).map Prod.fst = fields.map Prod.fst := by
    simp [mapFields, Function.comp_def]
  rw [SortedKeys, hkeys]
  rfl

theorem Value.Sorted.map {v : Value ν} (h : v.Sorted) (g : ν → μ) : (v.map g).Sorted :=
  (Value.every_map_iff (sortedKeys_mapFields_iff _) v).mpr (h.mono (fun _ h => h) fun _ h => h)

/-- Arrays and objects nest no deeper than a bound. -/
inductive Value.Fits : Nat → Value ν → Prop
  | null r : Fits r .null
  | bool r b : Fits r (.bool b)
  | num r n : Fits r (.num n)
  | str r s : Fits r (.str s)
  | arr {r items} : (∀ v ∈ items, Fits r v) → Fits (r + 1) (.arr items)
  | obj {r fs} : (∀ e ∈ fs, Fits r e.2) → Fits (r + 1) (.obj fs)

theorem Value.Fits.map {r : Nat} {v : Value ν} (h : v.Fits r) (g : ν → μ) : (v.map g).Fits r := by
  induction h with
  | null r => exact .null r
  | bool r b => exact .bool r b
  | num r n => exact .num r _
  | str r s => exact .str r s
  | arr _ ih =>
    rw [Value.map_arr]
    refine .arr fun w hw => ?_
    obtain ⟨v, hv, rfl⟩ := List.mem_map.mp hw
    exact ih v hv
  | obj _ ih =>
    rw [Value.map_obj]
    refine .obj fun w hw => ?_
    obtain ⟨e, he, rfl⟩ := List.mem_map.mp hw
    exact ih e he

/-- The value with every object made a map. -/
def Value.dedup : Value ν → Value ν :=
  Value.rebuild .num fun fs => .obj (sortFields fs)

@[simp] theorem Value.dedup_arr (items : List (Value ν)) :
    Value.dedup (.arr items) = .arr (items.map Value.dedup) :=
  Value.rebuild_arr _ _ _

@[simp] theorem Value.dedup_obj (fields : List (String × Value ν)) :
    Value.dedup (.obj fields) = .obj (sortFields (mapFields Value.dedup fields)) :=
  Value.rebuild_obj _ _ _

theorem mapFields_id (fields : List (String × α)) : mapFields id fields = fields := by
  simp [mapFields]

theorem Value.map_id (v : Value ν) : v.map id = v := by
  induction v using Value.induct with
  | arr items ih =>
    rw [Value.map_arr]
    exact congrArg _ ((List.map_congr_left ih).trans (List.map_id _))
  | obj fields ih =>
    rw [Value.map_obj]
    exact congrArg _ ((mapFields_congr ih).trans (mapFields_id _))
  | _ => rfl

theorem Value.Sorted.dedup_eq {v : Value ν} (h : v.Sorted) : v.dedup = v := by
  induction v using Value.induct with
  | arr items ih =>
    cases h with
    | arr hitems =>
      rw [Value.dedup_arr]
      exact congrArg _ ((List.map_congr_left fun v hv => ih v hv (hitems v hv)).trans (List.map_id _))
  | obj fields ih =>
    cases h with
    | obj hsorted hfields =>
      have hmap : mapFields Value.dedup fields = fields :=
        (mapFields_congr fun e he => ih e he (hfields e he)).trans (mapFields_id _)
      rw [Value.dedup_obj, hmap, sortFields_of_sorted hsorted]
  | _ => rfl

/-! ## Lists that are read item by item -/

theorem mapM_eq_some_iff {g : α → Option β} {l : List α} {ws : List β} :
    l.mapM g = some ws ↔ l.map g = ws.map some := by
  induction l generalizing ws with
  | nil => cases ws <;> simp
  | cons a l ih =>
    rw [List.mapM_cons]
    cases hg : g a with
    | none => cases ws <;> simp [hg]
    | some b =>
      cases ws with
      | nil => cases hl : l.mapM g <;> simp
      | cons w ws =>
        rw [List.map_cons, List.map_cons, List.cons.injEq, hg, ← ih]
        cases hl : l.mapM g <;> simp

theorem map_eq_map_of_read {g : α → Option β} {h : α → γ} {k : β → γ} {l : List α} {ws : List β}
    (hread : l.map g = ws.map some) (hstep : ∀ a ∈ l, ∀ b, g a = some b → h a = k b) :
    l.map h = ws.map k := by
  induction l generalizing ws with
  | nil => cases ws <;> simp at hread ⊢
  | cons a l ih =>
    cases ws with
    | nil => simp at hread
    | cons w ws =>
      rw [List.map_cons, List.map_cons, List.cons.injEq] at hread ⊢
      exact ⟨hstep a List.mem_cons_self w hread.1,
        ih hread.2 fun a ha => hstep a (List.mem_cons_of_mem _ ha)⟩

theorem exists_of_mem_read {g : α → Option β} {l : List α} {ws : List β} {b : β}
    (hread : l.map g = ws.map some) (hb : b ∈ ws) : ∃ a ∈ l, g a = some b := by
  have hmem : some b ∈ l.map g := hread ▸ List.mem_map_of_mem hb
  obtain ⟨a, ha, hg⟩ := List.mem_map.mp hmem
  exact ⟨a, ha, hg⟩

theorem map_eq_map_iff_of_map_eq {δ : Type} {p : α → Prop} {f : α → γ} {k : β → γ} {g : α → δ}
    {h : β → δ} {l : List α} {ws : List β} (hmap : l.map f = ws.map k)
    (hstep : ∀ a ∈ l, ∀ b, f a = k b → (h b = g a ↔ p a)) :
    ws.map h = l.map g ↔ ∀ a ∈ l, p a := by
  induction l generalizing ws with
  | nil => cases ws <;> simp at hmap ⊢
  | cons a l ih =>
    cases ws with
    | nil => simp at hmap
    | cons w ws =>
      rw [List.map_cons, List.map_cons, List.cons.injEq] at hmap ⊢
      rw [hstep a List.mem_cons_self w hmap.1,
        ih hmap.2 fun a ha => hstep a (List.mem_cons_of_mem _ ha), List.forall_mem_cons]

/-- The values of all fields read, or none. -/
def readFields (g : α → Option β) (fields : List (String × α)) : Option (List (String × β)) :=
  fields.mapM fun e => (g e.2).map fun b => (e.1, b)

theorem readFields_eq_some_iff {g : α → Option β} {fields : List (String × α)}
    {ws : List (String × β)} :
    readFields g fields = some ws ↔ mapFields g fields = mapFields some ws := by
  rw [readFields, mapM_eq_some_iff]
  induction fields generalizing ws with
  | nil => cases ws <;> simp
  | cons e fields ih =>
    cases ws with
    | nil => simp
    | cons w ws =>
      rw [List.map_cons, List.map_cons, List.cons.injEq, ih, mapFields_cons, mapFields_cons,
        List.cons.injEq]
      refine and_congr_left fun _ => ?_
      cases hg : g e.2 <;> simp [Prod.ext_iff]

theorem mapFields_eq_of_read {g : α → Option β} {h : α → γ} {k : β → γ}
    {fields : List (String × α)} {ws : List (String × β)}
    (hread : mapFields g fields = mapFields some ws)
    (hstep : ∀ e ∈ fields, ∀ b, g e.2 = some b → h e.2 = k b) :
    mapFields h fields = mapFields k ws := by
  induction fields generalizing ws with
  | nil => cases ws <;> simp at hread ⊢
  | cons e fields ih =>
    cases ws with
    | nil => simp at hread
    | cons w ws =>
      rw [mapFields_cons, mapFields_cons, List.cons.injEq, Prod.mk.injEq] at hread ⊢
      exact ⟨⟨hread.1.1, hstep e List.mem_cons_self w.2 hread.1.2⟩,
        ih hread.2 fun e he => hstep e (List.mem_cons_of_mem _ he)⟩

theorem mapFields_eq_iff_of_mapFields_eq {δ : Type} {p : α → Prop} {f : α → γ} {k : β → γ}
    {g : α → δ} {h : β → δ} {fields : List (String × α)} {ws : List (String × β)}
    (hmap : mapFields f fields = mapFields k ws)
    (hstep : ∀ e ∈ fields, ∀ b, f e.2 = k b → (h b = g e.2 ↔ p e.2)) :
    mapFields h ws = mapFields g fields ↔ ∀ e ∈ fields, p e.2 := by
  refine map_eq_map_iff_of_map_eq (p := fun e => p e.2) hmap fun e he w hw => ?_
  have hkey : e.1 = w.1 := congrArg Prod.fst hw
  rw [Prod.mk.injEq, and_iff_right hkey.symm]
  exact hstep e he w.2 (congrArg Prod.snd hw)

theorem exists_of_mem_readFields {g : α → Option β} {fields : List (String × α)}
    {ws : List (String × β)} {w : String × β} (hread : mapFields g fields = mapFields some ws)
    (hw : w ∈ ws) : ∃ e ∈ fields, e.1 = w.1 ∧ g e.2 = some w.2 := by
  have hmem : (w.1, some w.2) ∈ mapFields g fields := hread ▸ List.mem_map_of_mem hw
  obtain ⟨e, he, heq⟩ := List.mem_map.mp hmem
  exact ⟨e, he, congrArg Prod.fst heq, congrArg Prod.snd heq⟩

theorem reverse_mapFields (f : α → β) (fields : List (String × α)) :
    (mapFields f fields).reverse = mapFields f fields.reverse :=
  List.map_reverse.symm

theorem lookup_mapFields (f : α → β) (fields : List (String × α)) (k : String) :
    (mapFields f fields).lookup k = (fields.lookup k).map f := by
  induction fields with
  | nil => rfl
  | cons e fields ih =>
    rw [mapFields_cons, lookup_cons_ite, lookup_cons_ite, ih]
    split <;> rfl

/-! ## The converting reader -/

section ReadValue

variable (f : ν → Option μ)

/-- The value a document is read as, nested no deeper than a bound. -/
def readValue : Nat → Value ν → Option (Value μ)
  | _, .null => some .null
  | _, .bool b => some (.bool b)
  | _, .num n => (f n).map .num
  | _, .str s => some (.str s)
  | 0, .arr _ => none
  | r + 1, .arr items => (items.mapM (readValue r)).map .arr
  | 0, .obj _ => none
  | r + 1, .obj fields => (readFields (readValue r) fields).map fun ws => .obj (sortFields ws)

@[simp] theorem readValue_null (r : Nat) : readValue f r .null = some .null := by cases r <;> rfl

@[simp] theorem readValue_bool (r : Nat) (b : Bool) : readValue f r (.bool b) = some (.bool b) := by
  cases r <;> rfl

@[simp] theorem readValue_num (r : Nat) (n : ν) : readValue f r (.num n) = (f n).map .num := by
  cases r <;> rfl

@[simp] theorem readValue_str (r : Nat) (s : String) : readValue f r (.str s) = some (.str s) := by
  cases r <;> rfl

variable {f}

theorem readValue_arr {r : Nat} {items : List (Value ν)} {v : Value μ}
    (h : readValue f r (.arr items) = some v) :
    ∃ r' ws, r = r' + 1 ∧ items.map (readValue f r') = ws.map some ∧ v = .arr ws := by
  cases r with
  | zero => cases h
  | succ r =>
    obtain ⟨ws, hws, rfl⟩ := Option.map_eq_some_iff.mp h
    exact ⟨r, ws, rfl, mapM_eq_some_iff.mp hws, rfl⟩

theorem readValue_obj {r : Nat} {fields : List (String × Value ν)} {v : Value μ}
    (h : readValue f r (.obj fields) = some v) :
    ∃ r' ws, r = r' + 1 ∧ mapFields (readValue f r') fields = mapFields some ws ∧
      v = .obj (sortFields ws) := by
  cases r with
  | zero => cases h
  | succ r =>
    obtain ⟨ws, hws, rfl⟩ := Option.map_eq_some_iff.mp h
    exact ⟨r, ws, rfl, readFields_eq_some_iff.mp hws, rfl⟩

theorem map_dedup_of_readValue {r : Nat} {d : Value ν} {v : Value μ}
    (h : readValue f r d = some v) : d.dedup.map f = v.map some := by
  induction d using Value.induct generalizing r v with
  | null => rw [readValue_null] at h; cases h; rfl
  | bool b => rw [readValue_bool] at h; cases h; rfl
  | str s => rw [readValue_str] at h; cases h; rfl
  | num n =>
    rw [readValue_num] at h
    obtain ⟨m, hm, rfl⟩ := Option.map_eq_some_iff.mp h
    exact congrArg Value.num hm
  | arr items ih =>
    obtain ⟨r, ws, rfl, hread, rfl⟩ := readValue_arr h
    rw [Value.dedup_arr, Value.map_arr, Value.map_arr, List.map_map]
    exact congrArg _ (map_eq_map_of_read hread fun d hd w hw => ih d hd hw)
  | obj fields ih =>
    obtain ⟨r, ws, rfl, hread, rfl⟩ := readValue_obj h
    rw [Value.dedup_obj, Value.map_obj, Value.map_obj, mapFields_sortFields, mapFields_sortFields,
      mapFields_mapFields]
    exact congrArg (fun fs => Value.obj (sortFields fs))
      (mapFields_eq_of_read hread fun e he w hw => ih e he hw)

/-- A property of values and the depth they may have, built up as values are read. -/
structure BuiltUp (p : Nat → Value μ → Prop) : Prop where
  null : ∀ r, p r .null
  bool : ∀ r b, p r (.bool b)
  num : ∀ r n, p r (.num n)
  str : ∀ r s, p r (.str s)
  arr : ∀ {r items}, (∀ v ∈ items, p r v) → p (r + 1) (.arr items)
  obj : ∀ {r fields}, SortedKeys fields → (∀ e ∈ fields, p r e.2) → p (r + 1) (.obj fields)

theorem builtUp_sorted : BuiltUp fun _ (v : Value μ) => v.Sorted where
  null _ := .null
  bool _ b := .bool b
  num _ _ := .num trivial
  str _ s := .str s
  arr h := .arr h
  obj hsorted h := .obj hsorted h

theorem builtUp_fits : BuiltUp fun r (v : Value μ) => v.Fits r where
  null r := .null r
  bool r b := .bool r b
  num r n := .num r n
  str r s := .str r s
  arr h := .arr h
  obj _ h := .obj h

theorem BuiltUp.of_readValue {p : Nat → Value μ → Prop} (hp : BuiltUp p) {r : Nat} {d : Value ν}
    {v : Value μ} (h : readValue f r d = some v) : p r v := by
  induction d using Value.induct generalizing r v with
  | null => rw [readValue_null] at h; cases h; exact hp.null r
  | bool b => rw [readValue_bool] at h; cases h; exact hp.bool r b
  | str s => rw [readValue_str] at h; cases h; exact hp.str r s
  | num n =>
    rw [readValue_num] at h
    obtain ⟨m, -, rfl⟩ := Option.map_eq_some_iff.mp h
    exact hp.num r m
  | arr items ih =>
    obtain ⟨r, ws, rfl, hread, rfl⟩ := readValue_arr h
    refine hp.arr fun w hw => ?_
    obtain ⟨d, hd, hdw⟩ := exists_of_mem_read hread hw
    exact ih d hd hdw
  | obj fields ih =>
    obtain ⟨r, ws, rfl, hread, rfl⟩ := readValue_obj h
    refine hp.obj (sortedKeys_sortFields ws) fun w hw => ?_
    obtain ⟨e, he, -, hew⟩ := exists_of_mem_readFields hread (mem_of_mem_sortFields hw)
    exact ih e he hew

theorem sorted_of_readValue {r : Nat} {d : Value ν} {v : Value μ}
    (h : readValue f r d = some v) : v.Sorted :=
  builtUp_sorted.of_readValue h

theorem fits_of_readValue {r : Nat} {d : Value ν} {v : Value μ}
    (h : readValue f r d = some v) : v.Fits r :=
  builtUp_fits.of_readValue h

theorem exists_readValue {g : μ → ν} {r : Nat} {d : Value ν} (hfits : d.Fits r)
    (h : d.Every (fun n => ∃ m, f n = some m ∧ g m = n) SortedKeys) :
    ∃ v, readValue f r d = some v ∧ v.map g = d := by
  induction d using Value.induct generalizing r with
  | null => exact ⟨.null, readValue_null f r, rfl⟩
  | bool b => exact ⟨.bool b, readValue_bool f r b, rfl⟩
  | str s => exact ⟨.str s, readValue_str f r s, rfl⟩
  | num n =>
    cases h with
    | num hn =>
      obtain ⟨m, hm, hg⟩ := hn
      exact ⟨.num m, by rw [readValue_num, hm]; rfl, by rw [Value.map_num, hg]⟩
  | arr items ih =>
    cases hfits with
    | @arr r _ hfits =>
      cases h with
      | arr h =>
        choose! w hw using fun d hd => ih d hd (hfits d hd) (h d hd)
        refine ⟨.arr (items.map w), ?_, ?_⟩
        · have hread : items.mapM (readValue f r) = some (items.map w) := by
            rw [mapM_eq_some_iff, List.map_map]
            exact List.map_congr_left fun d hd => (hw d hd).1
          rw [readValue, hread]
          rfl
        · rw [Value.map_arr, List.map_map]
          exact congrArg _ ((List.map_congr_left fun d hd => (hw d hd).2).trans (List.map_id _))
  | obj fields ih =>
    cases hfits with
    | @obj r _ hfits =>
      cases h with
      | obj hsorted h =>
        have hex : ∀ d : Value ν, (∃ e ∈ fields, e.2 = d) →
            ∃ v, readValue f r d = some v ∧ v.map g = d := by
          rintro d ⟨e, he, rfl⟩
          exact ih e he (hfits e he) (h e he)
        choose! w hw using hex
        have hsort : sortFields (mapFields w fields) = mapFields w fields :=
          sortFields_of_sorted ((sortedKeys_mapFields_iff w fields).mpr hsorted)
        refine ⟨.obj (mapFields w fields), ?_, ?_⟩
        · have hread : readFields (readValue f r) fields = some (mapFields w fields) := by
            rw [readFields_eq_some_iff, mapFields_mapFields]
            exact mapFields_congr fun e he => (hw e.2 ⟨e, he, rfl⟩).1
          rw [readValue, hread, Option.map_some, hsort]
        · rw [Value.map_obj, mapFields_mapFields]
          exact congrArg _ ((mapFields_congr fun e he => (hw e.2 ⟨e, he, rfl⟩).2).trans
            (mapFields_id _))

end ReadValue

/-! ## The reader that keeps literals -/

/-- A text as a literal, when it is the text of one. -/
def JsonSyntax.literal? (J : JsonSyntax) (s : String) : Option Literal :=
  match J.read s with
  | some (.num l) => if String.ofList l.val = s then some l else none
  | _ => none

section ReadRaw

variable (J : JsonSyntax) (numberKey : String)

/-- The number an object is taken for. -/
def numberObject? : List (String × Doc) → Option Literal
  | [(k, .str s)] => if k = numberKey then J.literal? s else none
  | _ => none

/-- The first key is the one that stands for a number. -/
def NumberFirst (fields : List (String × α)) : Prop :=
  fields.head?.map Prod.fst = some numberKey

theorem numberFirst_mapFields_iff (f : α → β) (fields : List (String × α)) :
    NumberFirst numberKey (mapFields f fields) ↔ NumberFirst numberKey fields := by
  cases fields <;> exact Iff.rfl

instance (fields : List (String × α)) : Decidable (NumberFirst numberKey fields) :=
  inferInstanceAs (Decidable (_ = _))

/-- The document a document is read as, nested no deeper than a bound. -/
def readRaw : Nat → Doc → Option Doc
  | _, .null => some .null
  | _, .bool b => some (.bool b)
  | _, .num l => some (.num l)
  | _, .str s => some (.str s)
  | 0, .arr _ => none
  | r + 1, .arr items => (items.mapM (readRaw r)).map .arr
  | 0, .obj _ => none
  | r + 1, .obj fields =>
    if NumberFirst numberKey fields then (numberObject? J numberKey fields).map .num
    else (readFields (readRaw r) fields).map fun ws => .obj (sortFields ws)

/-- An object, or the number it is taken for. -/
def collapseFields (fields : List (String × Doc)) : Doc :=
  ((numberObject? J numberKey fields).map Value.num).getD (.obj fields)

/-- The document with the numbers in place of the objects that stand for them. -/
def collapse : Doc → Doc :=
  Value.rebuild .num (collapseFields J numberKey)

@[simp] theorem collapse_arr (items : List Doc) :
    collapse J numberKey (.arr items) = .arr (items.map (collapse J numberKey)) :=
  Value.rebuild_arr _ _ _

@[simp] theorem collapse_obj (fields : List (String × Doc)) :
    collapse J numberKey (.obj fields) =
      collapseFields J numberKey (mapFields (collapse J numberKey) fields) :=
  Value.rebuild_obj _ _ _

@[simp] theorem readRaw_null (r : Nat) : readRaw J numberKey r .null = some .null := by
  cases r <;> rfl

@[simp] theorem readRaw_bool (r : Nat) (b : Bool) :
    readRaw J numberKey r (.bool b) = some (.bool b) := by
  cases r <;> rfl

@[simp] theorem readRaw_num (r : Nat) (l : Literal) :
    readRaw J numberKey r (.num l) = some (.num l) := by
  cases r <;> rfl

@[simp] theorem readRaw_str (r : Nat) (s : String) :
    readRaw J numberKey r (.str s) = some (.str s) := by
  cases r <;> rfl

variable {J numberKey}

theorem numberObject?_eq_some {fields : List (String × Doc)} {l : Literal}
    (h : numberObject? J numberKey fields = some l) :
    ∃ s, fields = [(numberKey, .str s)] ∧ J.literal? s = some l := by
  unfold numberObject? at h
  split at h
  · next k s =>
    split at h
    · next hk => exact ⟨s, by rw [hk], h⟩
    · cases h
  · cases h

theorem readRaw_arr {r : Nat} {items : List Doc} {w : Doc}
    (h : readRaw J numberKey r (.arr items) = some w) :
    ∃ r' ws, r = r' + 1 ∧ items.map (readRaw J numberKey r') = ws.map some ∧ w = .arr ws := by
  cases r with
  | zero => cases h
  | succ r =>
    obtain ⟨ws, hws, rfl⟩ := Option.map_eq_some_iff.mp h
    exact ⟨r, ws, rfl, mapM_eq_some_iff.mp hws, rfl⟩

theorem readRaw_obj {r : Nat} {fields : List (String × Doc)} {w : Doc}
    (h : readRaw J numberKey r (.obj fields) = some w) :
    (∃ l, NumberFirst numberKey fields ∧ numberObject? J numberKey fields = some l ∧ w = .num l) ∨
      ∃ r' ws, ¬NumberFirst numberKey fields ∧ r = r' + 1 ∧
        mapFields (readRaw J numberKey r') fields = mapFields some ws ∧ w = .obj (sortFields ws) := by
  cases r with
  | zero => cases h
  | succ r =>
    rw [readRaw] at h
    split at h
    · next hfirst =>
      obtain ⟨l, hl, rfl⟩ := Option.map_eq_some_iff.mp h
      exact .inl ⟨l, hfirst, hl, rfl⟩
    · next hfirst =>
      obtain ⟨ws, hws, rfl⟩ := Option.map_eq_some_iff.mp h
      exact .inr ⟨r, ws, hfirst, rfl, readFields_eq_some_iff.mp hws, rfl⟩

theorem numberObject?_sortFields {fields : List (String × Doc)}
    (h : ¬NumberFirst numberKey fields) : numberObject? J numberKey (sortFields fields) = none := by
  rw [Option.eq_none_iff_forall_ne_some]
  intro l hl
  obtain ⟨s, hsingle, -⟩ := numberObject?_eq_some hl
  cases fields with
  | nil => cases hsingle
  | cons e fields =>
    have hlookup := lookup_sortFields (e :: fields) e.1
    rw [hsingle, lookup_cons_ite, List.lookup_nil] at hlookup
    split at hlookup
    · next hkey => exact h (congrArg some hkey)
    · -- a key that is there is found
      rw [List.reverse_cons, List.lookup_append, lookup_cons_ite, if_pos rfl] at hlookup
      cases hfound : fields.reverse.lookup e.1 <;> rw [hfound] at hlookup <;> cases hlookup

theorem collapse_eq_str {d : Doc} {s : String} (h : collapse J numberKey d = .str s) :
    d = .str s := by
  cases d with
  | str t => exact h
  | obj fields =>
    rw [collapse_obj, collapseFields] at h
    cases hnum : numberObject? J numberKey (mapFields (collapse J numberKey) fields) <;>
      rw [hnum] at h <;> cases h
  | arr items => rw [collapse_arr] at h; cases h
  | _ => cases h

theorem numberObject?_collapse (fields : List (String × Doc)) :
    numberObject? J numberKey (mapFields (collapse J numberKey) fields) =
      numberObject? J numberKey fields := by
  cases hnum : numberObject? J numberKey fields with
  | some l =>
    obtain ⟨s, rfl, -⟩ := numberObject?_eq_some hnum
    exact hnum
  | none =>
    rw [Option.eq_none_iff_forall_ne_some]
    intro l hl
    obtain ⟨s, hsingle, hlit⟩ := numberObject?_eq_some hl
    cases fields with
    | nil => cases hsingle
    | cons e fields =>
      cases fields with
      | nil =>
        obtain ⟨k, d⟩ := e
        rw [mapFields_cons, mapFields_nil, List.cons.injEq, Prod.mk.injEq] at hsingle
        obtain ⟨⟨hk, hd⟩, -⟩ := hsingle
        have hk : k = numberKey := hk
        subst hk
        have hd : d = .str s := collapse_eq_str hd
        subst hd
        rw [numberObject?, if_pos rfl, hlit] at hnum
        cases hnum
      | cons e' fields => simp at hsingle

theorem eq_collapse_of_readRaw {r : Nat} {d w : Doc} (h : readRaw J numberKey r d = some w) :
    w = collapse J numberKey d.dedup := by
  induction d using Value.induct generalizing r w with
  | null => rw [readRaw_null] at h; cases h; rfl
  | bool b => rw [readRaw_bool] at h; cases h; rfl
  | num l => rw [readRaw_num] at h; cases h; rfl
  | str s => rw [readRaw_str] at h; cases h; rfl
  | arr items ih =>
    obtain ⟨r, ws, rfl, hread, rfl⟩ := readRaw_arr h
    rw [Value.dedup_arr, collapse_arr, List.map_map]
    have hall := map_eq_map_of_read (k := id) hread fun d hd w hw => (ih d hd hw).symm
    rw [List.map_id] at hall
    exact congrArg _ hall.symm
  | obj fields ih =>
    rcases readRaw_obj h with ⟨l, -, hl, rfl⟩ | ⟨r, ws, hfirst, rfl, hread, rfl⟩
    · obtain ⟨s, rfl, hs⟩ := numberObject?_eq_some hl
      change Value.num l = collapseFields J numberKey [(numberKey, .str s)]
      rw [collapseFields, hl]
      rfl
    · have hall := mapFields_eq_of_read (h := fun d => collapse J numberKey d.dedup) (k := id) hread
        fun e he w hw => (ih e he hw).symm
      rw [mapFields_id] at hall
      have hnone : numberObject? J numberKey (sortFields (mapFields Value.dedup fields)) = none := by
        apply numberObject?_sortFields
        cases fields with
        | nil => exact hfirst
        | cons e fields => exact hfirst
      rw [Value.dedup_obj, collapse_obj, collapseFields, numberObject?_collapse, hnone,
        mapFields_sortFields, mapFields_mapFields, Option.map_none, Option.getD_none]
      exact congrArg (fun fs => Value.obj (sortFields fs)) hall.symm

theorem BuiltUp.of_readRaw {p : Nat → Doc → Prop} (hp : BuiltUp p) {r : Nat} {d w : Doc}
    (h : readRaw J numberKey r d = some w) : p r w := by
  induction d using Value.induct generalizing r w with
  | null => rw [readRaw_null] at h; cases h; exact hp.null r
  | bool b => rw [readRaw_bool] at h; cases h; exact hp.bool r b
  | num l => rw [readRaw_num] at h; cases h; exact hp.num r l
  | str s => rw [readRaw_str] at h; cases h; exact hp.str r s
  | arr items ih =>
    obtain ⟨r, ws, rfl, hread, rfl⟩ := readRaw_arr h
    refine hp.arr fun w hw => ?_
    obtain ⟨d, hd, hdw⟩ := exists_of_mem_read hread hw
    exact ih d hd hdw
  | obj fields ih =>
    rcases readRaw_obj h with ⟨l, -, -, rfl⟩ | ⟨r, ws, -, rfl, hread, rfl⟩
    · exact hp.num r l
    · refine hp.obj (sortedKeys_sortFields ws) fun w hw => ?_
      obtain ⟨e, he, -, hew⟩ := exists_of_mem_readFields hread (mem_of_mem_sortFields hw)
      exact ih e he hew

theorem sorted_of_readRaw {r : Nat} {d w : Doc} (h : readRaw J numberKey r d = some w) :
    w.Sorted :=
  builtUp_sorted.of_readRaw h

theorem fits_of_readRaw {r : Nat} {d w : Doc} (h : readRaw J numberKey r d = some w) :
    w.Fits r :=
  builtUp_fits.of_readRaw h

/-- A document of maps is read as it is exactly when none of its objects starts
with the key that stands for a number. -/
theorem readRaw_self_iff {r : Nat} {d : Doc} (hsorted : d.Sorted) (hfits : d.Fits r) :
    readRaw J numberKey r d = some d ↔
      d.Every (fun _ => True) fun fields => ¬NumberFirst numberKey fields := by
  induction d using Value.induct generalizing r with
  | null => exact iff_of_true (readRaw_null J numberKey r) .null
  | bool b => exact iff_of_true (readRaw_bool J numberKey r b) (.bool b)
  | num l => exact iff_of_true (readRaw_num J numberKey r l) (.num trivial)
  | str s => exact iff_of_true (readRaw_str J numberKey r s) (.str s)
  | arr items ih =>
    cases hsorted with
    | arr hsorted =>
      cases hfits with
      | @arr r _ hfits =>
        constructor
        · intro h
          obtain ⟨r', ws, hr, hread, hws⟩ := readRaw_arr h
          cases hr
          cases hws
          refine .arr fun d hd => (ih d hd (hsorted d hd) (hfits d hd)).mp ?_
          exact List.map_inj_left.mp hread d hd
        · rintro (_ | _ | _ | _ | h | _)
          have hread : items.mapM (readRaw J numberKey r) = some items := by
            rw [mapM_eq_some_iff]
            exact List.map_congr_left fun d hd =>
              (ih d hd (hsorted d hd) (hfits d hd)).mpr (h d hd)
          rw [readRaw, hread]
          rfl
  | obj fields ih =>
    cases hsorted with
    | obj hkeys hsorted =>
      cases hfits with
      | @obj r _ hfits =>
        constructor
        · intro h
          rcases readRaw_obj h with ⟨l, -, -, hw⟩ | ⟨r', ws, hfirst, hr, hread, hws⟩
          · cases hw
          · cases hr
            have hsame : SortedKeys ws := by
              have hkeysEq : fields.map Prod.fst = ws.map Prod.fst := by
                have hfst := congrArg (List.map Prod.fst) hread
                simpa [mapFields, Function.comp_def] using hfst
              rw [SortedKeys, ← hkeysEq]
              exact hkeys
            rw [sortFields_of_sorted hsame, Value.obj.injEq] at hws
            subst hws
            refine .obj hfirst fun e he => (ih e he (hsorted e he) (hfits e he)).mp ?_
            have hmem := List.map_inj_left.mp hread e he
            exact congrArg Prod.snd hmem
        · rintro (_ | _ | _ | _ | _ | ⟨hfirst, h⟩)
          have hread : readFields (readRaw J numberKey r) fields = some fields := by
            rw [readFields_eq_some_iff]
            exact mapFields_congr fun e he =>
              (ih e he (hsorted e he) (hfits e he)).mpr (h e he)
          rw [readRaw, if_neg hfirst, hread, Option.map_some, sortFields_of_sorted hkeys]

end ReadRaw

/-! ## Both readers together -/

/-- What one reader converted and wrote again is what the other kept, exactly
when every number is written as it was and no object stands for a number. -/
theorem map_eq_collapse_iff {J : JsonSyntax} {numberKey : String} {f : Literal → Option μ}
    {g : μ → Literal} {d : Doc} {v : Value μ} (h : d.map f = v.map some) :
    v.map g = collapse J numberKey d ↔
      d.Every (fun l => ∃ m, f l = some m ∧ g m = l)
        fun fields => numberObject? J numberKey fields = none := by
  induction d using Value.induct generalizing v with
  | null => cases v <;> first | exact iff_of_true rfl .null | simp at h
  | bool b =>
    cases v with
    | bool b' => cases h; exact iff_of_true rfl (.bool b)
    | _ => simp at h
  | str s =>
    cases v with
    | str s' => cases h; exact iff_of_true rfl (.str s)
    | _ => simp at h
  | num l =>
    cases v with
    | num m =>
      rw [Value.map_num, Value.map_num, Value.num.injEq] at h
      constructor
      · intro heq
        exact .num ⟨m, h, Value.num.inj heq⟩
      · rintro (_ | _ | ⟨m', hm', hg⟩ | _ | _ | _)
        rw [h, Option.some.injEq] at hm'
        rw [Value.map_num, hm', hg]
        rfl
    | _ => simp at h
  | arr items ih =>
    cases v with
    | arr ws =>
      rw [Value.map_arr, Value.map_arr, Value.arr.injEq] at h
      rw [Value.map_arr, collapse_arr, Value.arr.injEq,
        map_eq_map_iff_of_map_eq h fun d hd v hv => ih d hd hv]
      constructor
      · exact fun hall => .arr hall
      · rintro (_ | _ | _ | _ | hall | _)
        exact hall
    | _ => simp at h
  | obj fields ih =>
    cases v with
    | obj ws =>
      rw [Value.map_obj, Value.map_obj, Value.obj.injEq] at h
      rw [Value.map_obj, collapse_obj, collapseFields, numberObject?_collapse]
      cases hnum : numberObject? J numberKey fields with
      | some l =>
        refine iff_of_false nofun ?_
        rintro (_ | _ | _ | _ | _ | ⟨hnone, -⟩)
        rw [hnum] at hnone
        cases hnone
      | none =>
        rw [Option.map_none, Option.getD_none, Value.obj.injEq,
          mapFields_eq_iff_of_mapFields_eq h fun e he v hv => ih e he hv]
        constructor
        · exact fun hall => .obj hnum hall
        · rintro (_ | _ | _ | _ | _ | ⟨-, hall⟩)
          exact hall
    | _ => simp at h

end ConquerD.Lib.JsonText
