import ConquerD.Installer.Flows

/-!
# Archives stay in their destination

A name that passes the screen leads below the destination by the rules of either host, so a
name that leads elsewhere by any of them does not pass. Nothing of an archive is to stay
when one of its names does not pass; but the entries are written as they are screened, and
what comes before the name stays. An archive with such a name leaves nothing exactly when
no entry the walk gets to puts a file.
-/

namespace ConquerD.Installer

open Lib.Encoding Lib.LexicalPath

/-! ## Names -/

/-- One separator for the two. -/
def normalized (c : Char) : Char :=
  if c = '\\' then '/' else c

theorem normalized_slash : ((· == '/') ∘ normalized) = Host.windows.isSeparator := by
  funext c
  by_cases hc : c = '\\'
  · subst hc
    decide
  · simp [normalized, Host.isSeparator, hc]

theorem normalized_head (name : List Char) :
    (name.map normalized).head? = some '/' ↔
      name.head?.any Host.windows.isSeparator = true := by
  cases name with
  | nil => simp
  | cons c rest =>
    have hc := congrFun normalized_slash c
    simp only [Function.comp_apply] at hc
    rw [List.map_cons, List.head?_cons, List.head?_cons, Option.any_some, ← hc, beq_iff_eq,
      Option.some_inj]

theorem normalized_alpha (c : Char) : (normalized c).isAlpha = c.isAlpha := by
  by_cases hc : c = '\\'
  · subst hc
    decide
  · rw [normalized, if_neg hc]

theorem normalized_colon (c : Char) : normalized c = ':' ↔ c = ':' := by
  by_cases hc : c = '\\'
  · subst hc
    decide
  · rw [normalized, if_neg hc]

theorem normalized_parent {s : List Char} (h : s.map normalized = parent) : s = parent := by
  have hdot : ∀ c, normalized c = '.' → c = '.' := by
    intro c hc
    by_cases hb : c = '\\'
    · subst hb
      exact absurd hc (by decide)
    · rwa [normalized, if_neg hb] at hc
  simp only [parent, List.map_eq_cons_iff, List.map_eq_nil_iff] at h
  obtain ⟨a, _, rfl, ha, b, _, rfl, hb, rfl⟩ := h
  rw [hdot a ha, hdot b hb]
  rfl

theorem normalized_drive (name : List Char) :
    (match name.map normalized with
      | a :: ':' :: _ => a.isAlpha
      | _ => false) = false ↔ Host.windows.drive? name = none := by
  match name with
  | [] => simp [Host.drive?]
  | [a] => simp [Host.drive?]
  | a :: b :: rest =>
    by_cases hb : b = ':'
    · subst hb
      have hcolon : normalized ':' = ':' := by decide
      simp only [List.map_cons, hcolon, normalized_alpha, Host.drive?]
      cases a.isAlpha <;> simp
    · have hne : normalized b ≠ ':' := mt (normalized_colon b).mp hb
      simp [Host.drive?, hne, hb]

theorem normalized_segments (name : List Char) :
    ((name.map normalized).splitOn '/').all (fun s => s != ['.', '.']) = true ↔
      ∀ s ∈ Host.windows.segments name, s ≠ parent := by
  rw [List.splitOn_eq_splitOnP, splitOnP_map, normalized_slash, List.all_map, List.all_eq_true]
  refine forall_congr' fun s => imp_congr_right fun _ => ?_
  rw [Function.comp_apply, bne_iff_ne]
  refine not_congr ⟨normalized_parent, ?_⟩
  rintro rfl
  decide

/-- A name passes when, by the rules with drives and two separators, it starts over nowhere
and goes up nowhere. -/
theorem entryNameIsSafe_iff (name : String) :
    entryNameIsSafe name = true ↔
      name ≠ "" ∧ name.toList.head?.any Host.windows.isSeparator = false ∧
        Host.windows.drive? name.toList = none ∧
        ∀ s ∈ Host.windows.segments name.toList, s ≠ parent := by
  have hsafe : entryNameIsSafe name = (name != "" &&
      (name.toList.map normalized).head? != some '/' &&
      !(match name.toList.map normalized with
        | a :: ':' :: _ => a.isAlpha
        | _ => false) &&
      ((name.toList.map normalized).splitOn '/').all fun s => s != ['.', '.']) := rfl
  rw [hsafe]
  simp only [Bool.and_eq_true, bne_iff_ne, and_assoc, Bool.not_eq_true', ne_eq, normalized_head,
    normalized_drive, normalized_segments, Bool.not_eq_true]

theorem holds_of_safe {name : String} (hsafe : entryNameIsSafe name = true) (h : Host)
    (dest : Place) : dest.Holds (h.join dest name.toList) := by
  obtain ⟨-, hhead, hdrive, hup⟩ := (entryNameIsSafe_iff name).mp hsafe
  exact h.holds_join (Host.drive?_none hdrive h) (Host.head_separator hhead h)
    (Host.ne_parent hup h) dest

/-! ## Files -/

/-- The walk gets to writing the entry. -/
def OpenArchive.Hands (a : OpenArchive) (e : ArchiveEntry) : Prop :=
  a.joins e.name = true ∧ entryNameIsSafe e.name = true

/-- Behind the entries in front the walk gets to writing this one. -/
def OpenArchive.Reaches (a : OpenArchive) (front : List ArchiveEntry) (e : ArchiveEntry) : Prop :=
  (∀ f ∈ front, a.Hands f ∧ f.extracts = true) ∧ a.Hands e

section Walk

variable {host : Host} {dest : Place} {a : OpenArchive}

theorem decompressEntries_cons (e : ArchiveEntry) (rest : List ArchiveEntry) :
    (¬ a.Hands e ∧ (decompressEntries host dest a (e :: rest)).1 = []) ∨
    (a.Hands e ∧ e.extracts = false ∧ (decompressEntries host dest a (e :: rest)).1 =
      e.file.toList.map fun data => (host.join dest e.name.toList, data)) ∨
    (a.Hands e ∧ e.extracts = true ∧ (decompressEntries host dest a (e :: rest)).1 =
      (e.file.toList.map fun data => (host.join dest e.name.toList, data)) ++
        (decompressEntries host dest a rest).1) := by
  unfold OpenArchive.Hands
  rw [decompressEntries]
  cases hjoins : a.joins e.name with
  | false => exact .inl ⟨fun h => Bool.false_ne_true h.1, rfl⟩
  | true =>
    cases hsafe : entryNameIsSafe e.name with
    | false => exact .inl ⟨fun h => Bool.false_ne_true h.2, rfl⟩
    | true =>
      cases hex : e.extracts with
      | false => exact .inr (.inl ⟨⟨rfl, rfl⟩, rfl, rfl⟩)
      | true => exact .inr (.inr ⟨⟨rfl, rfl⟩, rfl, rfl⟩)

theorem mem_file {e : ArchiveEntry} {place : Place} {data : Bytes} :
    ((place, data) ∈ e.file.toList.map fun data => (host.join dest e.name.toList, data)) ↔
      e.file = some data ∧ place = host.join dest e.name.toList := by
  rw [List.mem_map]
  constructor
  · rintro ⟨b, hb, heq⟩
    cases heq
    exact ⟨Option.mem_toList.mp hb, rfl⟩
  · rintro ⟨hfile, rfl⟩
    exact ⟨data, Option.mem_toList.mpr hfile, rfl⟩

theorem mem_decompressEntries {entries : List ArchiveEntry} {place : Place} {data : Bytes} :
    (place, data) ∈ (decompressEntries host dest a entries).1 ↔
      ∃ front e back, entries = front ++ e :: back ∧ a.Reaches front e ∧ e.file = some data ∧
        place = host.join dest e.name.toList := by
  induction entries with
  | nil => simp [decompressEntries]
  | cons e rest ih =>
    have hback : (∃ front x back, e :: rest = front ++ x :: back ∧ a.Reaches front x ∧
        x.file = some data ∧ place = host.join dest x.name.toList) ↔
        (a.Hands e ∧ e.file = some data ∧ place = host.join dest e.name.toList) ∨
        (a.Hands e ∧ e.extracts = true ∧
          (place, data) ∈ (decompressEntries host dest a rest).1) := by
      rw [ih]
      constructor
      · rintro ⟨front, x, back, heq, ⟨hfront, hx⟩, hfile⟩
        cases front with
        | nil =>
          cases heq
          exact .inl ⟨hx, hfile⟩
        | cons f front =>
          cases heq
          obtain ⟨hf, hex⟩ := hfront e List.mem_cons_self
          exact .inr ⟨hf, hex, front, x, back, rfl,
            ⟨fun g hg => hfront g (List.mem_cons_of_mem e hg), hx⟩, hfile⟩
      · rintro (⟨he, hfile⟩ | ⟨he, hex, front, x, back, rfl, ⟨hfront, hx⟩, hfile⟩)
        · exact ⟨[], e, rest, rfl, ⟨fun g hg => absurd hg List.not_mem_nil, he⟩, hfile⟩
        · exact ⟨e :: front, x, back, rfl,
            ⟨List.forall_mem_cons.mpr ⟨⟨he, hex⟩, hfront⟩, hx⟩, hfile⟩
    rw [hback]
    obtain ⟨hno, hw⟩ | ⟨hyes, hex, hw⟩ | ⟨hyes, hex, hw⟩ :=
      @decompressEntries_cons host dest a e rest
    · rw [hw]
      simp [hno]
    · rw [hw, mem_file]
      simp [hyes, hex]
    · rw [hw, List.mem_append, mem_file]
      simp [hyes, hex]

theorem handed_of_ended {entries : List ArchiveEntry}
    (h : (decompressEntries host dest a entries).2 = .ended) :
    (∀ e ∈ entries, a.Hands e) ∧ (decompressEntries host dest a entries).1 =
      entries.flatMap fun e => e.file.toList.map fun data => (host.join dest e.name.toList, data) := by
  induction entries with
  | nil => exact ⟨fun e he => absurd he List.not_mem_nil, rfl⟩
  | cons e rest ih =>
    unfold OpenArchive.Hands
    rw [decompressEntries] at h ⊢
    cases hjoins : a.joins e.name with
    | false => simp [hjoins] at h
    | true =>
      cases hsafe : entryNameIsSafe e.name with
      | false => simp [hjoins, hsafe] at h
      | true =>
        cases hex : e.extracts with
        | false => simp [hjoins, hsafe, hex] at h
        | true =>
          simp only [hjoins, hsafe, hex, Bool.not_true, Bool.false_eq_true, if_false,
            if_true] at h
          obtain ⟨hhands, hfiles⟩ := ih h
          refine ⟨List.forall_mem_cons.mpr ⟨⟨hjoins, hsafe⟩, hhands⟩, ?_⟩
          rw [List.flatMap_cons, ← hfiles]
          rfl

/-- Whatever an archive holds, what is written lies below the destination; and where the
archive is reported extracted every name passes and every file is written under its name. -/
theorem extraction_contained (host : Host) (dest : Place) (a : OpenArchive)
    (layoutOk : List (Place × Bytes) → Bool) :
    (∀ w ∈ (decompressArchive host dest layoutOk a).1, dest.Holds w.1) ∧
      ((decompressArchive host dest layoutOk a).2 = true →
        (∀ e ∈ a.entries, entryNameIsSafe e.name = true) ∧
        (decompressArchive host dest layoutOk a).1 = a.entries.flatMap fun e =>
          e.file.toList.map fun data => (host.join dest e.name.toList, data)) := by
  refine ⟨fun w hw => ?_, fun h => ?_⟩
  · obtain ⟨front, e, back, -, ⟨-, he⟩, -, hplace⟩ := mem_decompressEntries.mp hw
    rw [hplace]
    exact holds_of_safe he.2 host dest
  · unfold decompressArchive at h
    rw [Bool.and_eq_true, decide_eq_true_eq] at h
    obtain ⟨hhands, hfiles⟩ := handed_of_ended h.1
    exact ⟨fun e he => (hhands e he).2, hfiles⟩

end Walk

/-! ## Nothing of a bad archive -/

/-- No entry the walk gets to puts a file. -/
def OpenArchive.PutsNoFile (a : OpenArchive) : Prop :=
  ∀ front e back, a.entries = front ++ e :: back → a.Reaches front e → e.file = none

theorem OpenArchive.putsNoFile_iff (a : OpenArchive) (host : Host) (dest : Place)
    (layoutOk : List (Place × Bytes) → Bool) :
    a.PutsNoFile ↔ (decompressArchive host dest layoutOk a).1 = [] := by
  rw [List.eq_nil_iff_forall_not_mem]
  constructor
  · rintro hno ⟨place, data⟩ hw
    obtain ⟨front, e, back, heq, hreach, hfile, -⟩ := mem_decompressEntries.mp hw
    rw [hno front e back heq hreach] at hfile
    cases hfile
  · intro hnil front e back heq hreach
    cases hfile : e.file with
    | none => rfl
    | some data =>
      exact absurd (mem_decompressEntries.mpr ⟨front, e, back, heq, hreach, hfile, rfl⟩)
        (hnil (host.join dest e.name.toList, data))

/-- Names lead below the destination or do not pass, and an archive with one that does not
pass leaves no file. -/
structure ExtractionLaw (dest : Place) (a : OpenArchive) : Prop where
  below : ∀ e ∈ a.entries, entryNameIsSafe e.name = true →
    ∀ host : Host, dest.Holds (host.join dest e.name.toList)
  refused : ∀ e ∈ a.entries, (∃ host : Host, ¬ dest.Holds (host.join dest e.name.toList)) →
    entryNameIsSafe e.name = false
  nothing : (∃ e ∈ a.entries, entryNameIsSafe e.name = false) →
    ∀ host layoutOk, (decompressArchive host dest layoutOk a).1 = []

theorem extractionLaw_iff (dest : Place) (a : OpenArchive) :
    ExtractionLaw dest a ↔
      (∀ e ∈ a.entries, entryNameIsSafe e.name = true) ∨ a.PutsNoFile := by
  constructor
  · intro hlaw
    by_cases hbad : ∃ e ∈ a.entries, entryNameIsSafe e.name = false
    · refine .inr ((a.putsNoFile_iff .posix dest fun _ => true).mpr ?_)
      exact hlaw.nothing hbad .posix fun _ => true
    · push Not at hbad
      exact .inl fun e he => by simpa using hbad e he
  · intro hcond
    refine ⟨fun e _ hsafe host => holds_of_safe hsafe host dest, ?_, ?_⟩
    · rintro e - ⟨host, hout⟩
      rw [Bool.eq_false_iff]
      exact fun hsafe => hout (holds_of_safe hsafe host dest)
    · rintro ⟨e, he, hbad⟩ host layoutOk
      obtain hsafe | hno := hcond
      · rw [hsafe e he] at hbad
        cases hbad
      · exact (a.putsNoFile_iff host dest layoutOk).mp hno

/-- A good entry in front of one that goes up, which the decoder will not join either. -/
def halfExtracted : OpenArchive where
  entries := [⟨"readme.txt", some [104, 105], true⟩, ⟨"../evil.txt", some [33], true⟩]
  joins := entryNameIsSafe
  decodes := true

theorem readme_stays :
    (decompressArchive .posix ⟨none, [['o', 'p', 't']]⟩ (fun _ => true) halfExtracted).1 =
      [(⟨none, [['o', 'p', 't'], "readme.txt".toList]⟩, [104, 105])] ∧
    ¬ ExtractionLaw ⟨none, [['o', 'p', 't']]⟩ halfExtracted := by
  have hleft : (decompressArchive .posix ⟨none, [['o', 'p', 't']]⟩ (fun _ => true)
      halfExtracted).1 = [(⟨none, [['o', 'p', 't'], "readme.txt".toList]⟩, [104, 105])] := by
    decide
  refine ⟨hleft, fun hlaw => ?_⟩
  have hnil := hlaw.nothing ⟨⟨"../evil.txt", some [33], true⟩, by simp [halfExtracted], by decide⟩
    .posix fun _ => true
  rw [hleft] at hnil
  cases hnil

end ConquerD.Installer
