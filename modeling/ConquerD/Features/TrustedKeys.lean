import ConquerD.Lib.Run
import ConquerD.Lib.Words
import Mathlib.Data.List.DropRight
import Mathlib.Data.List.Infix
import Mathlib.Data.String.Basic
import Std.Data.ExtTreeSet

/-!
# The keys trusted to sign modules

The file of trusted keys has one key a line. It is written in two ways: as a
whole from the keys in memory, with a feed between the lines and none after the
last, and by appending a key and a feed. What is appended to a last line with
no feed becomes part of that line. The keys of the file are what the writes
say along the runs in which every key that is appended is in the file already
or meets a blank last line, and none is empty.
-/

namespace ConquerD.Features

open Std (ExtTreeSet)
open Lib.Run Lib.Words

structure TrustedKeyStore where
  keys : ExtTreeSet String

namespace TrustedKeyStore

def new : TrustedKeyStore := ⟨∅⟩

def trust (store : TrustedKeyStore) (pubkeyB64 : String) : TrustedKeyStore :=
  ⟨store.keys.insert pubkeyB64⟩

def revoke (store : TrustedKeyStore) (pubkeyB64 : String) : TrustedKeyStore :=
  ⟨store.keys.erase pubkeyB64⟩

def isTrusted (store : TrustedKeyStore) (pubkeyB64 : String) : Bool :=
  store.keys.contains pubkeyB64

/-- The keys in order, with a feed between two of them. -/
def toText (store : TrustedKeyStore) : String :=
  "\n".intercalate store.keys.toList

def keyOfLine (line : List Char) : Option String :=
  if trim line ≠ [] ∧ (trim line).head? ≠ some '#' then some (String.ofList (trim line)) else none

def fromText (s : String) : TrustedKeyStore :=
  (lines s.toList).foldl
    (fun store line =>
      match keyOfLine line with
      | some key => store.trust key
      | none => store)
    new

def load (file : Option String) : TrustedKeyStore :=
  match file with
  | some text => fromText text
  | none => new

/-- The file after a key was appended. -/
def appendToFile (file : Option String) (pubkeyB64 : String) : Option String :=
  if (load file).isTrusted pubkeyB64 then file
  else some (file.getD "" ++ pubkeyB64 ++ "\n")

end TrustedKeyStore

/-! ## What a text is read as -/

/-- A key has nothing white in it and does not begin like a comment. -/
structure KeyText (key : String) : Prop where
  solid : ∀ c ∈ key.toList, isWhite c = false
  no_comment : key.toList.head? ≠ some '#'

namespace TrustedKeyStore

variable {s k : String} {file : Option String}

theorem mem_fromText : k ∈ (fromText s).keys ↔ k ∈ (lines s.toList).filterMap keyOfLine := by
  have hfold : ∀ (ls : List (List Char)) (store : TrustedKeyStore),
      k ∈ (ls.foldl (fun store line =>
        match keyOfLine line with
        | some key => store.trust key
        | none => store) store).keys ↔ k ∈ store.keys ∨ k ∈ ls.filterMap keyOfLine := by
    intro ls
    induction ls with
    | nil => simp
    | cons line ls ih =>
      intro store
      rw [List.foldl_cons, ih]
      cases hline : keyOfLine line with
      | none => simp [hline]
      | some key =>
        have hinsert : k ∈ (store.trust key).keys ↔ k = key ∨ k ∈ store.keys := by
          rw [trust, ExtTreeSet.mem_insert, Std.compare_eq_iff_eq, eq_comm]
        rw [List.filterMap_cons_some hline, hinsert, List.mem_cons]
        tauto
  rw [fromText, hfold]
  simp [new]

theorem keyOfLine_nil : keyOfLine [] = none := by
  simp [keyOfLine, trim]

/-- A key of a text is not empty, has nothing white at its ends and is no comment. -/
theorem of_keyOfLine {line : List Char} (h : keyOfLine line = some k) :
    k.toList = trim line ∧ k ≠ "" ∧ k.toList.head? ≠ some '#' := by
  unfold keyOfLine at h
  split at h
  · next hkey =>
    cases h
    refine ⟨String.toList_ofList, ?_, ?_⟩
    · intro hempty
      rw [← String.toList_inj, String.toList_ofList] at hempty
      exact hkey.1 hempty
    · rw [String.toList_ofList]
      exact hkey.2
  · cases h

theorem mem_load : k ∈ (load file).keys ↔
    k ∈ (pieces (file.getD "").toList).filterMap keyOfLine := by
  have hpieces : ∀ text : String, k ∈ (fromText text).keys ↔
      k ∈ (pieces text.toList).filterMap keyOfLine := by
    intro text
    rw [mem_fromText, filterMap_lines keyOfLine_nil]
  cases file with
  | some text => exact hpieces text
  | none =>
    have hnone : (pieces "".toList).filterMap keyOfLine = [] := by
      rw [String.toList_empty, pieces_of_notMem List.not_mem_nil]
      rfl
    rw [Option.getD_none, hnone]
    simp [load, new]

/-! ## Appending -/

theorem exists_lastLine (cs : List Char) :
    ∃ last, '\n' ∉ last ∧ (cs = last ∨ ∃ front, cs = front ++ '\n' :: last) := by
  induction cs using List.reverseRecOn with
  | nil => exact ⟨[], List.not_mem_nil, .inl rfl⟩
  | append_singleton cs c ih =>
    by_cases hc : c = '\n'
    · exact ⟨[], List.not_mem_nil, .inr ⟨cs, by rw [hc]⟩⟩
    · obtain ⟨last, hlast, hcs⟩ := ih
      refine ⟨last ++ [c], ?_, ?_⟩
      · simp [hlast, Ne.symm hc]
      · rcases hcs with rfl | ⟨front, rfl⟩
        · exact .inl rfl
        · exact .inr ⟨front, by simp⟩

theorem notMem_of_mem_pieces {cs line : List Char} (h : line ∈ pieces cs) : '\n' ∉ line := by
  -- by the length of the text, one line off its end after another
  generalize hn : cs.length = n
  induction n using Nat.strongRecOn generalizing cs with
  | ind n ih =>
    obtain ⟨last, hlast, rfl | ⟨front, rfl⟩⟩ := exists_lastLine cs
    · rw [pieces_of_notMem hlast, List.mem_singleton] at h
      exact h ▸ hlast
    · rw [pieces_feed, pieces_of_notMem hlast, List.mem_append, List.mem_singleton] at h
      rcases h with hfront | rfl
      · rw [List.length_append, List.length_cons] at hn
        exact ih front.length (by omega) hfront rfl
      · exact hlast

theorem trim_append_solid (last : List Char) (hk : KeyText k) (hne : k ≠ "") :
    trim (last ++ k.toList) = last.dropWhile isWhite ++ k.toList := by
  have hnil : k.toList ≠ [] := by simpa using hne
  have hfront : (last ++ k.toList).dropWhile isWhite = last.dropWhile isWhite ++ k.toList := by
    rw [List.dropWhile_append]
    split
    · next h =>
      have hdrop : last.dropWhile isWhite = [] := List.isEmpty_iff.mp h
      rw [hdrop, List.nil_append, List.dropWhile_eq_self_iff]
      intro hlen
      simpa using hk.solid _ (List.getElem_mem hlen)
    · rfl
  have hback : ((last.dropWhile isWhite ++ k.toList).reverse).dropWhile isWhite =
      (last.dropWhile isWhite ++ k.toList).reverse := by
    rw [List.reverse_append, List.dropWhile_eq_self_iff]
    intro hlen
    have hpos : 0 < k.toList.reverse.length := by
      rw [List.length_reverse]
      exact List.length_pos_iff.mpr hnil
    rw [List.getElem_append_left hpos]
    simpa using hk.solid _ (List.mem_reverse.mp (List.getElem_mem hpos))
  rw [trim, hfront, hback, List.reverse_reverse]

theorem keyOfLine_append_iff {last : List Char} (hk : KeyText k) :
    keyOfLine (last ++ k.toList) = some k ↔ k ≠ "" ∧ ∀ c ∈ last, isWhite c = true := by
  constructor
  · intro h
    obtain ⟨htrim, hne, -⟩ := of_keyOfLine h
    rw [trim_append_solid last hk hne] at htrim
    have hdrop : last.dropWhile isWhite = [] := by
      have hlength := congrArg List.length htrim
      rw [List.length_append] at hlength
      exact List.length_eq_zero_iff.mp (by omega)
    exact ⟨hne, List.dropWhile_eq_nil_iff.mp hdrop⟩
  · rintro ⟨hne, hblank⟩
    have hnil : k.toList ≠ [] := by simpa using hne
    rw [keyOfLine, trim_append_solid last hk hne, List.dropWhile_eq_nil_iff.mpr hblank,
      List.nil_append, if_pos ⟨hnil, hk.no_comment⟩, String.ofList_toList]

theorem appendToFile_of_mem (h : k ∈ (load file).keys) : appendToFile file k = file := by
  rw [appendToFile, isTrusted, ExtTreeSet.contains_iff_mem.mpr h, if_pos rfl]

theorem appendToFile_of_notMem (h : k ∉ (load file).keys) :
    appendToFile file k = some (file.getD "" ++ k ++ "\n") := by
  have hno : ¬ (load file).isTrusted k = true := mt ExtTreeSet.contains_iff_mem.mp h
  rw [appendToFile, if_neg hno]

theorem endsBlank_iff_lastLine {cs last : List Char} (hlast : '\n' ∉ last)
    (hcs : cs = last ∨ ∃ front, cs = front ++ '\n' :: last) :
    EndsBlank cs ↔ ∀ c ∈ last, isWhite c = true := by
  have hall : ∀ c ∈ last.reverse, decide (c ≠ '\n') = true := by
    intro c hc
    simpa using fun heq : c = '\n' => hlast (heq ▸ List.mem_reverse.mp hc)
  have hrun : cs.reverse.takeWhile (· ≠ '\n') = last.reverse := by
    rcases hcs with rfl | ⟨front, rfl⟩
    · exact List.takeWhile_eq_self_iff.mpr hall
    · rw [List.reverse_append, List.reverse_cons, List.append_assoc,
        List.takeWhile_append_of_pos hall]
      simp
  rw [endsBlank_iff, hrun]
  simp

theorem exists_load_split (hk : KeyText k) (hnew : k ∉ (load file).keys) :
    ∃ (others : List String) (last : List Char),
      (EndsBlank (file.getD "").toList ↔ ∀ c ∈ last, isWhite c = true) ∧
      (∀ k', k' ∈ (load file).keys ↔ k' ∈ others ∨ keyOfLine last = some k') ∧
      ∀ k', k' ∈ (load (appendToFile file k)).keys ↔
        k' ∈ others ∨ keyOfLine (last ++ k.toList) = some k' := by
  have hfile := appendToFile_of_notMem hnew
  have hfeed : "\n".toList = ['\n'] := rfl
  have hsolid : '\n' ∉ k.toList := by
    intro hmem
    cases (hk.solid _ hmem).symm.trans (by decide : isWhite '\n' = true)
  obtain ⟨last, hlast, hcs⟩ := exists_lastLine (file.getD "").toList
  have hfree : '\n' ∉ last ++ k.toList := by simp [hlast, hsolid]
  have htail : pieces (last ++ k.toList ++ ['\n']) = [last ++ k.toList, []] := by
    rw [pieces_feed, pieces_of_notMem hfree, pieces_of_notMem List.not_mem_nil]
    rfl
  have hone : ∀ line : List Char, ∀ k' : String,
      k' ∈ [line].filterMap keyOfLine ↔ keyOfLine line = some k' := by
    intro line k'
    simp
  have hmem : ∀ k', k' ∈ (load (appendToFile file k)).keys ↔
      k' ∈ (pieces ((file.getD "").toList ++ k.toList ++ ['\n'])).filterMap keyOfLine := by
    intro k'
    rw [mem_load, hfile, Option.getD_some, String.toList_append, String.toList_append, hfeed]
  have hends := endsBlank_iff_lastLine hlast hcs
  rcases hcs with hcs | ⟨front, hcs⟩
  · refine ⟨[], last, hends, fun k' => ?_, fun k' => ?_⟩
    · rw [mem_load, hcs, pieces_of_notMem hlast, hone]
      simp
    · rw [hmem, hcs, htail, List.filterMap_cons]
      cases keyOfLine (last ++ k.toList) <;> simp [keyOfLine_nil, eq_comm]
  · refine ⟨(pieces front).filterMap keyOfLine, last, hends, fun k' => ?_, fun k' => ?_⟩
    · rw [mem_load, hcs, pieces_feed, pieces_of_notMem hlast, List.filterMap_append,
        List.mem_append, hone]
    · have hlong : front ++ '\n' :: last ++ k.toList ++ ['\n'] =
          front ++ '\n' :: (last ++ k.toList ++ ['\n']) := by simp
      rw [hmem, hcs, hlong, pieces_feed, htail, List.filterMap_append, List.mem_append,
        List.filterMap_cons]
      cases keyOfLine (last ++ k.toList) <;> simp [keyOfLine_nil, eq_comm]

/-- An append adds its key and changes nothing else, exactly when the key is
there already or is not empty and meets a blank last line. -/
def Appends (file : Option String) (k : String) : Prop :=
  k ∈ (load file).keys ∨ (k ≠ "" ∧ EndsBlank (file.getD "").toList)

theorem mem_appendToFile_of_appends (hk : KeyText k) (h : Appends file k) (k' : String) :
    k' ∈ (load (appendToFile file k)).keys ↔ k' = k ∨ k' ∈ (load file).keys := by
  by_cases hold : k ∈ (load file).keys
  · rw [appendToFile_of_mem hold]
    exact ⟨.inr, fun h => h.elim (fun heq => heq ▸ hold) id⟩
  · obtain ⟨others, last, hends, hbefore, hafter⟩ := exists_load_split hk hold
    rcases h with h | ⟨hne, hblank⟩
    · exact absurd h hold
    · have hwhite := hends.mp hblank
      have hlast : keyOfLine last = none := by
        have htrim : trim last = [] := trim_white hwhite
        simp [keyOfLine, htrim]
      have hread := (keyOfLine_append_iff hk).mpr ⟨hne, hwhite⟩
      rw [hafter, hbefore, hlast, hread]
      simp [or_comm, eq_comm]

theorem mem_own_append_iff (hk : KeyText k) :
    k ∈ (load (appendToFile file k)).keys ↔ Appends file k := by
  constructor
  · intro hmem
    by_cases hold : k ∈ (load file).keys
    · exact .inl hold
    · obtain ⟨others, last, hends, hbefore, hafter⟩ := exists_load_split hk hold
      rcases (hafter k).mp hmem with hother | hread
      · exact absurd ((hbefore k).mpr (.inl hother)) hold
      · obtain ⟨hne, hwhite⟩ := (keyOfLine_append_iff hk).mp hread
        exact .inr ⟨hne, hends.mpr hwhite⟩
  · intro h
    exact (mem_appendToFile_of_appends hk h k).mpr (.inl rfl)

theorem load_appendToFile_iff (hk : KeyText k) :
    (load (appendToFile file k)).keys = (load file).keys.insert k ↔ Appends file k := by
  constructor
  · intro h
    rw [← mem_own_append_iff hk, h]
    exact ExtTreeSet.mem_insert_self
  · intro h
    apply ExtTreeSet.ext_mem
    intro k'
    rw [mem_appendToFile_of_appends hk h, ExtTreeSet.mem_insert, Std.compare_eq_iff_eq,
      eq_comm (a := k)]

/-- A second append finds the key there, exactly when the first put it there. -/
theorem appendToFile_idem_iff (hk : KeyText k) :
    appendToFile (appendToFile file k) k = appendToFile file k ↔ Appends file k := by
  rw [← mem_own_append_iff hk]
  constructor
  · intro h
    by_contra hnot
    have hlonger := appendToFile_of_notMem hnot
    rw [h] at hlonger
    cases hfile : appendToFile file k with
    | none =>
      rw [hfile] at hlonger
      cases hlonger
    | some text =>
      rw [hfile] at hlonger
      have hlength := congrArg (fun t => t.toList.length) (Option.some.inj hlonger)
      simp at hlength
  · exact appendToFile_of_mem

/-! ## Writing the whole file -/

/-- A key that is read back from a line of its own. -/
def Readable (k : String) : Prop :=
  '\n' ∉ k.toList ∧ keyOfLine k.toList = some k

theorem readable_of_keyText (hk : KeyText k) (hne : k ≠ "") : Readable k := by
  refine ⟨?_, ?_⟩
  · intro hmem
    cases (hk.solid _ hmem).symm.trans (by decide : isWhite '\n' = true)
  · have hblank : ∀ c ∈ ([] : List Char), isWhite c = true := fun _ hc => nomatch hc
    exact (keyOfLine_append_iff hk).mpr ⟨hne, hblank⟩

theorem trim_trim (cs : List Char) : trim (trim cs) = trim cs := by
  have hrev : ∀ ds : List Char, trim ds = (ds.dropWhile isWhite).rdropWhile isWhite := fun _ => rfl
  have hhead : (trim cs).dropWhile isWhite = trim cs := by
    rw [hrev, List.dropWhile_eq_self_iff]
    intro hlen
    have hkept := List.rdropWhile_prefix isWhite (cs.dropWhile isWhite)
    have hget := hkept.getElem (i := 0) hlen
    rw [hget]
    exact List.dropWhile_get_zero_not isWhite cs _
  rw [hrev (trim cs), hhead, hrev cs]
  exact List.rdropWhile_idempotent _ _

theorem mem_of_mem_trim {c : Char} {cs : List Char} (h : c ∈ trim cs) : c ∈ cs := by
  have hkept : trim cs <+: cs.dropWhile isWhite := List.rdropWhile_prefix isWhite _
  exact (List.dropWhile_sublist _).mem (hkept.mem h)

theorem readable_of_mem_load (h : k ∈ (load file).keys) : Readable k := by
  obtain ⟨line, hline, hkey⟩ := List.mem_filterMap.mp (mem_load.mp h)
  obtain ⟨htrim, hne, hcomment⟩ := of_keyOfLine hkey
  have hnil : k.toList ≠ [] := by simpa using hne
  have hself : trim k.toList = k.toList := by rw [htrim, trim_trim]
  refine ⟨?_, ?_⟩
  · intro hmem
    rw [htrim] at hmem
    have hfeed := mem_of_mem_trim hmem
    exact notMem_of_mem_pieces hline hfeed
  · rw [keyOfLine, hself, if_pos ⟨hnil, hcomment⟩, String.ofList_toList]

theorem pieces_intercalate {keys : List String} (hne : keys ≠ [])
    (hfree : ∀ key ∈ keys, '\n' ∉ key.toList) :
    pieces ("\n".intercalate keys).toList = keys.map String.toList := by
  induction keys with
  | nil => exact absurd rfl hne
  | cons key keys ih =>
    have hkey := pieces_of_notMem (hfree key List.mem_cons_self)
    cases keys with
    | nil => simp [hkey]
    | cons key' keys =>
      have hrest := ih (by simp) fun k hk => hfree k (List.mem_cons_of_mem _ hk)
      have hfeed : "\n".toList = ['\n'] := rfl
      rw [String.intercalate_cons_cons, String.toList_append, String.toList_append, hfeed,
        List.append_assoc, List.singleton_append, pieces_feed, hkey, hrest]
      rfl

/-- The keys are read back when each is readable; an empty one never is. -/
theorem fromText_toText_iff {store : TrustedKeyStore}
    (hkeys : ∀ k ∈ store.keys, Readable k ∨ k = "") :
    fromText store.toText = store ↔ "" ∉ store.keys := by
  have hread : ∀ k, k ∈ (fromText store.toText).keys ↔
      k ∈ (pieces store.toText.toList).filterMap keyOfLine := fun k => @mem_load k (some _)
  constructor
  · intro h hempty
    rw [← h, hread] at hempty
    obtain ⟨line, -, hline⟩ := List.mem_filterMap.mp hempty
    exact (of_keyOfLine hline).2.1 rfl
  · intro hempty
    have hall : ∀ k ∈ store.keys.toList, Readable k := by
      intro k hk
      have hmem := ExtTreeSet.mem_toList.mp hk
      rcases hkeys k hmem with hk | rfl
      · exact hk
      · exact absurd hmem hempty
    have hsame : ∀ k, k ∈ (fromText store.toText).keys ↔ k ∈ store.keys := by
      intro k
      rw [hread]
      by_cases hnil : store.keys.toList = []
      · have hnone : k ∉ store.keys := by
          rw [← ExtTreeSet.mem_toList, hnil]
          exact List.not_mem_nil
        rw [toText, hnil, String.intercalate_nil, String.toList_empty,
          pieces_of_notMem List.not_mem_nil]
        simp [keyOfLine_nil, hnone]
      · rw [toText, pieces_intercalate hnil fun key hkey => (hall key hkey).1, List.mem_filterMap,
          ← ExtTreeSet.mem_toList]
        constructor
        · rintro ⟨line, hline, hkey⟩
          obtain ⟨key, hmem, rfl⟩ := List.mem_map.mp hline
          rw [(hall key hmem).2] at hkey
          exact Option.some.inj hkey ▸ hmem
        · intro hmem
          exact ⟨k.toList, List.mem_map_of_mem hmem, (hall k hmem).2⟩
    have hext : (fromText store.toText).keys = store.keys := ExtTreeSet.ext_mem fun {k} => hsame k
    rw [TrustedKeyStore.mk.injEq] at *
    exact hext

/-! ## Runs -/

inductive KeyEdit where
  | trust (key : {k : String // KeyText k})
  | revoke (key : {k : String // KeyText k})

def KeyEdit.apply (store : TrustedKeyStore) : KeyEdit → TrustedKeyStore
  | .trust key => store.trust key.1
  | .revoke key => store.revoke key.1

inductive KeyWrite where
  | append (key : {k : String // KeyText k})
  /-- The keys of the file are edited and written in place of it. -/
  | rewrite (edits : List KeyEdit)

def edited (file : Option String) (edits : List KeyEdit) : TrustedKeyStore :=
  edits.foldl KeyEdit.apply (load file)

def step (file : Option String) : KeyWrite → Option String
  | .append key => appendToFile file key.1
  | .rewrite edits => some (edited file edits).toText

/-- What the write says the keys of the file are. -/
def intended (file : Option String) : KeyWrite → TrustedKeyStore
  | .append key => (load file).trust key.1
  | .rewrite edits => edited file edits

/-- An append adds its key, and a key that is written is not empty. -/
def Writes (file : Option String) : KeyWrite → Prop
  | .append key => Appends file key.1
  | .rewrite edits => "" ∉ (edited file edits).keys

theorem readable_of_mem_edited {edits : List KeyEdit} (h : k ∈ (edited file edits).keys) :
    Readable k ∨ k = "" := by
  induction edits using List.reverseRecOn generalizing k with
  | nil => exact .inl (readable_of_mem_load h)
  | append_singleton edits e ih =>
    rw [edited, List.foldl_append] at h
    cases e with
    | trust key =>
      rcases ExtTreeSet.mem_insert.mp h with heq | hold
      · obtain rfl := Std.compare_eq_iff_eq.mp heq
        by_cases hne : key.1 = ""
        · exact .inr hne
        · exact .inl (readable_of_keyText key.2 hne)
      · exact ih hold
    | revoke key => exact ih (ExtTreeSet.mem_of_mem_erase h)

theorem load_step_iff (write : KeyWrite) :
    load (step file write) = intended file write ↔ Writes file write := by
  cases write with
  | append key =>
    have hkeys : load (appendToFile file key.1) = (load file).trust key.1 ↔ Appends file key.1 := by
      rw [← load_appendToFile_iff key.2]
      exact ⟨congrArg keys, fun h => congrArg TrustedKeyStore.mk h⟩
    exact hkeys
  | rewrite edits => exact fromText_toText_iff fun _ => readable_of_mem_edited

/-- The file of trusted keys, exactly: an append adds its key when the key is
there or meets a blank last line, and is idempotent just then; what is written
as a whole is read back when no key is empty; and along a run the keys of the
file are what every write says when each write is of this kind. -/
theorem trusted_keys_kept_iff (file : Option String) (key : {k : String // KeyText k})
    (store : TrustedKeyStore) (writes : List KeyWrite) :
    ((load (appendToFile file key.1)).keys = (load file).keys.insert key.1 ↔
      Appends file key.1) ∧
    (appendToFile (appendToFile file key.1) key.1 = appendToFile file key.1 ↔
      Appends file key.1) ∧
    ((∀ k ∈ store.keys, KeyText k) → (fromText store.toText = store ↔ "" ∉ store.keys)) ∧
    (Along step (fun file write => load (step file write) = intended file write) file writes ↔
      Along step Writes file writes) := by
  refine ⟨load_appendToFile_iff key.2, appendToFile_idem_iff key.2, ?_, ?_⟩
  · intro hkeys
    apply fromText_toText_iff
    intro k hk
    by_cases hne : k = ""
    · exact .inr hne
    · exact .inl (readable_of_keyText (hkeys k hk) hne)
  · exact along_congr_inv (fun _ => True) trivial (fun _ _ _ => trivial)
      fun _ write _ => load_step_iff write

/-- A key appended to a file that was written as a whole: both keys are gone,
and their run is trusted instead. -/
theorem append_merges_keys :
    appendToFile (some (new.trust "key1").toText) "key2" = some "key1key2\n" ∧
      (load (some "key1key2\n")).isTrusted "key1" = false ∧
      (load (some "key1key2\n")).isTrusted "key2" = false ∧
      (load (some "key1key2\n")).isTrusted "key1key2" = true := by
  decide +kernel

end TrustedKeyStore

end ConquerD.Features
