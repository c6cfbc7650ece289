import ConquerD.Client.Verify.FileStates

/-!
# The names of received files

The name a peer gives is made safe, and what is safe is left alone. With a transfer id
that is itself a plain name both paths of a transfer are one component below the download
directory. The renamed file is new there, unless the name and all its numbered variants
are taken.
-/

namespace ConquerD.Client

open Std (ExtTreeMap)
open Lib.Text Lib.Chunks

/-! ## Components -/

/-- No separator of either platform, and no alternate stream. -/
def PlainName (name : List Char) : Prop :=
  ∀ c ∈ name, isSeparator c = false ∧ c ≠ ':'

instance (name : List Char) : Decidable (PlainName name) :=
  List.decidableBAll (fun c => isSeparator c = false ∧ c ≠ ':') name

/-- A component that names something in its directory. -/
structure NormalComponent (name : String) : Prop where
  plain : PlainName name.toList
  ne_empty : name ≠ ""
  ne_current : name ≠ "."
  ne_parent : name ≠ ".."

/-- One normal component below a directory. -/
def Below (dir path : String) : Prop :=
  ∃ name, path = joinPath dir name ∧ NormalComponent name

section Components

variable {dir name : String} {cs ds : List Char}

theorem PlainName.subset (h : PlainName cs) (hsub : ∀ c ∈ ds, c ∈ cs) : PlainName ds :=
  fun c hc => h c (hsub c hc)

theorem PlainName.append (hcs : PlainName cs) (hds : PlainName ds) : PlainName (cs ++ ds) := by
  intro c hc
  rcases List.mem_append.mp hc with hc | hc
  · exact hcs c hc
  · exact hds c hc

theorem PlainName.normal (h : PlainName name.toList) {c : Char} (hc : c ∈ name.toList)
    (hne : c ≠ '.') : NormalComponent name := by
  refine ⟨h, ?_, ?_, ?_⟩
  · rintro rfl
    cases hc
  · rintro rfl
    exact hne (List.mem_singleton.mp hc)
  · rintro rfl
    have hdots : c ∈ ['.', '.'] := hc
    simp only [List.mem_cons, List.not_mem_nil, or_false, or_self] at hdots
    exact hne hdots

theorem toList_joinPath (dir name : String) :
    (joinPath dir name).toList = dir.toList ++ '/' :: name.toList := by
  simp [joinPath]

theorem below_joinPath_iff : Below dir (joinPath dir name) ↔ NormalComponent name := by
  constructor
  · rintro ⟨name', heq, hname'⟩
    have hchars := congrArg String.toList heq
    rw [toList_joinPath, toList_joinPath, List.append_cancel_left_eq, List.cons.injEq] at hchars
    rwa [String.toList_inj.mp hchars.2]
  · intro hname
    exact ⟨name, rfl, hname⟩

theorem parentDir_joinPath (h : '/' ∉ name.toList) : parentDir (joinPath dir name) = some dir := by
  have hrest : (joinPath dir name).toList.rdropWhile (· != '/') = dir.toList ++ ['/'] := by
    have hrev : (dir.toList ++ '/' :: name.toList).reverse =
        name.toList.reverse ++ '/' :: dir.toList.reverse := by simp
    rw [toList_joinPath, List.rdropWhile, hrev, List.dropWhile_append_of_pos]
    · simp
    · intro c hc
      have hne : c ≠ '/' := fun heq => h (heq ▸ List.mem_reverse.mp hc)
      simpa using hne
  simp [parentDir, hrest]

end Components

/-! ## Safe names -/

/-- What is left of a name that is made safe. -/
structure SafeName (name : List Char) : Prop where
  plain : PlainName name
  ne_nil : name ≠ []
  last : ∀ h : name ≠ [], name.getLast h ≠ '.' ∧ name.getLast h ≠ ' '
  noDevice : isReservedDeviceName (name.takeWhile (· != '.')) = false

theorem isReservedDeviceName_underscore (cs : List Char) :
    isReservedDeviceName ('_' :: cs) = false := by
  rw [isReservedDeviceName, List.any_eq_false]
  intro r hr heq
  have hhead : ∀ r ∈ reservedDeviceNames, (r.toList.map Char.toLower).head? ≠ some '_' := by
    decide
  refine hhead r hr ?_
  rw [beq_iff_eq.mp heq]
  rfl

section Safe

variable {cs : List Char}

theorem SafeName.underscore (hplain : PlainName cs) (hne : cs ≠ [])
    (hlast : ∀ h : cs ≠ [], cs.getLast h ≠ '.' ∧ cs.getLast h ≠ ' ') : SafeName ('_' :: cs) := by
  refine ⟨?_, List.cons_ne_nil _ _, ?_, ?_⟩
  · exact PlainName.append (by decide : PlainName ['_']) hplain
  · intro h
    rw [List.getLast_cons hne]
    exact hlast hne
  · exact isReservedDeviceName_underscore _

theorem safeFileName_base (relPath : String) :
    ∃ base, PlainName base ∧
      (∀ h : base ≠ [], base.getLast h ≠ '.' ∧ base.getLast h ≠ ' ') ∧
      safeFileName relPath =
        if base = [] ∨ base = ['.'] ∨ base = ['.', '.'] then "received_file"
        else if isReservedDeviceName (base.takeWhile (· != '.')) then "_" ++ String.ofList base
        else String.ofList base := by
  refine ⟨_, ?_, ?_, rfl⟩
  · intro c hc
    have hcut := (List.rdropWhile_prefix _ _).subset hc
    have hcolon := List.mem_takeWhile_imp hcut
    have hsep := List.mem_rtakeWhile_imp ((List.takeWhile_prefix _).subset hcut)
    exact ⟨by simpa using hsep, by simpa using hcolon⟩
  · intro h
    simpa using List.rdropWhile_last_not _ _ h

theorem safe_safeFileName (relPath : String) : SafeName (safeFileName relPath).toList := by
  obtain ⟨base, hplain, hlast, heq⟩ := safeFileName_base relPath
  rw [heq]
  split
  · refine ⟨by decide, by decide, fun h => ?_, by decide⟩
    rw [show "received_file".toList.getLast h = 'e' from rfl]
    decide
  · next hdots =>
    have hne : base ≠ [] := fun h => hdots (.inl h)
    split
    · have hchars : ("_" ++ String.ofList base).toList = '_' :: base := by simp
      rw [hchars]
      exact .underscore hplain hne hlast
    · next hdevice =>
      rw [String.toList_ofList]
      exact ⟨hplain, hne, hlast, by simpa using hdevice⟩

theorem safeFileName_eq_self {name : String} (h : SafeName name.toList) :
    safeFileName name = name := by
  have hsep : name.toList.rdropWhile isSeparator = name.toList :=
    List.rdropWhile_eq_self_iff.mpr fun hne => by simp [(h.plain _ (List.getLast_mem hne)).1]
  have hwhole : (name.toList.rtakeWhile fun c => !isSeparator c) = name.toList :=
    List.rtakeWhile_eq_self_iff.mpr fun c hc => by simp [(h.plain c hc).1]
  have hcolon : name.toList.takeWhile (· != ':') = name.toList :=
    List.takeWhile_eq_self_iff.mpr fun c hc => by simp [(h.plain c hc).2]
  have hend : (name.toList.rdropWhile fun c => c == '.' || c == ' ') = name.toList :=
    List.rdropWhile_eq_self_iff.mpr fun hne => by simp [h.last hne]
  have hdots : ¬ (name.toList = [] ∨ name.toList = ['.'] ∨ name.toList = ['.', '.']) := by
    have hlast := h.last
    rintro (hnil | hdot | hparent)
    · exact h.ne_nil hnil
    · rw [hdot] at hlast
      exact (hlast (by decide)).1 rfl
    · rw [hparent] at hlast
      exact (hlast (by decide)).1 rfl
  unfold safeFileName
  simp only [hsep, hwhole, hcolon, hend, if_neg hdots, h.noDevice, Bool.false_eq_true, if_false,
    String.ofList_toList]

theorem SafeName.normal {name : String} (h : SafeName name.toList) : NormalComponent name :=
  h.plain.normal (List.getLast_mem h.ne_nil) (h.last h.ne_nil).1

end Safe

/-! ## The partial file -/

theorem toList_partName (relPath transferId : String) :
    (safeFileName relPath ++ "." ++ transferId ++ ".part").toList =
      (safeFileName relPath).toList ++ '.' :: (transferId.toList ++ ".part".toList) := by
  simp

theorem below_partPath_iff (env : FileEnv) (relPath transferId : String) :
    Below env.downloadDir (partPath env relPath transferId) ↔ PlainName transferId.toList := by
  rw [partPath, below_joinPath_iff]
  constructor
  · intro hname
    refine hname.plain.subset fun c hc => ?_
    rw [toList_partName]
    simp [hc]
  · intro hid
    refine PlainName.normal (c := 'p') ?_ ?_ (by decide)
    · rw [toList_partName]
      refine (safe_safeFileName relPath).plain.append ?_
      exact PlainName.append (by decide : PlainName ['.'])
        (hid.append (by decide : PlainName ".part".toList))
    · rw [toList_partName]
      simp

theorem parentDir_partPath (env : FileEnv) {relPath transferId : String}
    (hid : PlainName transferId.toList) :
    parentDir (partPath env relPath transferId) = some env.downloadDir := by
  obtain ⟨name, heq, hname⟩ := (below_partPath_iff env relPath transferId).mpr hid
  rw [heq]
  refine parentDir_joinPath fun hslash => ?_
  exact absurd (hname.plain _ hslash).1 (by decide)

/-! ## The name of the finished file -/

/-- The names that are tried, in order. -/
def destNames (fileName : String) : List String :=
  fileName :: (List.range 9999).map fun n => numberedName fileName (n + 1)

section Dest

variable {disk : Disk} {dir fileName : String}

theorem plain_splitExtension (h : PlainName fileName.toList) :
    PlainName (splitExtension fileName).1.toList ∧
      ∀ ext, (splitExtension fileName).2 = some ext → PlainName ext.toList := by
  simp only [splitExtension]
  split
  · exact ⟨h, nofun⟩
  · refine ⟨?_, ?_⟩
    · rw [String.toList_ofList]
      exact h.subset fun c hc =>
        (List.rdropWhile_prefix _ _).subset (List.dropLast_subset _ hc)
    · rintro ext ⟨⟩
      rw [String.toList_ofList]
      exact h.subset fun c hc => (List.rtakeWhile_suffix _ _).subset hc

theorem plain_toString (n : Nat) : PlainName (toString n).toList := by
  intro c hc
  refine ⟨?_, ?_⟩
  · rw [isSeparator, Bool.or_eq_false_iff]
    refine ⟨beq_eq_false_iff_ne.mpr ?_, beq_eq_false_iff_ne.mpr ?_⟩
    · rintro rfl
      exact notMem_toString_of_not_isDigit (by decide) n hc
    · rintro rfl
      exact notMem_toString_of_not_isDigit (by decide) n hc
  · rintro rfl
    exact notMem_toString_of_not_isDigit (by decide) n hc

theorem normal_numberedName (h : PlainName fileName.toList) (n : Nat) :
    NormalComponent (numberedName fileName n) := by
  obtain ⟨hstem, hext⟩ := plain_splitExtension h
  unfold numberedName
  generalize splitExtension fileName = parts at hstem hext
  obtain ⟨stem, ext⟩ := parts
  have hnumber : PlainName (" (".toList ++ ((toString n).toList ++ ")".toList)) :=
    PlainName.append (by decide) ((plain_toString n).append (by decide))
  cases ext with
  | none =>
    refine PlainName.normal (c := '(') ?_ ?_ (by decide)
    · have hname := hstem.append hnumber
      simpa using hname
    · simp
  | some ext =>
    refine PlainName.normal (c := '(') ?_ ?_ (by decide)
    · have hname := hstem.append (hnumber.append
        (PlainName.append (by decide : PlainName ['.']) (hext ext rfl)))
      simpa using hname
    · simp

theorem normal_of_mem_destNames (h : SafeName fileName.toList) {name : String}
    (hname : name ∈ destNames fileName) : NormalComponent name := by
  rcases List.mem_cons.mp hname with rfl | hnumbered
  · exact h.normal
  · obtain ⟨n, -, rfl⟩ := List.mem_map.mp hnumbered
    exact normal_numberedName h.plain _

theorem uniqueDestPath_eq (disk : Disk) (dir fileName : String) :
    uniqueDestPath disk dir fileName =
      (((destNames fileName).map (joinPath dir)).find? fun p => !disk.contains p).getD
        (joinPath dir fileName) := by
  unfold uniqueDestPath destNames
  rw [List.map_cons, List.find?_cons, List.map_map]
  split
  · next hfree => simp only [hfree, Option.getD_some]
  · next htaken =>
    simp only [htaken]
    rfl

theorem uniqueDestPath_mem (disk : Disk) (dir fileName : String) :
    ∃ name ∈ destNames fileName, uniqueDestPath disk dir fileName = joinPath dir name := by
  rw [uniqueDestPath_eq]
  cases hfind : ((destNames fileName).map (joinPath dir)).find? fun p => !disk.contains p with
  | none => exact ⟨fileName, List.mem_cons_self, rfl⟩
  | some path =>
    obtain ⟨name, hname, rfl⟩ := List.mem_map.mp (List.mem_of_find?_eq_some hfind)
    exact ⟨name, hname, rfl⟩

theorem contains_uniqueDestPath_iff :
    disk.contains (uniqueDestPath disk dir fileName) = true ↔
      ∀ name ∈ destNames fileName, disk.contains (joinPath dir name) = true := by
  constructor
  · intro htaken name hname
    rw [uniqueDestPath_eq] at htaken
    cases hfind : ((destNames fileName).map (joinPath dir)).find? fun p => !disk.contains p with
    | none =>
      have hall := List.find?_eq_none.mp hfind _ (List.mem_map_of_mem hname)
      simpa using hall
    | some path =>
      rw [hfind, Option.getD_some] at htaken
      have hfree := List.find?_some hfind
      rw [htaken] at hfree
      cases hfree
  · intro hall
    obtain ⟨name, hname, heq⟩ := uniqueDestPath_mem disk dir fileName
    rw [heq]
    exact hall name hname

end Dest

/-! ## Transfers -/

theorem promotePartFile_eq_ok_iff {env : FileEnv} {disk disk' : Disk} {part relPath dest : String} :
    promotePartFile env disk part relPath = .ok (disk', dest) ↔
      env.canRename = true ∧
      dest = uniqueDestPath disk ((parentDir part).getD env.downloadDir) (safeFileName relPath) ∧
      ∃ content, disk[part]? = some content ∧ disk' = (disk.erase part).insert dest content := by
  unfold promotePartFile
  cases hcontent : disk[part]? with
  | none => simp
  | some content =>
    cases env.canRename with
    | false => simp
    | true =>
      simp only [if_true, Except.ok.injEq, Prod.mk.injEq, true_and, Option.some.injEq,
        exists_eq_left']
      constructor
      · rintro ⟨rfl, rfl⟩
        exact ⟨rfl, rfl⟩
      · rintro ⟨rfl, rfl⟩
        exact ⟨rfl, rfl⟩

/-- The name a peer gives is made safe. For a transfer whose id is a plain name both the
partial file and the renamed file are one normal component below the download directory,
and the renamed file is new there, unless all names that are tried are taken. -/
theorem received_below (relPath : String) :
    safeFileName (safeFileName relPath) = safeFileName relPath ∧
    safeFileName relPath ≠ "" ∧
    isReservedDeviceName ((safeFileName relPath).toList.takeWhile (· != '.')) = false ∧
    ∀ (transferId : String), PlainName transferId.toList →
      ∀ (env env' : FileEnv) (disk disk₁ disk' : Disk) (part : String),
        openPartFile env disk relPath transferId = .ok (disk₁, part) →
        Below env.downloadDir part ∧
        ∀ (disk₂ : Disk) (dest : String),
          promotePartFile env' disk' part relPath = .ok (disk₂, dest) →
          Below env.downloadDir dest ∧
          (disk'.contains dest = true ↔ ∀ name ∈ destNames (safeFileName relPath),
            disk'.contains (joinPath env.downloadDir name) = true) := by
  have hsafe := safe_safeFileName relPath
  refine ⟨safeFileName_eq_self hsafe, hsafe.normal.ne_empty, hsafe.noDevice, ?_⟩
  intro transferId hid env env' disk disk₁ disk' part hopen
  have hpart : part = partPath env relPath transferId := by
    unfold openPartFile at hopen
    split at hopen
    · cases hopen
      rfl
    · cases hopen
  subst hpart
  refine ⟨(below_partPath_iff env relPath transferId).mpr hid, ?_⟩
  intro disk₂ dest hpromote
  obtain ⟨-, hdest, -⟩ := promotePartFile_eq_ok_iff.mp hpromote
  rw [parentDir_partPath env hid, Option.getD_some] at hdest
  subst hdest
  refine ⟨?_, contains_uniqueDestPath_iff⟩
  obtain ⟨name, hname, heq⟩ := uniqueDestPath_mem disk' env.downloadDir (safeFileName relPath)
  rw [heq]
  exact below_joinPath_iff.mpr (normal_of_mem_destNames hsafe hname)

/-- A disk with a received file on it that waits for its name. -/
def waiting : Disk :=
  (∅ : Disk).insert "/downloads/hi.txt.u.part" hiBytes

theorem received_below_hi : Below "/downloads" "/downloads/hi.txt.u.part" ∧
    Below "/downloads" "/downloads/hi.txt" ∧ waiting.contains "/downloads/hi.txt" = false := by
  have hopen : openPartFile hiEnv ∅ "../hi.txt:x" "u" =
      .ok ((∅ : Disk).insert "/downloads/hi.txt.u.part" [], "/downloads/hi.txt.u.part") := by
    decide +kernel
  have hpromote : promotePartFile hiEnv waiting "/downloads/hi.txt.u.part" "../hi.txt:x" =
      .ok ((∅ : Disk).insert "/downloads/hi.txt" hiBytes, "/downloads/hi.txt") := by
    decide +kernel
  obtain ⟨-, -, -, hbelow⟩ := received_below "../hi.txt:x"
  obtain ⟨hpart, hdest⟩ := hbelow "u" (by decide) hiEnv hiEnv ∅ _ waiting _ hopen
  exact ⟨hpart, (hdest _ _ hpromote).1, by decide +kernel⟩

/-- A large file under an id that climbs. -/
def climbingOffer : FileTransferManager.OfferFields :=
  { hiOffer "file" "00" with
    transferId := "/../../u"
    size := inlineMax + 1 }

/-- The names for `hi.txt` are all taken. -/
def crowded : Disk :=
  .ofList ((partPath hiEnv "hi.txt" "u" ::
    (destNames "hi.txt").map (joinPath hiEnv.downloadDir)).map fun path => (path, hiBytes))

theorem contains_crowded {path : String} (h : path ∈ partPath hiEnv "hi.txt" "u" ::
    (destNames "hi.txt").map (joinPath hiEnv.downloadDir)) : crowded.contains path = true := by
  rw [crowded, ExtTreeMap.contains_ofList, List.map_map]
  simpa using h

/-- A peer's id leads out of the download directory. Where all names are taken a
finished file replaces another. -/
theorem climbs_and_replaces :
    (∃ disk path sink,
      FileTransferManager.offerSink hiEnv ∅ climbingOffer = .ok (disk, sink) ∧
      openPartFile hiEnv ∅ climbingOffer.relPath climbingOffer.transferId = .ok (disk, path) ∧
      path = "/downloads/hi.txt./../../u.part" ∧ ¬ Below hiEnv.downloadDir path) ∧
    ∃ disk dest,
      promotePartFile hiEnv crowded (partPath hiEnv "hi.txt" "u") "hi.txt" = .ok (disk, dest) ∧
      crowded.contains dest = true := by
  refine ⟨?_, ?_⟩
  · have hopen : openPartFile hiEnv ∅ climbingOffer.relPath climbingOffer.transferId =
        .ok ((∅ : Disk).insert (partPath hiEnv "hi.txt" "/../../u") [],
          partPath hiEnv "hi.txt" "/../../u") := rfl
    have hsink : FileTransferManager.offerSink hiEnv ∅ climbingOffer =
        .ok ((∅ : Disk).insert (partPath hiEnv "hi.txt" "/../../u") [],
          .partFile true (partPath hiEnv "hi.txt" "/../../u") [false] 0) := by
      have hsize : ¬ climbingOffer.size > maxTransferSize := by decide
      have hcount : ¬ (climbingOffer.totalChunks = 0 ∨
          climbingOffer.totalChunks > chunkCount chunkSize climbingOffer.size + 1) := by decide
      have hlarge : climbingOffer.size > inlineMax ∧ !climbingOffer.compressed ∧
          !climbingOffer.isDelta := by decide
      unfold FileTransferManager.offerSink
      rw [if_neg hsize, if_neg hcount, if_pos hlarge, hopen]
      rfl
    refine ⟨_, _, _, hsink, hopen, by decide +kernel, fun hbelow => ?_⟩
    exact absurd ((below_partPath_iff _ _ _).mp hbelow) (by decide)
  · have htaken : ∀ name ∈ destNames "hi.txt",
        crowded.contains (joinPath hiEnv.downloadDir name) = true :=
      fun name hname => contains_crowded (List.mem_cons_of_mem _ (List.mem_map_of_mem hname))
    have hparent : parentDir (partPath hiEnv "hi.txt" "u") = some hiEnv.downloadDir :=
      parentDir_partPath hiEnv (by decide)
    have hsafe : safeFileName "hi.txt" = "hi.txt" := by decide +kernel
    obtain ⟨content, hcontent⟩ : ∃ content, crowded[partPath hiEnv "hi.txt" "u"]? = some content :=
      ⟨_, ExtTreeMap.getElem?_eq_some_getElem
        (ExtTreeMap.mem_iff_contains.mpr (contains_crowded List.mem_cons_self))⟩
    refine ⟨_, _, promotePartFile_eq_ok_iff.mpr ⟨rfl, rfl, content, hcontent, rfl⟩, ?_⟩
    rw [hparent, hsafe, Option.getD_some]
    exact contains_uniqueDestPath_iff.mpr htaken

end ConquerD.Client
