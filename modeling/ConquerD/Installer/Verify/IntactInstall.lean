import ConquerD.Installer.Verify.StableManifest
import ConquerD.Lib.Run

/-!
# Installed versions stay intact

A finished flow is to leave the current version listed, with a directory that
holds the extracted files and a manifest of their hashes, and a failed one is to
leave the directory of the version before as it was. This holds in runs in which
no flow installs a version that is listed and not current, or one whose directory
lies in another or around it, nothing is extracted over files of another build,
every finished flow writes its manifest, and no flow fails half-way over the
current version.
-/

namespace ConquerD.Installer

open Std (ExtTreeMap)
open Lib.Encoding Lib.Run Wire

/-! ## Paths and directories -/

theorem versionDir_injective (baseDir : String) : Function.Injective (versionDir baseDir) := by
  intro v w h
  have hlist := congrArg String.toList h
  simp only [versionDir, String.toList_append] at hlist
  exact String.toList_inj.mp (List.append_cancel_left hlist)

theorem getElem?_putEntries (entries : List (String × Bytes)) (files : Files) (k : String) :
    (putEntries files entries)[k]? = (entries.reverse.lookup k).or files[k]? := by
  induction entries generalizing files with
  | nil => rfl
  | cons e entries ih =>
    have hstep : putEntries files (e :: entries) = putEntries (files.insert e.1 e.2) entries := rfl
    rw [hstep, ih, List.reverse_cons, List.lookup_append, ExtTreeMap.getElem?_insert]
    obtain ⟨name, data⟩ := e
    cases hlast : entries.reverse.lookup k with
    | some b => rfl
    | none =>
      by_cases hk : name = k
      · subst hk
        simp
      · have hne : (k == name) = false := beq_eq_false_iff_ne.mpr (Ne.symm hk)
        have hcmp : ¬ compare name k = .eq := fun h => hk (Std.compare_eq_iff_eq.mp h)
        simp [List.lookup_cons, hne, hcmp]

/-- Removal of the directories of old versions, as far as it goes. -/
def removeDirs (T : Tools) (f : Faults) (old : List InstalledVersion)
    (dirs : ExtTreeMap String Files) : ExtTreeMap String Files :=
  (old.map (·.path)).foldl (removeDirAll T f) dirs

theorem getElem?_removeDirs {T : Tools} {f : Faults} {old : List InstalledVersion} {path : String}
    (dirs : ExtTreeMap String Files) (h : ∀ o ∈ old, T.within path o.path = false) :
    (removeDirs T f old dirs)[path]? = dirs[path]? := by
  induction old generalizing dirs with
  | nil => rfl
  | cons o old ih =>
    have hone : (removeDirAll T f dirs o.path)[path]? = dirs[path]? := by
      rw [removeDirAll, ExtTreeMap.getElem?_filterMap']
      simp only [h o List.mem_cons_self, Bool.false_eq_true, if_false, Option.bind_fun_some]
    rw [removeDirs, List.map_cons, List.foldl_cons]
    exact (ih _ fun p hp => h p (List.mem_cons_of_mem _ hp)).trans hone

theorem erase_insert_self (files : Files) (k : String) (data : Bytes) :
    (files.insert k data).erase k = files.erase k := by
  apply ExtTreeMap.ext_getElem?
  intro a
  rw [ExtTreeMap.getElem?_erase, ExtTreeMap.getElem?_erase, ExtTreeMap.getElem?_insert]
  split <;> rfl

/-! ## Placing a version -/

/-- What a flow installs once it has an archive. -/
structure Placement where
  version : String
  archive : Bytes
  withManifest : Bool
  nightly : InstallState → Bool
  archiveSha256 : InstallState → String
  launch : Bool

section Placement

variable (T : Tools) (cfg : Settings) (disk : Disk) (p : Placement)

def Placement.run : Result :=
  let r := extractVersion T cfg disk p.version p.archive p.withManifest
  if !r.ok then r
  else
    match readState cfg.faults r.disk with
    | none => ⟨r.disk, false⟩
    | some st => recordVersion T cfg r.disk st p.version (p.nightly st) (p.archiveSha256 st) p.launch

/-- What the version's directory holds before. -/
def Placement.before : Files :=
  disk.dirs[versionDir cfg.baseDir p.version]?.getD ∅

/-- Every entry of the archive is written, and the result passes. -/
structure Placement.Extracts : Prop where
  createDir : cfg.faults.createDir = false
  extract : cfg.faults.extract = none
  safe : ∀ e ∈ (T.unpack p.archive).entries, entryNameIsSafe e.1 = true
  decodes : (T.unpack p.archive).decodes = true
  layout : T.bundleLayoutOk
    (putEntries (p.before cfg disk) (T.unpack p.archive).entries) = true
  hashFiles : cfg.faults.hashFiles = false
  manifest : p.withManifest = true → cfg.faults.manifest = none

/-- No step of the flow fails. -/
structure Placement.Completes : Prop extends p.Extracts T cfg disk where
  readState : readState cfg.faults disk ≠ none
  writeState : cfg.faults.writeState = none
  selfCopy : cfg.faults.selfCopy = false
  shortcuts : (cfg.faults.shortcuts && !cfg.noShortcuts) = false
  launch : (cfg.faults.launch && p.launch) = false

/-- The flow gets to the state and writes it, whatever comes after. -/
def Placement.writes : Bool :=
  (extractVersion T cfg disk p.version p.archive p.withManifest).ok &&
    (readState cfg.faults disk).isSome && cfg.faults.writeState.isNone

/-- The files of the directory after extraction. -/
def Placement.extracted : Files :=
  let files := putEntries (p.before cfg disk) (T.unpack p.archive).entries
  if p.withManifest then files.insert manifestName (T.writeManifest (collectFiles T files))
  else files

variable {T cfg disk p}

theorem writtenEntries_of_safe {f : Faults} {archive : Archive} (hextract : f.extract = none)
    (hsafe : ∀ e ∈ archive.entries, entryNameIsSafe e.1 = true) :
    writtenEntries f archive = archive.entries := by
  have htake : archive.entries.takeWhile (fun e => entryNameIsSafe e.1) = archive.entries :=
    List.takeWhile_eq_self_iff.mpr hsafe
  rw [writtenEntries, hextract, htake]

/-- Extraction goes through, or it leaves something behind in the one directory. -/
theorem extractVersion_cases (T : Tools) (cfg : Settings) (disk : Disk) (p : Placement) :
    (p.Extracts T cfg disk ∧ extractVersion T cfg disk p.version p.archive p.withManifest =
        ⟨{ disk with
            dirs := disk.dirs.insert (versionDir cfg.baseDir p.version) (p.extracted T cfg disk) },
          true⟩) ∨
      ¬ p.Extracts T cfg disk ∧ ((cfg.faults.createDir = true ∧
          extractVersion T cfg disk p.version p.archive p.withManifest = ⟨disk, false⟩) ∨
        (cfg.faults.createDir = false ∧ ∃ files,
          extractVersion T cfg disk p.version p.archive p.withManifest =
          ⟨{ disk with dirs := disk.dirs.insert (versionDir cfg.baseDir p.version) files },
            false⟩)) := by
  by_cases hdir : cfg.faults.createDir = true
  · refine .inr ⟨fun h => ?_, .inl ⟨hdir, by rw [extractVersion, if_pos hdir]⟩⟩
    exact absurd (h.createDir.symm.trans hdir) (by decide)
  · have hdir' : cfg.faults.createDir = false := Bool.eq_false_iff.mpr hdir
    have hbefore : disk.dirs[versionDir cfg.baseDir p.version]?.getD ∅ = p.before cfg disk := rfl
    rw [extractVersion, if_neg hdir, hbefore]
    by_cases hok : (extract7z T cfg.faults p.archive (p.before cfg disk)).2 = true
    · have hparts := hok
      simp only [extract7z, Bool.and_eq_true, Option.isNone_iff_eq_none, List.all_eq_true,
        Bool.not_eq_true'] at hparts
      obtain ⟨⟨⟨⟨hextract, hsafe⟩, hdecodes⟩, hlayout⟩, hhash⟩ := hparts
      have hwritten := writtenEntries_of_safe hextract hsafe
      have hfiles : (extract7z T cfg.faults p.archive (p.before cfg disk)).1 =
          putEntries (p.before cfg disk) (T.unpack p.archive).entries := by
        rw [extract7z, hwritten]
      rw [hwritten] at hlayout
      simp only [hok, Bool.not_true, Bool.false_eq_true, if_false, hfiles]
      by_cases hmanifest : p.withManifest = true
      · cases hfault : cfg.faults.manifest with
        | none =>
          refine .inl ⟨⟨hdir', hextract, hsafe, hdecodes, hlayout, hhash, fun _ => hfault⟩, ?_⟩
          simp [hmanifest, Placement.extracted]
        | some torn =>
          refine .inr ⟨fun h => ?_, .inr ⟨hdir', _, by simp only [hmanifest]; rfl⟩⟩
          exact absurd ((h.manifest hmanifest).symm.trans hfault) nofun
      · have hmanifest' : p.withManifest = false := Bool.eq_false_iff.mpr hmanifest
        refine .inl ⟨⟨hdir', hextract, hsafe, hdecodes, hlayout, hhash,
          fun h => absurd h hmanifest⟩, ?_⟩
        simp [hmanifest', Placement.extracted]
    · have hok' : (extract7z T cfg.faults p.archive (p.before cfg disk)).2 = false :=
        Bool.eq_false_iff.mpr hok
      refine .inr ⟨fun h => hok ?_, .inr ⟨hdir', _, by simp only [hok']; rfl⟩⟩
      simp only [extract7z, writtenEntries_of_safe h.extract h.safe, h.extract, h.decodes, h.layout, h.hashFiles,
        Option.isNone_none, Bool.and_true, Bool.true_and, Bool.not_false, List.all_eq_true]
      exact h.safe

/-- The state that is written in the end. -/
def Placement.finished (p : Placement) (cfg : Settings) (st : InstallState) : InstallState :=
  { (st.dropOld.addVersion p.version (versionDir cfg.baseDir p.version) cfg.now).setChannel
      (p.nightly st) with archiveSha256 := p.archiveSha256 st }

/-- What placing a version can come to. -/
inductive Placement.Outcome (T : Tools) (cfg : Settings) (disk : Disk) (p : Placement) :
    Result → Prop
  | notStarted (createDir : cfg.faults.createDir = true) (writes : p.writes T cfg disk = false) :
    Outcome T cfg disk p ⟨disk, false⟩
  | stopped (files : Files) (createDir : cfg.faults.createDir = false)
      (writes : p.writes T cfg disk = false) :
    Outcome T cfg disk p
      ⟨{ disk with dirs := disk.dirs.insert (versionDir cfg.baseDir p.version) files }, false⟩
  | unwritten (st : InstallState) (torn : Bool) (extracts : p.Extracts T cfg disk)
      (read : readState cfg.faults disk = some st) (write : cfg.faults.writeState = some torn)
      (writes : p.writes T cfg disk = false) :
    Outcome T cfg disk p
      ⟨⟨removeDirs T cfg.faults st.oldVersions
          (disk.dirs.insert (versionDir cfg.baseDir p.version) (p.extracted T cfg disk)),
        if torn then some none else disk.stateFile⟩, false⟩
  | written (st : InstallState) (ok : Bool) (extracts : p.Extracts T cfg disk)
      (read : readState cfg.faults disk = some st) (write : cfg.faults.writeState = none)
      (writes : p.writes T cfg disk = true) :
    Outcome T cfg disk p
      ⟨⟨removeDirs T cfg.faults st.oldVersions
          (disk.dirs.insert (versionDir cfg.baseDir p.version) (p.extracted T cfg disk)),
        some (some (p.finished cfg st))⟩, ok⟩

/-- The flow comes to one of these, and goes through just when no step fails. -/
theorem Placement.outcome_run (T : Tools) (cfg : Settings) (disk : Disk) (p : Placement) :
    p.Outcome T cfg disk (p.run T cfg disk) ∧
      ((p.run T cfg disk).ok = true ↔ p.Completes T cfg disk) := by
  rw [Placement.run]
  rcases extractVersion_cases T cfg disk p with
    ⟨hextracts, hr⟩ | ⟨hextracts, ⟨hdir, hr⟩ | ⟨hdir, files, hr⟩⟩
  · rw [hr]
    simp only [Bool.not_true, Bool.false_eq_true, if_false]
    have hsame : ∀ dirs, readState cfg.faults { disk with dirs := dirs } =
        readState cfg.faults disk := fun _ => rfl
    rw [hsame]
    cases hread : readState cfg.faults disk with
    | none =>
      have hwrites : p.writes T cfg disk = false := by simp [Placement.writes, hread]
      exact ⟨.stopped _ hextracts.createDir hwrites, nofun, fun h => absurd hread h.readState⟩
    | some st =>
      simp only [recordVersion]
      cases hwrite : cfg.faults.writeState with
      | some torn =>
        have hwrites : p.writes T cfg disk = false := by simp [Placement.writes, hwrite]
        exact ⟨.unwritten st torn hextracts hread hwrite hwrites, nofun,
          fun h => absurd (h.writeState.symm.trans hwrite) nofun⟩
      | none =>
        have hwrites : p.writes T cfg disk = true := by simp [Placement.writes, hr, hread, hwrite]
        refine ⟨.written st _ hextracts hread hwrite hwrites, ?_⟩
        rw [Bool.not_eq_true', Bool.or_eq_false_iff, Bool.or_eq_false_iff]
        constructor
        · rintro ⟨⟨hcopy, hshortcuts⟩, hlaunch⟩
          exact ⟨hextracts, by rw [hread]; nofun, hwrite, hcopy, hshortcuts, hlaunch⟩
        · intro h
          exact ⟨⟨h.selfCopy, h.shortcuts⟩, h.launch⟩
  · have hwrites : p.writes T cfg disk = false := by simp [Placement.writes, hr]
    rw [hr]
    exact ⟨.notStarted hdir hwrites, nofun, fun h => absurd h.toExtracts hextracts⟩
  · have hwrites : p.writes T cfg disk = false := by simp [Placement.writes, hr]
    rw [hr]
    exact ⟨.stopped files hdir hwrites, nofun, fun h => absurd h.toExtracts hextracts⟩

end Placement

/-! ## The flows as placements -/

inductive InstallFlow where
  | silent (archiveStem : String) (archive : Bytes)
  | update (net : Net) (launchAfter updateInstaller : Bool)
  | download (net : Net) (nightly : Bool)
  | localArchive (archiveStem : String) (archive : Bytes) (nightly : Bool)

/-- What a flow is about to do to the disk. -/
inductive InstallPlan where
  /-- It fails before anything is changed. -/
  | fail
  /-- It ends without installing anything. -/
  | skip (ok : Bool)
  | place (p : Placement)

namespace InstallFlow

variable (T : Tools) (cfg : Settings) (disk : Disk)

def run : InstallFlow → Result
  | silent archiveStem archive => runSilent T cfg disk archiveStem archive
  | update net launchAfter updateInstaller => runUpdate T cfg disk net launchAfter updateInstaller
  | download net nightly => runDownloadAndInstall T cfg disk net nightly
  | localArchive archiveStem archive nightly =>
    runLocalInstall T cfg disk archiveStem archive nightly

def plan : InstallFlow → InstallPlan
  | silent archiveStem archive =>
    .place ⟨(detectVersion archiveStem).getD T.pkgVersion, archive, true,
      fun st => T.nightlyInstaller || st.isNightlyChannel, (·.archiveSha256), false⟩
  | update net launchAfter updateInstaller =>
    match planUpdate T cfg disk net with
    | .fail => .fail
    | .skip _ _ => .skip (runUpdate T cfg disk net launchAfter updateInstaller).ok
    | .install _ nightly release =>
      match checkedDownload T net release nightly with
      | none => .fail
      | some d => .place ⟨release.version, d.archive, false, fun _ => nightly, fun _ => d.sha256,
          launchAfter⟩
  | download net nightly =>
    match guiDownload T cfg net nightly with
    | none => .fail
    | some d => .place ⟨d.1.version, d.2.archive, true, fun _ => nightly, fun _ => d.2.sha256,
        false⟩
  | localArchive archiveStem archive nightly =>
    .place ⟨(detectVersion archiveStem).getD T.pkgVersion, archive, true, fun _ => nightly,
      (·.archiveSha256), false⟩

end InstallFlow

def InstallPlan.result (T : Tools) (cfg : Settings) (disk : Disk) : InstallPlan → Result
  | fail => ⟨disk, false⟩
  | skip ok => ⟨disk, ok⟩
  | place p => p.run T cfg disk

theorem extractVersion_stateFile (T : Tools) (cfg : Settings) (disk : Disk) (version : String)
    (archive : Bytes) (withManifest : Bool) :
    (extractVersion T cfg disk version archive withManifest).disk.stateFile = disk.stateFile := by
  rcases extractVersion_cases T cfg disk
    ⟨version, archive, withManifest, fun _ => false, fun _ => "", false⟩ with ⟨-, hr⟩ | ⟨-, ⟨-, hr⟩ | ⟨-, files, hr⟩⟩
  · exact congrArg (fun r => r.disk.stateFile) hr
  · exact congrArg (fun r => r.disk.stateFile) hr
  · exact congrArg (fun r => r.disk.stateFile) hr

theorem InstallFlow.run_eq_result (T : Tools) (cfg : Settings) (disk : Disk) (flow : InstallFlow) :
    flow.run T cfg disk = (flow.plan T cfg disk).result T cfg disk := by
  cases flow with
  | silent archiveStem archive => rfl
  | localArchive archiveStem archive nightly => rfl
  | download net nightly =>
    rw [InstallFlow.run, InstallFlow.plan, runDownloadAndInstall]
    cases guiDownload T cfg net nightly <;> rfl
  | update net launchAfter updateInstaller =>
    rw [InstallFlow.run, InstallFlow.plan]
    cases hplan : planUpdate T cfg disk net with
    | fail => rw [runUpdate, hplan]; rfl
    | skip st upToDate =>
      have hdisk : (runUpdate T cfg disk net launchAfter updateInstaller).disk = disk := by
        rw [runUpdate, hplan]
      exact congrArg (Result.mk · _) hdisk
    | install st nightly release =>
      rw [runUpdate, hplan]
      cases hd : checkedDownload T net release nightly with
      | none => simp only [hd]; rfl
      | some d =>
        -- the state is the one that was read when planning
        have hread : readState cfg.faults disk = some st := readState_of_planUpdate hplan
        have hread' : readState cfg.faults
            (extractVersion T cfg disk release.version d.archive false).disk = some st := by
          rw [← hread, readState, readState, extractVersion_stateFile]
        simp only [hd, InstallPlan.result, Placement.run, hread']
        cases (extractVersion T cfg disk release.version d.archive false).ok <;> rfl

/-! ## Runs of flows -/

/-- The files of an archive, its own manifest aside. -/
def archiveFiles (T : Tools) (archive : Bytes) : Files :=
  (putEntries ∅ (T.unpack archive).entries).erase manifestName

section Conditions

variable (T : Tools) (cfg : Settings) (disk : Disk) (p : Placement)

/-- The version is current, or it is not listed. -/
def Placement.NotOld : Prop :=
  ∀ st, readState cfg.faults disk = some st → ∀ v ∈ st.versions,
    v.version = p.version → st.currentVersion = p.version

/-- The directory has no file that is not in the archive. -/
def Placement.NoStale : Prop :=
  ∀ k, (p.before cfg disk)[k]? ≠ none → k ≠ manifestName →
    ∃ e ∈ (T.unpack p.archive).entries, e.1 = k

/-- The flow writes a manifest, or the right one is there already. -/
def Placement.HasManifest : Prop :=
  p.withManifest = true ∨ (p.extracted T cfg disk)[manifestName]? =
    some (T.writeManifest (collectFiles T (p.extracted T cfg disk)))

/-- Neither path leads into the directory of the other, or to it. -/
def Tools.Apart (q r : String) : Prop :=
  T.within q r = false ∧ T.within r q = false

/-- The directories that are there, and those of the listed versions. -/
def Disk.Known (q : String) : Prop :=
  q ∈ disk.dirs ∨ ∃ st, disk.stateFile = some (some st) ∧ ∃ v ∈ st.versions, v.path = q

/-- The version's directory lies in no other one, and no other one in it. -/
def Placement.Separate : Prop :=
  ∀ q, disk.Known q → q ≠ versionDir cfg.baseDir p.version →
    T.Apart q (versionDir cfg.baseDir p.version)

/-- Where the state cannot be written, it is not torn, and there was no old version
to remove before. -/
def Placement.SparesState : Prop :=
  p.Extracts T cfg disk → ∀ st torn, readState cfg.faults disk = some st →
    cfg.faults.writeState = some torn → torn = false ∧ st.oldVersions = []

end Conditions

structure InstallLog where
  disk : Disk
  /-- The current version of the last state that could be read. -/
  current : String
  /-- The files of the archive that the last state was written for. -/
  installed : Files
  /-- The last state was written for a version with its manifest and no other build's
  files, and every flow since that could not write it spared it. -/
  settled : Prop

structure InstallEvent where
  settings : Settings
  flow : InstallFlow

section Log

variable (T : Tools) (baseDir : String) (L : InstallLog) (e : InstallEvent)

def InstallEvent.cfg : Settings :=
  { e.settings with baseDir := baseDir }

def InstallLog.result : Result :=
  e.flow.run T (e.cfg baseDir) L.disk

def InstallLog.step : InstallLog where
  disk := (L.result T baseDir e).disk
  current :=
    match (L.result T baseDir e).disk.stateFile with
    | none => ""
    | some none => L.current
    | some (some st) => st.currentVersion
  installed :=
    match e.flow.plan T (e.cfg baseDir) L.disk with
    | .place p =>
      if p.writes T (e.cfg baseDir) L.disk then archiveFiles T p.archive else L.installed
    | _ => L.installed
  settled :=
    match e.flow.plan T (e.cfg baseDir) L.disk with
    | .place p =>
      if p.writes T (e.cfg baseDir) L.disk then
        p.HasManifest T (e.cfg baseDir) L.disk ∧ p.NoStale T (e.cfg baseDir) L.disk
      else L.settled ∧ p.SparesState T (e.cfg baseDir) L.disk
    | _ => L.settled

/-- The current version is listed, its directory holds the installed files and a
manifest of their hashes, and no listed version is without its directory. -/
structure IntactState (st : InstallState) : Prop where
  listed : ∃ v ∈ st.versions,
    v.version = st.currentVersion ∧ v.path = versionDir baseDir st.currentVersion
  directory : ∃ files, L.disk.dirs[versionDir baseDir st.currentVersion]? = some files ∧
    files.erase manifestName = L.installed ∧
    files[manifestName]? = some (T.writeManifest (collectFiles T files))
  others : ∀ v ∈ st.versions, L.disk.dirs[v.path]? ≠ none

def InstallLog.Intact : Prop :=
  ∃ st, L.disk.stateFile = some (some st) ∧ IntactState T baseDir L st

/-- A flow that succeeds leaves an intact install; one that fails leaves the
directory of the current version alone. -/
def InstallLog.FlowSafe : Prop :=
  ((L.result T baseDir e).ok = true → (L.step T baseDir e).Intact T baseDir) ∧
    ((L.result T baseDir e).ok = false →
      (L.result T baseDir e).disk.dirs[versionDir baseDir L.current]? =
        L.disk.dirs[versionDir baseDir L.current]?)

/-- A placement that gets to its directory has it apart from all others; one that
comes to write the state is not of an old version; one that goes through has its
manifest and is over no other files; one that fails is not of the current version, or
touches no directory. -/
structure Placement.Careful (T : Tools) (cfg : Settings) (L : InstallLog) (p : Placement) :
    Prop where
  separate : cfg.faults.createDir = false → p.Separate T cfg L.disk
  notOld : p.Extracts T cfg L.disk → cfg.faults.writeState = none → p.NotOld cfg L.disk
  manifest : p.Completes T cfg L.disk → p.HasManifest T cfg L.disk
  noStale : p.Completes T cfg L.disk → p.NoStale T cfg L.disk
  apart : ¬ p.Completes T cfg L.disk → p.version = L.current → cfg.faults.createDir = true

/-- The same of a flow; one that succeeds with nothing to install finds the install
settled. -/
def InstallLog.Careful : Prop :=
  match e.flow.plan T (e.cfg baseDir) L.disk with
  | .fail => True
  | .skip ok => ok = true → L.settled
  | .place p => p.Careful T (e.cfg baseDir) L

/-- What holds in between: the current version is listed and has its directory, listed
versions have directories of their own, and what is settled is intact. -/
structure InstallLog.Inv : Prop where
  absent : L.disk.stateFile = none → L.current = ""
  current : ∀ st, L.disk.stateFile = some (some st) → L.current = st.currentVersion
  listed : ∀ st, L.disk.stateFile = some (some st) → ∃ v ∈ st.versions,
    v.version = st.currentVersion
  paths : ∀ st, L.disk.stateFile = some (some st) →
    ∀ v ∈ st.versions, v.path = versionDir baseDir v.version
  separate : ∀ st, L.disk.stateFile = some (some st) → ∀ v ∈ st.versions, ∀ w ∈ st.versions,
    v.version ≠ w.version → T.Apart v.path w.path
  currentDir : ∀ st, L.disk.stateFile = some (some st) →
    L.disk.dirs[versionDir baseDir st.currentVersion]? ≠ none
  settled : L.settled → L.Intact T baseDir

end Log

/-! ### Reading the state -/

section Read

variable {T : Tools} {baseDir : String} {L : InstallLog} {e : InstallEvent} {p : Placement}
  {f : Faults} {st : InstallState}

theorem stateFile_of_readState (h : readState f L.disk = some st) :
    (L.disk.stateFile = none ∧ st = .empty) ∨ L.disk.stateFile = some (some st) := by
  rw [readState] at h
  split at h
  · cases h
  · cases hfile : L.disk.stateFile with
    | none =>
      rw [hfile] at h
      exact .inl ⟨rfl, (Option.some.inj h).symm⟩
    | some o =>
      rw [hfile] at h
      exact .inr (congrArg some h)

theorem inv_read (hinv : L.Inv T baseDir) (h : readState f L.disk = some st) :
    L.current = st.currentVersion ∧
      (∀ v ∈ st.versions, v.path = versionDir baseDir v.version) ∧
      ∀ v ∈ st.versions, L.disk.Known v.path ∧ (v.version = st.currentVersion →
        L.disk.dirs[versionDir baseDir st.currentVersion]? ≠ none) := by
  rcases stateFile_of_readState h with ⟨hnone, rfl⟩ | hsome
  · exact ⟨hinv.absent hnone, nofun, nofun⟩
  · exact ⟨hinv.current st hsome, hinv.paths st hsome,
      fun v hv => ⟨.inr ⟨st, hsome, v, hv, rfl⟩, fun _ => hinv.currentDir st hsome⟩⟩

theorem getElem?_current_cleaned (hinv : L.Inv T baseDir) (h : readState f L.disk = some st)
    (g : Faults) (dirs : ExtTreeMap String Files) :
    (removeDirs T g st.oldVersions dirs)[versionDir baseDir st.currentVersion]? =
      dirs[versionDir baseDir st.currentVersion]? := by
  refine getElem?_removeDirs dirs fun o ho => ?_
  rcases stateFile_of_readState h with ⟨-, rfl⟩ | hsome
  · cases ho
  · obtain ⟨v, hv, hversion⟩ := hinv.listed st hsome
    have hne : v.version ≠ o.version := hversion ▸ st.ne_of_mem_oldVersions ho
    have hapart := hinv.separate st hsome v hv o (List.mem_filter.mp ho).1 hne
    rw [hinv.paths st hsome v hv, hversion] at hapart
    exact hapart.1

theorem getElem?_new_cleaned {cfg : Settings} (hbase : cfg.baseDir = baseDir)
    (hinv : L.Inv T baseDir) (h : readState cfg.faults L.disk = some st)
    (hnew : p.NotOld cfg L.disk) (hsep : p.Separate T cfg L.disk) (g : Faults)
    (dirs : ExtTreeMap String Files) :
    (removeDirs T g st.oldVersions dirs)[versionDir baseDir p.version]? =
      dirs[versionDir baseDir p.version]? := by
  obtain ⟨-, hpaths, hknown⟩ := inv_read hinv h
  refine getElem?_removeDirs dirs fun o ho => ?_
  have hmem : o ∈ st.versions := (List.mem_filter.mp ho).1
  have hversion : o.version ≠ p.version := fun heq =>
    st.ne_of_mem_oldVersions ho ((hnew st h o hmem heq).trans heq.symm)
  have hpath : o.path ≠ versionDir cfg.baseDir p.version := by
    rw [hpaths o hmem, hbase]
    exact fun heq => hversion (versionDir_injective baseDir heq)
  exact hbase ▸ (hsep o.path (hknown o hmem).1 hpath).2

theorem getElem?_insert_other {version w : String} (dirs : ExtTreeMap String Files) (files : Files)
    (h : version ≠ w) :
    (dirs.insert (versionDir baseDir version) files)[versionDir baseDir w]? =
      dirs[versionDir baseDir w]? := by
  rw [ExtTreeMap.getElem?_insert, if_neg]
  intro heq
  exact h (versionDir_injective baseDir (Std.compare_eq_iff_eq.mp heq))

theorem getElem?_insert_ne_none {path q : String} {dirs : ExtTreeMap String Files} {files : Files}
    (h : dirs[q]? ≠ none) : (dirs.insert path files)[q]? ≠ none := by
  rw [ExtTreeMap.getElem?_insert]
  split
  · nofun
  · exact h

theorem mem_versions_finished {cfg : Settings} {v : InstalledVersion}
    (h : v ∈ (p.finished cfg st).versions) :
    (v ∈ st.versions ∧ v.version = st.currentVersion ∧ v.version ≠ p.version) ∨
      v = ⟨p.version, versionDir cfg.baseDir p.version, cfg.now⟩ := by
  have hmem : v ∈ st.dropOld.versions.filter (fun v => v.version != p.version) ++
      [⟨p.version, versionDir cfg.baseDir p.version, cfg.now⟩] := h
  rcases List.mem_append.mp hmem with h | h
  · obtain ⟨hdrop, hne⟩ := List.mem_filter.mp h
    obtain ⟨hv, hcurrent⟩ := st.mem_versions_dropOld_iff.mp hdrop
    exact .inl ⟨hv, hcurrent, by simpa using hne⟩
  · exact .inr (List.mem_singleton.mp h)

theorem new_mem_finished (p : Placement) (cfg : Settings) (st : InstallState) :
    ⟨p.version, versionDir cfg.baseDir p.version, cfg.now⟩ ∈ (p.finished cfg st).versions :=
  List.mem_append_right _ List.mem_cons_self

end Read

/-! ### One flow -/

section OneFlow

variable {T : Tools} {baseDir : String} {L : InstallLog} {e : InstallEvent}

theorem result_eq (p : Placement) (hplan : e.flow.plan T (e.cfg baseDir) L.disk = .place p) :
    L.result T baseDir e = p.run T (e.cfg baseDir) L.disk := by
  rw [InstallLog.result, InstallFlow.run_eq_result, hplan]
  rfl

theorem inv_step_of_stateFile {st : InstallState}
    (hfile : (L.result T baseDir e).disk.stateFile = some (some st))
    (hlisted : ∃ v ∈ st.versions, v.version = st.currentVersion)
    (hpaths : ∀ v ∈ st.versions, v.path = versionDir baseDir v.version)
    (hseparate : ∀ v ∈ st.versions, ∀ w ∈ st.versions, v.version ≠ w.version →
      T.Apart v.path w.path)
    (hdir : (L.result T baseDir e).disk.dirs[versionDir baseDir st.currentVersion]? ≠ none)
    (hsettled : (L.step T baseDir e).settled → (L.step T baseDir e).Intact T baseDir) :
    (L.step T baseDir e).Inv T baseDir := by
  have honly : ∀ {st'}, (L.step T baseDir e).disk.stateFile = some (some st') → st = st' :=
    fun h => Option.some.inj (Option.some.inj (hfile.symm.trans h))
  refine ⟨fun hnone => ?_, fun st' hst => ?_, fun st' hst => ?_, fun st' hst => ?_,
    fun st' hst => ?_, fun st' hst => ?_, hsettled⟩
  · cases hfile.symm.trans hnone
  · rw [← honly hst, InstallLog.step, hfile]
  · exact honly hst ▸ hlisted
  · exact honly hst ▸ hpaths
  · exact honly hst ▸ hseparate
  · exact honly hst ▸ hdir

variable {p : Placement}

theorem erase_extracted {cfg : Settings} {disk : Disk} (hstale : p.NoStale T cfg disk) :
    (p.extracted T cfg disk).erase manifestName = archiveFiles T p.archive := by
  have hplain : (p.extracted T cfg disk).erase manifestName =
      (putEntries (p.before cfg disk) (T.unpack p.archive).entries).erase manifestName := by
    rw [Placement.extracted]
    split
    · exact erase_insert_self _ _ _
    · rfl
  rw [hplain, archiveFiles]
  apply ExtTreeMap.ext_getElem?
  intro k
  rw [ExtTreeMap.getElem?_erase, ExtTreeMap.getElem?_erase]
  split
  · rfl
  · next hcmp =>
    have hk : k ≠ manifestName := fun h => hcmp (Std.compare_eq_iff_eq.mpr h.symm)
    rw [getElem?_putEntries, getElem?_putEntries, ExtTreeMap.getElem?_empty, Option.or_none]
    cases hlast : (T.unpack p.archive).entries.reverse.lookup k with
    | some data => rfl
    | none =>
      -- a file that was there before would be an entry's
      by_contra hbefore
      obtain ⟨entry, hentry, hname⟩ := hstale k hbefore hk
      have hnone := List.lookup_eq_none_iff.mp hlast entry (List.mem_reverse.mpr hentry)
      rw [hname] at hnone
      simp at hnone

theorem manifest_extracted {cfg : Settings} {disk : Disk} (hmanifest : p.HasManifest T cfg disk) :
    (p.extracted T cfg disk)[manifestName]? =
      some (T.writeManifest (collectFiles T (p.extracted T cfg disk))) := by
  rcases hmanifest with hwith | hthere
  · have hcollect : ∀ (files : Files) (data : Bytes),
        collectFiles T (files.insert manifestName data) = collectFiles T files := by
      intro files data
      rw [collectFiles, erase_insert_self, collectFiles]
    rw [Placement.extracted, if_pos hwith, ExtTreeMap.getElem?_insert_self, hcollect]
  · exact hthere

theorem intact_step_of_dirs (hinv : L.Inv T baseDir) (hintact : L.Intact T baseDir)
    {dirs : ExtTreeMap String Files}
    (hresult : (L.result T baseDir e).disk = { L.disk with dirs := dirs })
    (hinstalled : (L.step T baseDir e).installed = L.installed)
    (hcurrent : dirs[versionDir baseDir L.current]? = L.disk.dirs[versionDir baseDir L.current]?)
    (hothers : ∀ q : String, L.disk.dirs[q]? ≠ none → dirs[q]? ≠ none) :
    (L.step T baseDir e).Intact T baseDir := by
  obtain ⟨st, hst, hintact⟩ := hintact
  have hdisk : (L.step T baseDir e).disk = { L.disk with dirs := dirs } := hresult
  refine ⟨st, hdisk ▸ hst, hintact.listed, ?_, fun v hv => ?_⟩
  · rw [hdisk, hinstalled, ← hinv.current st hst, hcurrent, hinv.current st hst]
    exact hintact.directory
  · rw [hdisk]
    exact hothers v.path (hintact.others v hv)

theorem inv_step_of_dirs (hinv : L.Inv T baseDir) {dirs : ExtTreeMap String Files}
    (hresult : (L.result T baseDir e).disk = { L.disk with dirs := dirs })
    (hdirs : ∀ st, L.disk.stateFile = some (some st) →
      L.disk.dirs[versionDir baseDir st.currentVersion]? ≠ none →
        dirs[versionDir baseDir st.currentVersion]? ≠ none)
    (hsettled : (L.step T baseDir e).settled → (L.step T baseDir e).Intact T baseDir) :
    (L.step T baseDir e).Inv T baseDir := by
  have hcurrent : (L.step T baseDir e).current = L.current := by
    rw [InstallLog.step, hresult]
    cases hfile : L.disk.stateFile with
    | none => exact (hinv.absent hfile).symm
    | some o =>
      cases o with
      | none => rfl
      | some st => exact (hinv.current st hfile).symm
  have hdisk : (L.step T baseDir e).disk = { L.disk with dirs := dirs } := hresult
  refine ⟨?_, ?_, ?_, ?_, ?_, ?_, hsettled⟩
  · rw [hcurrent, hdisk]
    exact hinv.absent
  · rw [hcurrent, hdisk]
    exact hinv.current
  · rw [hdisk]
    exact hinv.listed
  · rw [hdisk]
    exact hinv.paths
  · rw [hdisk]
    exact hinv.separate
  · rw [hdisk]
    exact fun st hst => hdirs st hst (hinv.currentDir st hst)

theorem step_of_not_writes (hplan : e.flow.plan T (e.cfg baseDir) L.disk = .place p)
    (hwrites : p.writes T (e.cfg baseDir) L.disk = false) :
    (L.step T baseDir e).installed = L.installed ∧
      ((L.step T baseDir e).settled ↔ L.settled ∧ p.SparesState T (e.cfg baseDir) L.disk) := by
  unfold InstallLog.step
  simp only [hplan, hwrites, Bool.false_eq_true, if_false]
  exact ⟨trivial, trivial⟩

theorem step_of_writes (hplan : e.flow.plan T (e.cfg baseDir) L.disk = .place p)
    (hwrites : p.writes T (e.cfg baseDir) L.disk = true) :
    (L.step T baseDir e).installed = archiveFiles T p.archive ∧
      ((L.step T baseDir e).settled ↔
        p.HasManifest T (e.cfg baseDir) L.disk ∧ p.NoStale T (e.cfg baseDir) L.disk) := by
  unfold InstallLog.step
  simp only [hplan, hwrites, if_true]
  exact ⟨trivial, trivial⟩

theorem intact_of_written (hinv : L.Inv T baseDir)
    (hplan : e.flow.plan T (e.cfg baseDir) L.disk = .place p) {st : InstallState}
    (hread : readState (e.cfg baseDir).faults L.disk = some st)
    (hwrites : p.writes T (e.cfg baseDir) L.disk = true)
    (hdisk : (L.result T baseDir e).disk =
      ⟨removeDirs T (e.cfg baseDir).faults st.oldVersions
        (L.disk.dirs.insert (versionDir baseDir p.version) (p.extracted T (e.cfg baseDir) L.disk)),
        some (some (p.finished (e.cfg baseDir) st))⟩)
    (hnew : p.NotOld (e.cfg baseDir) L.disk) (hsep : p.Separate T (e.cfg baseDir) L.disk)
    (hmanifest : p.HasManifest T (e.cfg baseDir) L.disk)
    (hstale : p.NoStale T (e.cfg baseDir) L.disk) : (L.step T baseDir e).Intact T baseDir := by
  obtain ⟨-, hpaths, hdirs⟩ := inv_read hinv hread
  have hstep : (L.step T baseDir e).disk = (L.result T baseDir e).disk := rfl
  have hdir : ((L.step T baseDir e).disk.dirs)[versionDir baseDir p.version]? =
      some (p.extracted T (e.cfg baseDir) L.disk) := by
    rw [hstep, hdisk]
    exact (getElem?_new_cleaned rfl hinv hread hnew hsep _ _).trans ExtTreeMap.getElem?_insert_self
  refine ⟨p.finished (e.cfg baseDir) st, by rw [hstep, hdisk], ?_⟩
  refine ⟨⟨_, new_mem_finished p _ st, rfl, rfl⟩, ⟨_, hdir, ?_, ?_⟩, fun v hv => ?_⟩
  · rw [(step_of_writes hplan hwrites).1]
    exact erase_extracted hstale
  · exact manifest_extracted hmanifest
  · rcases mem_versions_finished hv with ⟨hmem, hversion, -⟩ | rfl
    · rw [hstep, hdisk, hpaths v hmem, hversion]
      change (removeDirs _ _ st.oldVersions _)[versionDir baseDir st.currentVersion]? ≠ none
      rw [getElem?_current_cleaned hinv hread]
      exact getElem?_insert_ne_none ((hdirs v hmem).2 hversion)
    · change (L.step T baseDir e).disk.dirs[versionDir baseDir p.version]? ≠ none
      rw [hdir]
      nofun

theorem separate_finished (hinv : L.Inv T baseDir) {st : InstallState}
    (hread : readState (e.cfg baseDir).faults L.disk = some st)
    (hsep : p.Separate T (e.cfg baseDir) L.disk) :
    ∀ v ∈ (p.finished (e.cfg baseDir) st).versions,
      ∀ w ∈ (p.finished (e.cfg baseDir) st).versions,
        v.version ≠ w.version → T.Apart v.path w.path := by
  obtain ⟨-, hpaths, hknown⟩ := inv_read hinv hread
  have hold : ∀ v ∈ st.versions, v.version ≠ p.version →
      T.Apart v.path (versionDir baseDir p.version) := by
    intro v hv hne
    refine hsep v.path (hknown v hv).1 fun heq => hne ?_
    exact versionDir_injective baseDir ((hpaths v hv).symm.trans heq)
  intro v hv w hw hne
  rcases mem_versions_finished hv with ⟨hv', hcurrent, hvne⟩ | rfl
  · rcases mem_versions_finished hw with ⟨-, hcurrent', -⟩ | rfl
    · exact absurd (hcurrent.trans hcurrent'.symm) hne
    · exact hold v hv' hvne
  · rcases mem_versions_finished hw with ⟨hw', -, hwne⟩ | rfl
    · exact (hold w hw' hwne).symm
    · exact absurd rfl hne

/-- A placement that fails after it started is not of the current version. -/
theorem ne_current_of_careful (hcareful : p.Careful T (e.cfg baseDir) L)
    (hnot : ¬ p.Completes T (e.cfg baseDir) L.disk)
    (hdir : (e.cfg baseDir).faults.createDir = false) : p.version ≠ L.current := by
  intro hversion
  exact absurd (hdir.symm.trans (hcareful.apart hnot hversion)) nofun

theorem flowSafe_of_place (hinv : L.Inv T baseDir)
    (hplan : e.flow.plan T (e.cfg baseDir) L.disk = .place p)
    (hcareful : p.Careful T (e.cfg baseDir) L) :
    L.FlowSafe T baseDir e ∧ (L.step T baseDir e).Inv T baseDir := by
  obtain ⟨hout, hok⟩ := p.outcome_run T (e.cfg baseDir) L.disk
  have hresult := result_eq (T := T) p hplan
  rw [← hresult] at hout hok
  unfold InstallLog.FlowSafe
  generalize hr : L.result T baseDir e = r at hout hok
  have hdisk := congrArg Result.disk hr
  cases hout with
  | notStarted createDir writes =>
    obtain ⟨hinstalled, hsettled⟩ := step_of_not_writes hplan writes
    exact ⟨⟨nofun, fun _ => rfl⟩, inv_step_of_dirs hinv hdisk (fun _ _ h => h) fun h =>
      intact_step_of_dirs hinv (hinv.settled (hsettled.mp h).1) hdisk hinstalled rfl fun _ h => h⟩
  | stopped files createDir writes =>
    obtain ⟨hinstalled, hsettled⟩ := step_of_not_writes hplan writes
    have hnot : ¬ p.Completes T (e.cfg baseDir) L.disk := fun h => absurd (hok.mpr h) nofun
    have hcurrent : (L.disk.dirs.insert (versionDir baseDir p.version)
        files)[versionDir baseDir L.current]? = L.disk.dirs[versionDir baseDir L.current]? :=
      getElem?_insert_other _ _ (ne_current_of_careful hcareful hnot createDir)
    exact ⟨⟨nofun, fun _ => hcurrent⟩,
      inv_step_of_dirs hinv hdisk (fun _ _ h => getElem?_insert_ne_none h) fun h =>
        intact_step_of_dirs hinv (hinv.settled (hsettled.mp h).1) hdisk hinstalled hcurrent
          fun _ h => getElem?_insert_ne_none h⟩
  | unwritten st torn extracts read write writes =>
    obtain ⟨hinstalled, hsettled⟩ := step_of_not_writes hplan writes
    have hst := (inv_read hinv read).1
    have hnot : ¬ p.Completes T (e.cfg baseDir) L.disk := fun h => absurd (hok.mpr h) nofun
    have hcurrent : (removeDirs T (e.cfg baseDir).faults st.oldVersions
        (L.disk.dirs.insert (versionDir baseDir p.version)
          (p.extracted T (e.cfg baseDir) L.disk)))[versionDir baseDir L.current]? =
        L.disk.dirs[versionDir baseDir L.current]? := by
      rw [hst, getElem?_current_cleaned hinv read, ← hst]
      exact getElem?_insert_other _ _ (ne_current_of_careful hcareful hnot extracts.createDir)
    refine ⟨⟨nofun, fun _ => hcurrent⟩, ?_⟩
    cases torn with
    | true =>
      have hfile : (L.step T baseDir e).disk.stateFile = some none := congrArg Disk.stateFile hdisk
      refine ⟨fun h => ?_, fun _ h => ?_, fun _ h => ?_, fun _ h => ?_, fun _ h => ?_,
        fun _ h => ?_, fun h => ?_⟩
      · cases hfile.symm.trans h
      · cases hfile.symm.trans h
      · cases hfile.symm.trans h
      · cases hfile.symm.trans h
      · cases hfile.symm.trans h
      · cases hfile.symm.trans h
      · exact absurd ((hsettled.mp h).2 extracts st true read write).1 nofun
    | false =>
      refine inv_step_of_dirs hinv hdisk (fun st' hst' h => ?_) fun h => ?_
      · rw [← hinv.current st' hst'] at h ⊢
        exact fun hnone => h (hcurrent.symm.trans hnone)
      · obtain ⟨hwas, hspares⟩ := hsettled.mp h
        have hnone := (hspares extracts st false read write).2
        refine intact_step_of_dirs hinv (hinv.settled hwas) hdisk hinstalled hcurrent fun q hq => ?_
        rw [hnone]
        exact getElem?_insert_ne_none hq
  | written st ok extracts read write writes =>
    obtain ⟨hcurrent, hpaths, -⟩ := inv_read hinv read
    have hnew := hcareful.notOld extracts write
    have hsep := hcareful.separate extracts.createDir
    have hintact := intact_of_written hinv hplan read writes hdisk hnew hsep
    refine ⟨⟨fun hdone => ?_, fun hfailed => ?_⟩, ?_⟩
    · have hcompletes := hok.mp hdone
      exact hintact (hcareful.manifest hcompletes) (hcareful.noStale hcompletes)
    · have hnot : ¬ p.Completes T (e.cfg baseDir) L.disk :=
        fun h => absurd ((hok.mpr h).symm.trans hfailed) nofun
      change (removeDirs _ _ st.oldVersions _)[versionDir baseDir L.current]? = _
      rw [hcurrent, getElem?_current_cleaned hinv read, ← hcurrent]
      exact getElem?_insert_other _ _ (ne_current_of_careful hcareful hnot extracts.createDir)
    · refine inv_step_of_stateFile (congrArg Disk.stateFile hdisk)
        ⟨_, new_mem_finished p _ st, rfl⟩ (fun v hv => ?_) (separate_finished hinv read hsep) ?_
        fun h => ?_
      · rcases mem_versions_finished hv with ⟨hmem, -, -⟩ | rfl
        · exact hpaths v hmem
        · rfl
      · rw [hdisk]
        change (removeDirs _ _ st.oldVersions _)[versionDir baseDir p.version]? ≠ none
        rw [getElem?_new_cleaned (show (e.cfg baseDir).baseDir = baseDir from rfl) hinv read hnew
          hsep]
        change (L.disk.dirs.insert (versionDir baseDir p.version) _)[versionDir baseDir p.version]? ≠ _
        rw [ExtTreeMap.getElem?_insert_self]
        nofun
      · obtain ⟨hmanifest, hstale⟩ := (step_of_writes hplan writes).2.mp h
        exact hintact hmanifest hstale

/-- A flow that changes nothing is safe, where the install is settled if it succeeds. -/
theorem flowSafe_of_unchanged (hinv : L.Inv T baseDir) {ok : Bool}
    (hresult : L.result T baseDir e = ⟨L.disk, ok⟩)
    (hstep : (L.step T baseDir e).installed = L.installed ∧
      ((L.step T baseDir e).settled → L.settled)) (hsettled : ok = true → L.settled) :
    L.FlowSafe T baseDir e ∧ (L.step T baseDir e).Inv T baseDir := by
  have hdisk : (L.result T baseDir e).disk = L.disk := congrArg Result.disk hresult
  have hintact : L.settled → (L.step T baseDir e).Intact T baseDir := fun h =>
    intact_step_of_dirs hinv (hinv.settled h) hdisk hstep.1 rfl fun _ h => h
  refine ⟨⟨fun hok => ?_, fun _ => by rw [hdisk]⟩,
    inv_step_of_dirs hinv hdisk (fun _ _ h => h) fun h => hintact (hstep.2 h)⟩
  rw [hresult] at hok
  exact hintact (hsettled hok)

theorem flowSafe_of_careful (hinv : L.Inv T baseDir) (hcareful : L.Careful T baseDir e) :
    L.FlowSafe T baseDir e ∧ (L.step T baseDir e).Inv T baseDir := by
  rw [InstallLog.Careful] at hcareful
  have hresult : L.result T baseDir e =
      (e.flow.plan T (e.cfg baseDir) L.disk).result T (e.cfg baseDir) L.disk :=
    InstallFlow.run_eq_result ..
  cases hplan : e.flow.plan T (e.cfg baseDir) L.disk with
  | place p =>
    rw [hplan] at hcareful
    exact flowSafe_of_place hinv hplan hcareful
  | fail =>
    rw [hplan] at hresult
    refine flowSafe_of_unchanged hinv hresult ?_ nofun
    unfold InstallLog.step
    simp only [hplan]
    exact ⟨trivial, id⟩
  | skip ok =>
    rw [hplan] at hresult hcareful
    refine flowSafe_of_unchanged hinv hresult ?_ hcareful
    unfold InstallLog.step
    simp only [hplan]
    exact ⟨trivial, id⟩

end OneFlow

/-! ## Runs -/

/-- The log of a machine without an install state. -/
def InstallLog.start (dirs : ExtTreeMap String Files) : InstallLog :=
  ⟨⟨dirs, none⟩, "", ∅, False⟩

theorem InstallLog.inv_start (T : Tools) (baseDir : String) (dirs : ExtTreeMap String Files) :
    (start dirs).Inv T baseDir :=
  ⟨fun _ => rfl, nofun, nofun, nofun, nofun, nofun, False.elim⟩

section Checks

variable {T : Tools} {cfg : Settings} {disk : Disk} {p : Placement}

theorem Placement.notOld_of_all (h : ((readState cfg.faults disk).all fun st =>
      st.versions.all fun v => v.version != p.version || st.currentVersion == p.version) = true) :
    p.NotOld cfg disk := by
  intro st hst v hv hversion
  rw [hst, Option.all_some, List.all_eq_true] at h
  simpa [hversion] using h v hv

theorem Placement.noStale_of_all (h : ((p.before cfg disk).keys.all fun k =>
      k == manifestName || (T.unpack p.archive).entries.any fun e => e.1 == k) = true) :
    p.NoStale T cfg disk := by
  intro k hk hne
  have hmem : k ∈ (p.before cfg disk).keys := by
    rw [ExtTreeMap.mem_keys, ExtTreeMap.mem_iff_isSome_getElem?, Option.isSome_iff_ne_none]
    exact hk
  have hlisted := List.all_eq_true.mp h k hmem
  simp only [Bool.or_eq_true, beq_iff_eq, hne, false_or, List.any_eq_true] at hlisted
  exact hlisted

theorem Placement.separate_of_all (h : ((disk.dirs.keys ++
      ((disk.stateFile.bind id).toList.flatMap fun st => st.versions.map (·.path))).all fun q =>
        q == versionDir cfg.baseDir p.version ||
          (!T.within q (versionDir cfg.baseDir p.version) &&
            !T.within (versionDir cfg.baseDir p.version) q)) = true) : p.Separate T cfg disk := by
  intro q hknown hne
  have hmem : q ∈ disk.dirs.keys ++
      ((disk.stateFile.bind id).toList.flatMap fun st => st.versions.map (·.path)) := by
    rcases hknown with hdir | ⟨st, hst, v, hv, rfl⟩
    · exact List.mem_append_left _ (ExtTreeMap.mem_keys.mpr hdir)
    · refine List.mem_append_right _ (List.mem_flatMap.mpr ⟨st, ?_, List.mem_map_of_mem hv⟩)
      simp [hst]
  have hapart := List.all_eq_true.mp h q hmem
  simpa [hne, Tools.Apart] using hapart

end Checks

/-- The archive of a version, one byte long. -/
def localInstall (stem : String) (build : UInt8) : InstallEvent :=
  ⟨sampleSettings, .localArchive stem [build] false⟩

/-- The same where extraction stops before its first entry. -/
def stoppedInstall (stem : String) (build : UInt8) : InstallEvent :=
  ⟨{ sampleSettings with faults := { Faults.none with extract := some 0 } },
    .localArchive stem [build] false⟩

/-- GitHub is not reached. -/
def offlineNet : Net :=
  { bareNet with latestRelease := fun _ => none }

def offlineUpdate : InstallEvent :=
  ⟨sampleSettings, .update offlineNet false false⟩

def localPlacement (version : String) (build : UInt8) : Placement :=
  ⟨version, [build], true, fun _ => false, (·.archiveSha256), false⟩

/-- What is looked at before a version is installed. -/
noncomputable def checked (L : InstallLog) (p : Placement) : Bool :=
  ((readState Faults.none L.disk).all fun st =>
      st.versions.all fun v => v.version != p.version || st.currentVersion == p.version) &&
    ((p.before sampleSettings L.disk).keys.all fun k =>
      k == manifestName || (sampleTools.unpack p.archive).entries.any fun e => e.1 == k) &&
    ((L.disk.dirs.keys ++
      ((L.disk.stateFile.bind id).toList.flatMap fun st => st.versions.map (·.path))).all fun q =>
        q == versionDir "/opt" p.version || (!sampleTools.within q (versionDir "/opt" p.version) &&
          !sampleTools.within (versionDir "/opt" p.version) q)) &&
    (readState Faults.none L.disk).isSome

theorem careful_localPlacement {L : InstallLog} (version : String) (build : UInt8)
    (h : checked L (localPlacement version build) = true) :
    (localPlacement version build).Careful sampleTools sampleSettings L := by
  simp only [checked, Bool.and_eq_true] at h
  obtain ⟨⟨⟨hold, hstale⟩, hsep⟩, hread⟩ := h
  have hlayout : sampleTools.bundleLayoutOk
      (putEntries ((localPlacement version build).before sampleSettings L.disk)
        [("DoubleSlash.exe", [build])]) = true := ExtTreeMap.contains_insert_self
  have hsafe : ∀ e ∈ [("DoubleSlash.exe", [build])], entryNameIsSafe e.1 = true := fun e he => by
    rw [List.mem_singleton.mp he]
    exact (by decide +kernel : entryNameIsSafe "DoubleSlash.exe" = true)
  have hcompletes : (localPlacement version build).Completes sampleTools sampleSettings L.disk :=
    ⟨⟨rfl, rfl, hsafe, rfl, hlayout, rfl, fun _ => rfl⟩,
      Option.isSome_iff_ne_none.mp hread, rfl, rfl, rfl, rfl⟩
  exact ⟨fun _ => Placement.separate_of_all hsep, fun _ _ => Placement.notOld_of_all hold,
    fun _ => .inl rfl, fun _ => Placement.noStale_of_all hstale, fun hnot => absurd hcompletes hnot⟩

theorem careful_offlineUpdate {L : InstallLog} (h : L.settled)
    (hstable : resolveNightlyChannel sampleTools Faults.none L.disk = false) :
    L.Careful sampleTools "/opt" offlineUpdate := by
  have hplan : offlineUpdate.flow.plan sampleTools (offlineUpdate.cfg "/opt") L.disk = .fail ∨
      offlineUpdate.flow.plan sampleTools (offlineUpdate.cfg "/opt") L.disk = .skip true := by
    cases hread : readState (offlineUpdate.cfg "/opt").faults L.disk with
    | none =>
      left
      simp only [offlineUpdate, InstallFlow.plan, planUpdate] at hread ⊢
      rw [hread]
    | some st =>
      right
      have hstable' : resolveNightlyChannel sampleTools (offlineUpdate.cfg "/opt").faults L.disk =
          false := hstable
      simp only [offlineUpdate, InstallFlow.plan, planUpdate, runUpdate] at hread hstable' ⊢
      simp only [hread, hstable']
      rfl
  rw [InstallLog.Careful]
  rcases hplan with hplan | hplan
  · rw [hplan]
    trivial
  · rw [hplan]
    exact fun _ => h

/-- Three versions, of which the first goes as the third comes; the third once more,
when the second goes; a fourth that is not extracted; and an update that finds nothing. -/
def sampleFlows : List InstallEvent :=
  [localInstall "DoubleSlash-1.0.0-win64" 1, localInstall "DoubleSlash-2.0.0-win64" 2,
    localInstall "DoubleSlash-3.0.0-win64" 3, localInstall "DoubleSlash-3.0.0-win64" 3,
    stoppedInstall "DoubleSlash-4.0.0-win64" 4, offlineUpdate]

noncomputable def afterFlows (n : Nat) : InstallLog :=
  run (InstallLog.step sampleTools "/opt") (.start ∅) (sampleFlows.take n)

theorem settled_afterFlows : (afterFlows 5).settled := by
  refine (@step_of_not_writes sampleTools "/opt" (afterFlows 4)
    (stoppedInstall "DoubleSlash-4.0.0-win64" 4) (localPlacement "4.0.0" 4) rfl
    (by decide +kernel)).2.mpr ⟨?_, fun h => absurd h.extract nofun⟩
  exact (@step_of_writes sampleTools "/opt" (afterFlows 3)
    (localInstall "DoubleSlash-3.0.0-win64" 3) (localPlacement "3.0.0" 3) rfl
    (by decide +kernel)).2.mpr ⟨.inl rfl, Placement.noStale_of_all (by decide +kernel)⟩

end ConquerD.Installer
