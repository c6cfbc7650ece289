import ConquerD.Installer.Release
import ConquerD.Installer.State
import ConquerD.Lib.LexicalPath
import Std.Data.ExtTreeMap

/-!
# Installer: install, update and repair

Each version is extracted into a directory of its own under the base directory.
A flow gets an archive, from disk or from the network, extracts it, drops the
versions that are not current and writes the new state. Any step of it may
fail; what has been done by then stays.
-/

namespace ConquerD.Installer

open Std (ExtTreeMap)
open Lib.Encoding Lib.JsonText Lib.LexicalPath Wire

/-- The files of a directory by their relative paths. -/
abbrev Files := ExtTreeMap String Bytes

structure Disk where
  /-- The directories of versions by their paths. Each has its own files only: of two
  directories one of which lies in the other, or of two paths that lead to one place,
  only the removal is modelled. -/
  dirs : ExtTreeMap String Files
  /-- The state file, when there is one; a torn one cannot be read. -/
  stateFile : Option (Option InstallState)

/-- What the decoder makes of an archive. -/
structure Archive where
  entries : List (String × Bytes)
  /-- The decoder reaches the end without an error of its own. -/
  decodes : Bool

/-- Libraries and surroundings of the installer. -/
structure Tools where
  platform : Platform
  floats : FloatSyntax FiniteF64
  json : JsonSyntax
  os : Os
  /-- The running installer is a nightly build. -/
  nightlyInstaller : Bool
  pkgVersion : String
  /-- Where a path leads, from the root down. -/
  locate : String → List (List Char)
  unpack : Bytes → Archive
  /-- The extracted tree has the executable and the folders it needs. -/
  bundleLayoutOk : Files → Bool
  /-- The text of a manifest with the given hashes. -/
  writeManifest : ExtTreeMap String String → Bytes
  readManifest : Bytes → Option (ExtTreeMap String String)

/-- Which steps of a flow fail. -/
structure Faults where
  createDir : Bool
  /-- Extraction stops after so many entries. -/
  extract : Option Nat
  hashFiles : Bool
  /-- Writing the manifest fails and leaves this behind. -/
  manifest : Option Bytes
  readState : Bool
  /-- What removing the first directory leaves of the second, which is in it. -/
  removeDir : String → String → Option Files
  /-- Writing the state fails, and the old file is torn or not. -/
  writeState : Option Bool
  selfCopy : Bool
  shortcuts : Bool
  launch : Bool

def Faults.none : Faults where
  createDir := false
  extract := .none
  hashFiles := false
  manifest := .none
  readState := false
  removeDir _ _ := .none
  writeState := .none
  selfCopy := false
  shortcuts := false
  launch := false

/-- How an installer is run. -/
structure Settings where
  baseDir : String
  repo : String
  noShortcuts : Bool
  /-- Seconds since the epoch. -/
  now : Nat
  faults : Faults

structure Result where
  disk : Disk
  ok : Bool

def versionDir (baseDir version : String) : String :=
  baseDir ++ "/conquerd_" ++ version

def readState (f : Faults) (disk : Disk) : Option InstallState :=
  if f.readState then none
  else match disk.stateFile with
    | none => some .empty
    | some st => st

/-! ## Extraction -/

/-- The name stays within the directory it is joined to, on every host. -/
def entryNameIsSafe (name : String) : Bool :=
  let normalized := name.toList.map fun c => if c = '\\' then '/' else c
  let drive := match normalized with
    | a :: ':' :: _ => a.isAlpha
    | _ => false
  name != "" && normalized.head? != some '/' && !drive &&
    (normalized.splitOn '/').all fun segment => segment != ['.', '.']

/-- The entries of an archive that are written before extraction stops. -/
def writtenEntries (f : Faults) (archive : Archive) : List (String × Bytes) :=
  let safe := archive.entries.takeWhile fun e => entryNameIsSafe e.1
  match f.extract with
  | none => safe
  | some n => safe.take n

def putEntries (files : Files) (entries : List (String × Bytes)) : Files :=
  entries.foldl (fun fs e => fs.insert e.1 e.2) files

/-! ### Entry by entry -/

/-- An entry of an archive, with what comes of writing it. -/
structure ArchiveEntry where
  name : String
  /-- What gets to the disk as a file: nothing of a directory, a part of a torn entry. -/
  file : Option Bytes
  /-- Writing it goes through. -/
  extracts : Bool

/-- An archive in the decoder's hands. It hands out the entries one by one and ends where
the callback tells it to stop, as the comment there has it. -/
structure OpenArchive where
  /-- In the order the decoder comes to them. -/
  entries : List ArchiveEntry
  /-- The decoder joins the name to the destination; it fails at one it will not join. -/
  joins : String → Bool
  /-- Behind the last entry the decoder ends without an error. -/
  decodes : Bool

/-- How the walk over the entries ends. -/
inductive Decoded where
  | ended
  /-- The callback stops the walk, for the name. -/
  | rejected (name : String)
  | failed
  deriving DecidableEq

/-- The walk over the entries: the files it writes and how it ends. -/
def decompressEntries (host : Host) (dest : Place) (a : OpenArchive) :
    List ArchiveEntry → List (Place × Bytes) × Decoded
  | [] => ([], if a.decodes then .ended else .failed)
  | e :: rest =>
    if !a.joins e.name then ([], .failed)
    else if !entryNameIsSafe e.name then ([], .rejected e.name)
    else
      let file := e.file.toList.map fun data => (host.join dest e.name.toList, data)
      if e.extracts then
        let r := decompressEntries host dest a rest
        (file ++ r.1, r.2)
      else (file, .failed)

/-- What `decompress_archive` leaves in its order, as nothing is taken back, and whether
it reports success: the tree it leaves must have the layout of a bundle. -/
def decompressArchive (host : Host) (dest : Place) (layoutOk : List (Place × Bytes) → Bool)
    (a : OpenArchive) : List (Place × Bytes) × Bool :=
  let r := decompressEntries host dest a a.entries
  (r.1, r.2 = .ended && layoutOk r.1)

section Flows

variable (T : Tools)

/-- Extraction over what a directory holds, and whether it went through. -/
def extract7z (f : Faults) (archive : Bytes) (files : Files) : Files × Bool :=
  let a := T.unpack archive
  let files := putEntries files (writtenEntries f a)
  (files, f.extract.isNone && (a.entries.all fun e => entryNameIsSafe e.1) && a.decodes &&
    T.bundleLayoutOk files && !f.hashFiles)

def manifestName : String := "manifest.json"

/-- The hash of every file but the manifest. -/
def collectFiles (files : Files) : ExtTreeMap String String :=
  (files.erase manifestName).map fun _ data => T.platform.sha256Hex data

/-- The archive is extracted into its version's directory; with its manifest
written after it, or without. -/
def extractVersion (cfg : Settings) (disk : Disk) (version : String) (archive : Bytes)
    (withManifest : Bool) : Result :=
  let f := cfg.faults
  let dir := versionDir cfg.baseDir version
  if f.createDir then ⟨disk, false⟩
  else
    let extracted := extract7z T f archive (disk.dirs[dir]?.getD ∅)
    let files := extracted.1
    if !extracted.2 then ⟨{ disk with dirs := disk.dirs.insert dir files }, false⟩
    else if !withManifest then ⟨{ disk with dirs := disk.dirs.insert dir files }, true⟩
    else
      match f.manifest with
      | none =>
        let files := files.insert manifestName (T.writeManifest (collectFiles T files))
        ⟨{ disk with dirs := disk.dirs.insert dir files }, true⟩
      | some torn =>
        ⟨{ disk with dirs := disk.dirs.insert dir (files.insert manifestName torn) }, false⟩

/-- The one path leads to where the other does, or below it. -/
def Tools.within (path outer : String) : Bool :=
  (T.locate outer).isPrefixOf (T.locate path)

/-- A directory is removed with all that is in it, as far as removal goes. -/
def removeDirAll (f : Faults) (dirs : ExtTreeMap String Files) (path : String) :
    ExtTreeMap String Files :=
  dirs.filterMap fun q files => if T.within q path then f.removeDir path q else some files

/-- Old versions are removed, the new one is made current, and the state, the
launcher and the shortcuts are written. -/
def recordVersion (cfg : Settings) (disk : Disk) (st : InstallState) (version : String)
    (nightly : Bool) (archiveSha256 : String) (launch : Bool) : Result :=
  let f := cfg.faults
  let dirs := (st.oldVersions.map (·.path)).foldl (removeDirAll T f) disk.dirs
  let st := (st.dropOld.addVersion version (versionDir cfg.baseDir version) cfg.now).setChannel
    nightly
  let st := { st with archiveSha256 := archiveSha256 }
  match f.writeState with
  | some torn => ⟨⟨dirs, if torn then some none else disk.stateFile⟩, false⟩
  | none =>
    ⟨⟨dirs, some (some st)⟩,
      !(f.selfCopy || (f.shortcuts && !cfg.noShortcuts) || (f.launch && launch))⟩

/-! ## Downloads -/

/-- An archive from the network with what it was checked against. -/
structure Download where
  archive : Bytes
  /-- The hash of the checksum file, empty when there is none. -/
  sha256 : String
  /-- The text of the manifest, when one was fetched. -/
  manifest : Option String

/-- The archive of a release, checked against its checksum file if it has one. -/
def downloadArchive (net : Net) (release : ReleaseInfo) : Option (Bytes × String) := do
  let archive ← net.file release.archiveUrl
  if release.sha256Url = "" then some (archive, "")
  else
    let expected ← fetchSha256 net release.sha256Url
    let _ ← verifyDownload T.platform archive expected
    some (archive, expected)

/-- The archive of a release, checked also against its manifest if it has one. -/
def checkedDownload (net : Net) (release : ReleaseInfo) (nightly : Bool) : Option Download := do
  let (archive, sha256) ← downloadArchive T net release
  if release.manifestUrl ≠ "" then
    let rawJson ← fetchReleaseManifest net release.manifestUrl
    let _ ← verifyArchiveHash T.floats T.json T.platform rawJson nightly release.version
      T.os.currentPlatformId (T.platform.sha256Hex archive)
    some ⟨archive, sha256, some rawJson⟩
  else if nightly then none
  else some ⟨archive, sha256, none⟩

/-! ## The flows -/

def resolveNightlyChannel (f : Faults) (disk : Disk) : Bool :=
  T.nightlyInstaller || ((readState f disk).map InstallState.isNightlyChannel).getD false

/-- The archive hash that a nightly manifest lists for this platform. -/
def nightlyRemoteHash (net : Net) (release : ReleaseInfo) : Option String := do
  if release.manifestUrl = "" then none
  let rawJson ← fetchReleaseManifest net release.manifestUrl
  let mf ← ReleaseManifest.parseUnsigned T.floats T.json rawJson
  mf.buildHashForPlatform T.os.currentPlatformId

def nightlyUpdateAvailable (remoteSha : String) (st : InstallState) : Bool :=
  st.archiveSha256 == "" || remoteSha != st.archiveSha256

def needsReleaseUpdate (net : Net) (release : ReleaseInfo) (st : InstallState) (nightly : Bool) :
    Option Bool :=
  if st.currentVersion = "" then some true
  else if nightly then
    match nightlyRemoteHash T net release with
    | some remoteHash => some (nightlyUpdateAvailable remoteHash st)
    | none =>
      if release.sha256Url ≠ "" then
        (fetchSha256 net release.sha256Url).map fun sha => nightlyUpdateAvailable sha st
      else some true
  else some (isNewer release.version st.currentVersion)

/-- What an update has decided to do. -/
inductive UpdatePlan where
  /-- The state cannot be read. -/
  | fail
  /-- The check failed, or it found nothing newer. -/
  | skip (st : InstallState) (upToDate : Bool)
  | install (st : InstallState) (nightly : Bool) (release : ReleaseInfo)

def planUpdate (cfg : Settings) (disk : Disk) (net : Net) : UpdatePlan :=
  match readState cfg.faults disk with
  | none => .fail
  | some st =>
    let nightly := resolveNightlyChannel T cfg.faults disk
    match fetchRelease net T.os cfg.repo nightly with
    | none => .skip st false
    | some release =>
      match needsReleaseUpdate T net release st nightly with
      | none => .skip st false
      | some false => .skip st true
      | some true => .install st nightly release

/-- The silent update. With nothing to install it refreshes the launcher, when
asked to, and launches the current version. -/
def runUpdate (cfg : Settings) (disk : Disk) (net : Net) (launchAfter updateInstaller : Bool) :
    Result :=
  let f := cfg.faults
  match planUpdate T cfg disk net with
  | .fail => ⟨disk, false⟩
  | .skip st upToDate =>
    let refreshFails := upToDate && updateInstaller &&
      (f.selfCopy || (f.shortcuts && !cfg.noShortcuts))
    ⟨disk, !(refreshFails || (f.launch && launchAfter && st.currentPath.isSome))⟩
  | .install st nightly release =>
    match checkedDownload T net release nightly with
    | none => ⟨disk, false⟩
    | some d =>
      let r := extractVersion T cfg disk release.version d.archive false
      if r.ok then recordVersion T cfg r.disk st release.version nightly d.sha256 launchAfter else r

/-- An archive is extracted with its manifest, then the state is read and written. -/
def installArchive (cfg : Settings) (disk : Disk) (version : String) (archive : Bytes)
    (nightly : InstallState → Bool) (archiveSha256 : InstallState → String) : Result :=
  let r := extractVersion T cfg disk version archive true
  if !r.ok then r
  else
    match readState cfg.faults r.disk with
    | none => ⟨r.disk, false⟩
    | some st => recordVersion T cfg r.disk st version (nightly st) (archiveSha256 st) false

/-- The silent install from a local archive. -/
def runSilent (cfg : Settings) (disk : Disk) (archiveStem : String) (archive : Bytes) : Result :=
  installArchive T cfg disk ((detectVersion archiveStem).getD T.pkgVersion) archive
    (fun st => T.nightlyInstaller || st.isNightlyChannel) (·.archiveSha256)

/-- The install from a local archive in the window. -/
def runLocalInstall (cfg : Settings) (disk : Disk) (archiveStem : String) (archive : Bytes)
    (nightly : Bool) : Result :=
  installArchive T cfg disk ((detectVersion archiveStem).getD T.pkgVersion) archive
    (fun _ => nightly) (·.archiveSha256)

/-- What the window downloads to install. -/
def guiDownload (cfg : Settings) (net : Net) (nightly : Bool) :
    Option (ReleaseInfo × Download) := do
  let release ← fetchRelease net T.os cfg.repo nightly
  let d ← checkedDownload T net release nightly
  some (release, d)

/-- The download and install in the window. -/
def runDownloadAndInstall (cfg : Settings) (disk : Disk) (net : Net) (nightly : Bool) : Result :=
  match guiDownload T cfg net nightly with
  | none => ⟨disk, false⟩
  | some (release, d) =>
    installArchive T cfg disk release.version d.archive (fun _ => nightly) fun _ => d.sha256

/-! ## Repair -/

/-- The files that are missing or differ from the manifest. -/
def damagedFiles (manifest : ExtTreeMap String String) (files : Files) : List String :=
  (manifest.toList.filter fun e =>
    (files[e.1]?.map T.platform.sha256Hex) != some e.2).map Prod.fst

/-- An archive for a repair, and whether it was downloaded: a local one, or else
the one of the latest release. -/
def repairArchive (cfg : Settings) (net : Net) (nightly : Bool) (localArchive : Option Bytes) :
    Option (Bytes × Bool) :=
  match localArchive with
  | some archive => some (archive, false)
  | none => do
    let release ← fetchRelease net T.os cfg.repo nightly
    let d ← downloadArchive T net release
    some (d.1, true)

/-- The files to repair in the current version's directory, if there are any. -/
def repairPlan (cfg : Settings) (disk : Disk) (installedVersion : String) :
    Option (Files × List String) := do
  if installedVersion = "" then none
  let files ← disk.dirs[versionDir cfg.baseDir installedVersion]?
  let manifest ← files[manifestName]?.bind T.readManifest
  some (files, damagedFiles T manifest files)

/-- The repair in the window: damaged files are taken from an archive. -/
def runRepair (cfg : Settings) (disk : Disk) (net : Net) (installedVersion : String)
    (nightly : Bool) (localArchive : Option Bytes) : Result :=
  match repairPlan T cfg disk installedVersion with
  | none => ⟨disk, false⟩
  | some (files, damaged) =>
    if damaged = [] then ⟨disk, true⟩
    else
      match repairArchive T cfg net nightly localArchive with
      | none => ⟨disk, false⟩
      | some (archive, _) =>
        let staged := extract7z T cfg.faults archive ∅
        if !staged.2 then ⟨disk, false⟩
        else
          let files := damaged.foldl (fun fs rel =>
            match staged.1[rel]? with
            | some data => fs.insert rel data
            | none => fs) files
          ⟨{ disk with dirs := disk.dirs.insert (versionDir cfg.baseDir installedVersion) files },
            true⟩

end Flows

end ConquerD.Installer
