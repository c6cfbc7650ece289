import ConquerD.Installer.Flows
import ConquerD.Interop.SignedBytes

/-!
# Stable installs and the signed manifest

A downloaded archive is installed on the word of the signed manifest only where
the release has a manifest, and where that lists an archive's hash for this
platform whenever it lists it for the version. A repair asks for no manifest.
-/

namespace ConquerD.Installer

open Lib.Encoding Lib.JsonText Wire

variable {T : Tools} {cfg : Settings} {disk : Disk}

/-! ## What a flow makes of the network -/

/-- A downloaded archive that a flow extracts. -/
structure Use where
  archive : Bytes
  /-- The version being installed. -/
  version : String
  /-- The manifest the archive was checked against. -/
  manifest : Option String
  /-- The hash of the release's checksum file, empty when there is none. -/
  sha256 : String

/-- The flows that download on the stable channel. -/
inductive StableFlow where
  | update (net : Net) (launchAfter updateInstaller : Bool)
  | download (net : Net)
  | repair (net : Net) (installedVersion : String) (localArchive : Option Bytes)

def UpdatePlan.stableRelease? : UpdatePlan → Option ReleaseInfo
  | install _ false release => some release
  | _ => none

namespace StableFlow

def run (T : Tools) (cfg : Settings) (disk : Disk) : StableFlow → Result
  | update net launchAfter updateInstaller => runUpdate T cfg disk net launchAfter updateInstaller
  | download net => runDownloadAndInstall T cfg disk net false
  | repair net installedVersion localArchive =>
    runRepair T cfg disk net installedVersion false localArchive

/-- The release a flow is about to download. -/
def release? (T : Tools) (cfg : Settings) (disk : Disk) : StableFlow → Option ReleaseInfo
  | update net _ _ => (planUpdate T cfg disk net).stableRelease?
  | download net => fetchRelease net T.os cfg.repo false
  | repair net installedVersion localArchive =>
    match repairPlan T cfg disk installedVersion with
    | none => none
    | some plan =>
      if plan.2 ≠ [] ∧ localArchive = none then fetchRelease net T.os cfg.repo false else none

def net : StableFlow → Net
  | update net _ _ => net
  | download net => net
  | repair net _ _ => net

/-- The downloaded archive that the flow extracts, if it comes to it. -/
def use? (T : Tools) (cfg : Settings) (disk : Disk) (flow : StableFlow) : Option Use :=
  (flow.release? T cfg disk).bind fun release =>
    match flow with
    | update net _ _ => (checkedDownload T net release false).map fun d =>
        ⟨d.archive, release.version, d.manifest, d.sha256⟩
    | download net => (checkedDownload T net release false).map fun d =>
        ⟨d.archive, release.version, d.manifest, d.sha256⟩
    | repair net installedVersion _ => (downloadArchive T net release).map fun d =>
        ⟨d.1, installedVersion, none, d.2⟩

/-- The flow installs nothing but what comes in with the archive in use: on the
stable channel, and with no archive from disk. -/
def OnNetwork (T : Tools) (cfg : Settings) (disk : Disk) : StableFlow → Prop
  | update net _ _ => ∀ st release, planUpdate T cfg disk net ≠ .install st true release
  | download _ => True
  | repair _ _ localArchive => localArchive = none

end StableFlow

/-- What the flow comes to when it extracts the archive in use and no other: a
version that is new is installed from it, a damaged one repaired from it. -/
def Use.result (T : Tools) (cfg : Settings) (disk : Disk) (use : Use) : StableFlow → Result
  | .update _ launchAfter _ =>
    let r := extractVersion T cfg disk use.version use.archive false
    match readState cfg.faults disk with
    | none => r
    | some st =>
      if r.ok then recordVersion T cfg r.disk st use.version false use.sha256 launchAfter else r
  | .download _ =>
    installArchive T cfg disk use.version use.archive (fun _ => false) fun _ => use.sha256
  | .repair net installedVersion _ =>
    runRepair T cfg disk net installedVersion false (some use.archive)

/-- The archive's hash is listed, for the version and this platform, in an
accepted manifest that it was checked against. -/
def Use.Backed (T : Tools) (use : Use) : Prop :=
  ∃ rawJson mf, use.manifest = some rawJson ∧
    ReleaseManifest.parseAndVerify T.floats T.json T.platform rawJson = some mf ∧
    mf.Lists use.version T.os.currentPlatformId (T.platform.sha256Hex use.archive)

/-- The flow extracts what the manifest backs; otherwise nothing installed changes. -/
structure Authentic (T : Tools) (cfg : Settings) (disk : Disk) (flow : StableFlow) : Prop where
  extracts : ∀ use, flow.use? T cfg disk = some use →
    flow.run T cfg disk = use.result T cfg disk flow
  backed : ∀ use, flow.use? T cfg disk = some use → use.Backed T
  aborts : flow.OnNetwork T cfg disk → flow.use? T cfg disk = none →
    (flow.run T cfg disk).disk = disk

def PlatformListed (T : Tools) (net : Net) (release : ReleaseInfo) (archive : Bytes) : Prop :=
  ∀ rawJson mf, fetchReleaseManifest net release.manifestUrl = some rawJson →
    ReleaseManifest.parseAndVerify T.floats T.json T.platform rawJson = some mf →
    mf.contains release.version (T.platform.sha256Hex archive) = true →
    mf.Lists release.version T.os.currentPlatformId (T.platform.sha256Hex archive)

/-- The archive that the flow downloads comes with a manifest that tells platforms
apart; a repair downloads none. -/
def Guarded (T : Tools) (cfg : Settings) (disk : Disk) (flow : StableFlow) : Prop :=
  ∀ release d, flow.release? T cfg disk = some release →
    downloadArchive T flow.net release = some d →
    match flow with
    | .repair _ _ _ => False
    | _ => release.manifestUrl ≠ "" ∧ PlatformListed T flow.net release d.1

/-! ## The checked download -/

section Checked

variable {net : Net} {release : ReleaseInfo} {archive : Bytes} {sha256 : String}

theorem verifyArchiveHash_stable_iff {rawJson version platform hash : String} :
    verifyArchiveHash T.floats T.json T.platform rawJson false version platform hash = some () ↔
      ∃ mf, ReleaseManifest.parseAndVerify T.floats T.json T.platform rawJson = some mf ∧
        mf.contains version hash = true := by
  have hforChannel : ReleaseManifest.parseForChannel T.floats T.json T.platform rawJson false =
      ReleaseManifest.parseAndVerify T.floats T.json T.platform rawJson := rfl
  rw [verifyArchiveHash, hforChannel]
  cases ReleaseManifest.parseAndVerify T.floats T.json T.platform rawJson with
  | none => simp
  | some mf => simp

theorem checkedDownload_of_none (h : downloadArchive T net release = none) (nightly : Bool) :
    checkedDownload T net release nightly = none := by
  rw [checkedDownload, h]
  rfl

theorem checkedDownload_of_noManifest
    (h : downloadArchive T net release = some (archive, sha256)) (hurl : release.manifestUrl = "") :
    checkedDownload T net release false = some ⟨archive, sha256, none⟩ := by
  rw [checkedDownload, h]
  simp only [Option.bind_eq_bind, Option.bind_some, hurl]
  rfl

theorem checkedDownload_of_manifest
    (h : downloadArchive T net release = some (archive, sha256)) (hurl : release.manifestUrl ≠ "")
    {d : Download} :
    checkedDownload T net release false = some d ↔
      ∃ rawJson mf, fetchReleaseManifest net release.manifestUrl = some rawJson ∧
        ReleaseManifest.parseAndVerify T.floats T.json T.platform rawJson = some mf ∧
        mf.contains release.version (T.platform.sha256Hex archive) = true ∧
        d = ⟨archive, sha256, some rawJson⟩ := by
  rw [checkedDownload, h]
  simp only [Option.bind_eq_bind, Option.bind_some]
  rw [if_pos hurl]
  constructor
  · intro hd
    obtain ⟨rawJson, hraw, hd⟩ := Option.bind_eq_some_iff.mp hd
    obtain ⟨u, hverify, hd⟩ := Option.bind_eq_some_iff.mp hd
    obtain ⟨mf, hmf, hcontains⟩ := verifyArchiveHash_stable_iff.mp hverify
    exact ⟨rawJson, mf, hraw, hmf, hcontains, (Option.some.inj hd).symm⟩
  · rintro ⟨rawJson, mf, hraw, hmf, hcontains, rfl⟩
    rw [hraw, Option.bind_some, verifyArchiveHash_stable_iff.mpr ⟨mf, hmf, hcontains⟩]
    rfl

theorem backed_checkedDownload_iff (h : downloadArchive T net release = some (archive, sha256)) :
    (∀ d, checkedDownload T net release false = some d →
        Use.Backed T ⟨d.archive, release.version, d.manifest, d.sha256⟩) ↔
      release.manifestUrl ≠ "" ∧ PlatformListed T net release archive := by
  by_cases hurl : release.manifestUrl = ""
  · refine iff_of_false (fun hbacked => ?_) fun hguard => hguard.1 hurl
    obtain ⟨rawJson, mf, hraw, -⟩ := hbacked _ (checkedDownload_of_noManifest h hurl)
    cases hraw
  · rw [and_iff_right hurl]
    constructor
    · intro hbacked rawJson mf hraw hmf hcontains
      have hd := (checkedDownload_of_manifest h hurl).mpr ⟨rawJson, mf, hraw, hmf, hcontains, rfl⟩
      obtain ⟨rawJson', mf', hraw', hmf', hlists⟩ := hbacked _ hd
      obtain rfl : rawJson = rawJson' := Option.some.inj hraw'
      obtain rfl : mf = mf' := Option.some.inj (hmf.symm.trans hmf')
      exact hlists
    · intro hlisted d hd
      obtain ⟨rawJson, mf, hraw, hmf, hcontains, rfl⟩ := (checkedDownload_of_manifest h hurl).mp hd
      exact ⟨rawJson, mf, rfl, hmf, hlisted rawJson mf hraw hmf hcontains⟩

theorem backed_uses_iff :
    (∀ d, checkedDownload T net release false = some d →
        Use.Backed T ⟨d.archive, release.version, d.manifest, d.sha256⟩) ↔
      ∀ d, downloadArchive T net release = some d →
        release.manifestUrl ≠ "" ∧ PlatformListed T net release d.1 := by
  cases hdownload : downloadArchive T net release with
  | none =>
    refine iff_of_true (fun d hd => ?_) nofun
    rw [checkedDownload_of_none hdownload] at hd
    cases hd
  | some a =>
    rw [backed_checkedDownload_iff hdownload]
    refine ⟨fun h d hd => ?_, fun h => h a rfl⟩
    obtain rfl : a = d := Option.some.inj hd
    exact h

theorem backed_map_iff (T : Tools) (net : Net) (release : ReleaseInfo) :
    (∀ use, ((checkedDownload T net release false).map fun d =>
        (⟨d.archive, release.version, d.manifest, d.sha256⟩ : Use)) = some use → use.Backed T) ↔
      ∀ r d, some release = some r → downloadArchive T net r = some d →
        r.manifestUrl ≠ "" ∧ PlatformListed T net r d.1 := by
  constructor
  · intro h r d hr hd
    obtain rfl : release = r := Option.some.inj hr
    exact backed_uses_iff.mp (fun d hd => h _ (Option.map_eq_some_iff.mpr ⟨d, hd, rfl⟩)) d hd
  · intro h use huse
    obtain ⟨d, hd, rfl⟩ := Option.map_eq_some_iff.mp huse
    exact backed_uses_iff.mpr (fun d hd => h release d rfl hd) d hd

end Checked

/-! ## The flows -/

/-- A flow that gets no archive from the network changes nothing installed. -/
theorem disk_run_of_use?_eq_none {flow : StableFlow} (honline : flow.OnNetwork T cfg disk)
    (h : flow.use? T cfg disk = none) : (flow.run T cfg disk).disk = disk := by
  cases flow with
  | update net launchAfter updateInstaller =>
    rw [StableFlow.run, runUpdate]
    cases hplan : planUpdate T cfg disk net with
    | fail => rfl
    | skip st upToDate => rfl
    | install st nightly release =>
      cases nightly with
      | true => exact absurd hplan (honline st release)
      | false =>
        have hnone : checkedDownload T net release false = none := by
          rw [StableFlow.use?, StableFlow.release?, hplan] at h
          exact Option.map_eq_none_iff.mp h
        simp only [hnone]
  | download net =>
    have hnone : guiDownload T cfg net false = none := by
      rw [guiDownload]
      cases hrelease : fetchRelease net T.os cfg.repo false with
      | none => rfl
      | some release =>
        have hd : checkedDownload T net release false = none := by
          rw [StableFlow.use?, StableFlow.release?, hrelease] at h
          exact Option.map_eq_none_iff.mp h
        simp only [Option.bind_eq_bind, Option.bind_some, hd, Option.bind_none]
    rw [StableFlow.run, runDownloadAndInstall, hnone]
  | repair net installedVersion localArchive =>
    obtain rfl : localArchive = none := honline
    rw [StableFlow.run, runRepair]
    cases hplan : repairPlan T cfg disk installedVersion with
    | none => rfl
    | some plan =>
      obtain ⟨files, damaged⟩ := plan
      by_cases hdamaged : damaged = []
      · simp only [hdamaged, if_pos]
      · have hnone : repairArchive T cfg net false none = none := by
          rw [repairArchive]
          cases hrelease : fetchRelease net T.os cfg.repo false with
          | none => rfl
          | some release =>
            have hd : downloadArchive T net release = none := by
              rw [StableFlow.use?, StableFlow.release?, hplan] at h
              simp only [ne_eq, hdamaged, not_false_eq_true, and_self, if_true, hrelease,
                Option.bind_some] at h
              exact Option.map_eq_none_iff.mp h
            simp only [Option.bind_eq_bind, Option.bind_some, hd, Option.bind_none]
        simp only [if_neg hdamaged, hnone]

theorem readState_of_planUpdate {net : Net} {st : InstallState} {nightly : Bool}
    {release : ReleaseInfo} (h : planUpdate T cfg disk net = .install st nightly release) :
    readState cfg.faults disk = some st := by
  rw [planUpdate] at h
  cases hst : readState cfg.faults disk with
  | none =>
    rw [hst] at h
    cases h
  | some st' =>
    rw [hst] at h
    simp only at h
    split at h
    · cases h
    · split at h
      · cases h
      · cases h
      · cases h
        rfl

theorem run_of_use?_eq_some {flow : StableFlow} {use : Use} (h : flow.use? T cfg disk = some use) :
    flow.run T cfg disk = use.result T cfg disk flow := by
  obtain ⟨release, hrelease, huse⟩ := Option.bind_eq_some_iff.mp h
  cases flow with
  | update net launchAfter updateInstaller =>
    obtain ⟨d, hd, rfl⟩ := Option.map_eq_some_iff.mp huse
    rw [StableFlow.release?] at hrelease
    rw [StableFlow.run, runUpdate]
    cases hplan : planUpdate T cfg disk net with
    | fail =>
      rw [hplan] at hrelease
      cases hrelease
    | skip st upToDate =>
      rw [hplan] at hrelease
      cases hrelease
    | install st nightly release' =>
      rw [hplan] at hrelease
      cases nightly with
      | true => cases hrelease
      | false =>
        obtain rfl : release' = release := Option.some.inj hrelease
        simp only [hd, Use.result, readState_of_planUpdate hplan]
  | download net =>
    obtain ⟨d, hd, rfl⟩ := Option.map_eq_some_iff.mp huse
    have hdownload : guiDownload T cfg net false = some (release, d) := by
      rw [guiDownload, show fetchRelease net T.os cfg.repo false = some release from hrelease]
      simp only [Option.bind_eq_bind, Option.bind_some, hd]
    rw [StableFlow.run, runDownloadAndInstall, hdownload]
    rfl
  | repair net installedVersion localArchive =>
    obtain ⟨d, hd, rfl⟩ := Option.map_eq_some_iff.mp huse
    rw [StableFlow.release?] at hrelease
    rw [StableFlow.run, Use.result, runRepair, runRepair]
    cases hplan : repairPlan T cfg disk installedVersion with
    | none => rfl
    | some plan =>
      rw [hplan] at hrelease
      simp only at hrelease
      split at hrelease
      · next hneeded =>
        obtain ⟨-, rfl⟩ := hneeded
        have harchive : repairArchive T cfg net false none = some (d.1, true) := by
          rw [repairArchive, hrelease]
          simp only [Option.bind_eq_bind, Option.bind_some, hd]
        rw [harchive]
        rfl
      · cases hrelease

/-- A flow on the stable channel installs what the signed manifest lists, and else
nothing, exactly when it is guarded. -/
theorem authentic_iff (T : Tools) (cfg : Settings) (disk : Disk) (flow : StableFlow) :
    Authentic T cfg disk flow ↔ Guarded T cfg disk flow := by
  have hbacked : (∀ use, flow.use? T cfg disk = some use → use.Backed T) ↔
      Guarded T cfg disk flow := by
    unfold StableFlow.use? Guarded
    cases hrelease : flow.release? T cfg disk with
    | none => exact iff_of_true nofun nofun
    | some release =>
      simp only [Option.bind_some]
      cases flow with
      | update net launchAfter updateInstaller => exact backed_map_iff T net release
      | download net => exact backed_map_iff T net release
      | repair net installedVersion localArchive =>
        constructor
        · intro h r d hr hd
          obtain rfl : release = r := Option.some.inj hr
          obtain ⟨rawJson, mf, hraw, -⟩ := h _ (Option.map_eq_some_iff.mpr ⟨d, hd, rfl⟩)
          cases hraw
        · intro h use huse
          obtain ⟨d, hd, rfl⟩ := Option.map_eq_some_iff.mp huse
          exact (h release d rfl hd).elim
  exact ⟨fun h => hbacked.mp h.backed,
    fun h => ⟨fun _ => run_of_use?_eq_some, hbacked.mpr h, disk_run_of_use?_eq_none⟩⟩

/-! ## A release without a manifest -/

/-- An installer whose libraries are as simple as can be. -/
noncomputable def sampleTools : Tools where
  platform := Platform.symbolic
  floats := FloatSyntax.sample
  json := Interop.compactSyntax
  os := .windows
  nightlyInstaller := false
  pkgVersion := "1.0.0"
  locate path := path.toList.splitOn '/'
  unpack data := ⟨[("DoubleSlash.exe", data)], true⟩
  bundleLayoutOk files := files.contains "DoubleSlash.exe"
  writeManifest hashes := hashes.toList.flatMap fun e => utf8Bytes (e.1 ++ ":" ++ e.2 ++ ",")
  readManifest _ := none

def sampleSettings : Settings := ⟨"/opt", "ConquerD/ConquerD", true, 0, .none⟩

/-- GitHub names an archive and nothing else, and serves one byte for it. -/
def bareNet : Net where
  latestRelease _ := some ⟨"v2.0.0", [⟨"DoubleSlash-2.0.0-win64.7z", "archive"⟩]⟩
  file _ := some [1]
  text _ := none

/-- The window installs the archive of a release without a manifest. -/
theorem bare_release_installed :
    ¬ Authentic sampleTools sampleSettings ⟨∅, none⟩ (.download bareNet) := by
  intro h
  have huse : StableFlow.use? sampleTools sampleSettings ⟨∅, none⟩ (.download bareNet) =
      some ⟨[1], "2.0.0", none, ""⟩ := rfl
  obtain ⟨rawJson, mf, hraw, -⟩ := h.backed _ huse
  cases hraw

end ConquerD.Installer
