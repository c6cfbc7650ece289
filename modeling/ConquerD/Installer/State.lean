import Mathlib.Data.List.Lex
import Mathlib.Data.String.Basic

/-!
# Installer: the install state

A file next to the installed versions lists them and says which one is current.
-/

namespace ConquerD.Installer

structure InstalledVersion where
  version : String
  path : String
  /-- Seconds since the epoch. -/
  installedAt : Nat
  deriving DecidableEq

structure InstallState where
  currentVersion : String
  versions : List InstalledVersion
  channel : String
  /-- The hash of the last archive, when it was downloaded. -/
  archiveSha256 : String
  deriving DecidableEq

namespace InstallState

def empty : InstallState := ⟨"", [], "stable", ""⟩

variable (st : InstallState)

def isNightlyChannel : Bool :=
  st.channel == "nightly"

def setChannel (nightly : Bool) : InstallState :=
  { st with channel := if nightly then "nightly" else "stable" }

/-- The version is listed, last, and made current. -/
def addVersion (version path : String) (now : Nat) : InstallState :=
  { st with
    versions := st.versions.filter (fun v => v.version != version) ++ [⟨version, path, now⟩]
    currentVersion := version }

/-- The last among the versions installed latest. -/
def newest (versions : List InstalledVersion) : Option InstalledVersion :=
  versions.foldl (fun best v =>
    match best with
    | some b => if b.installedAt ≤ v.installedAt then some v else some b
    | none => some v) none

def removeVersion (version : String) : InstallState :=
  let versions := st.versions.filter fun v => v.version != version
  { st with
    versions := versions
    currentVersion :=
      if st.currentVersion = version then ((newest versions).map (·.version)).getD ""
      else st.currentVersion }

def currentPath : Option String :=
  (st.versions.find? fun v => v.version == st.currentVersion).map (·.path)

def oldVersions : List InstalledVersion :=
  st.versions.filter fun v => v.version != st.currentVersion

/-! ## Clean-up -/

/-- The state without its old versions. -/
def dropOld : InstallState :=
  st.oldVersions.foldl (fun st old => st.removeVersion old.version) st

theorem mem_foldl_removeVersion_iff (old : List InstalledVersion) (st : InstallState)
    (e : InstalledVersion) :
    e ∈ (old.foldl (fun st o => st.removeVersion o.version) st).versions ↔
      e ∈ st.versions ∧ ∀ o ∈ old, e.version ≠ o.version := by
  induction old generalizing st with
  | nil => simp
  | cons o old ih =>
    have hmem : e ∈ (st.removeVersion o.version).versions ↔
        e ∈ st.versions ∧ e.version ≠ o.version := by
      simp [removeVersion]
    rw [List.foldl_cons, ih, hmem, List.forall_mem_cons, and_assoc]

theorem ne_of_mem_oldVersions {o : InstalledVersion} (h : o ∈ st.oldVersions) :
    st.currentVersion ≠ o.version := by
  have hne : o.version ≠ st.currentVersion := by
    simpa [oldVersions] using (List.mem_filter.mp h).2
  exact hne.symm

theorem mem_versions_dropOld_iff {e : InstalledVersion} :
    e ∈ st.dropOld.versions ↔ e ∈ st.versions ∧ e.version = st.currentVersion := by
  rw [dropOld, mem_foldl_removeVersion_iff]
  refine and_congr_right fun he => ⟨fun h => ?_, fun h o ho heq => ?_⟩
  · by_contra hne
    have hold : e ∈ st.oldVersions := List.mem_filter.mpr ⟨he, by simpa using hne⟩
    exact h e hold rfl
  · exact st.ne_of_mem_oldVersions ho (h.symm.trans heq)

end InstallState

/-! ## Version strings -/

/-- A whole number of 64 bits without sign, as the standard library reads it. -/
def parseU64 (s : List Char) : Option Nat :=
  let digits := match s with
    | '+' :: rest => rest
    | _ => s
  if digits ≠ [] ∧ digits.all Char.isDigit then
    let n := digits.foldl (fun n c => n * 10 + (c.toNat - '0'.toNat)) 0
    if n < 2 ^ 64 then some n else none
  else none

def versionNumbers (s : String) : List Nat :=
  (s.toList.splitOn '.').filterMap parseU64

/-- The first version is later than the second. -/
def isNewer (remote version : String) : Bool :=
  decide (versionNumbers version < versionNumbers remote)

/-- The version in the name of an archive such as `ConquerD-1.2.3-win64`. -/
def detectVersion (fileStem : String) : Option String :=
  ((fileStem.toList.splitOn '-').find? fun part =>
    let pieces := part.splitOn '.'
    2 ≤ pieces.length && pieces.all fun p => p.all Char.isDigit).map String.ofList

end ConquerD.Installer
