import ConquerD.Wire.Serde

/-!
# Installer: releases and their manifests

The latest stable release is asked of GitHub and described by its assets; the
nightly one has fixed addresses. A release may come with a manifest, a JSON text
that lists archives by version, platform and hash. The manifest of a stable
release is signed by the project; a nightly one is taken unsigned.
-/

namespace ConquerD.Installer

open Lib.Encoding Lib.JsonText Wire

/-! ## Release manifests -/

structure ManifestEntry where
  version : String
  platform : String
  buildHash : String
  buildId : String
  publishedAt : FiniteF64

structure ReleaseManifest where
  releases : List ManifestEntry
  signedAt : FiniteF64
  signerPubkey : String
  signature : String

/-- The fields of a struct: an object with no known field twice, or an array with
the first fields in order. -/
def structDoc (names : List String) : Doc → Option (List (String × Doc))
  | .obj fields =>
    if names.all fun k => (fields.filter fun e => e.1 == k).length ≤ 1 then some fields else none
  | .arr items => if items.length ≤ names.length then some (names.zip items) else none
  | _ => none

def docStr? : Doc → Option String
  | .str s => some s
  | _ => none

def docItems? : Doc → Option (List Doc)
  | .arr items => some items
  | _ => none

/-- A field with a default for when it is missing. -/
def defaultField {α : Type} (read : Doc → Option α) (fallback : α) : Option Doc → Option α
  | none => some fallback
  | some d => read d

section Parse

variable (S : FloatSyntax FiniteF64) (J : JsonSyntax)

def docF64? : Doc → Option FiniteF64
  | .num l => S.read l
  | _ => none

def ManifestEntry.fromDoc (d : Doc) : Option ManifestEntry := do
  let fields ← structDoc ["version", "platform", "build_hash", "build_id", "published_at"] d
  let version ← (fields.lookup "version").bind docStr?
  let platform ← (fields.lookup "platform").bind docStr?
  let buildHash ← (fields.lookup "build_hash").bind docStr?
  let buildId ← defaultField docStr? "" (fields.lookup "build_id")
  let publishedAt ← defaultField (docF64? S) F64.zero (fields.lookup "published_at")
  some ⟨version, platform, buildHash, buildId, publishedAt⟩

def ReleaseManifest.fromDoc (d : Doc) : Option ReleaseManifest := do
  let fields ← structDoc ["releases", "signed_at", "signer_pubkey", "signature"] d
  let items ← (fields.lookup "releases").bind docItems?
  let releases ← items.mapM (ManifestEntry.fromDoc S)
  let signedAt ← defaultField (docF64? S) F64.zero (fields.lookup "signed_at")
  let signerPubkey ← defaultField docStr? "" (fields.lookup "signer_pubkey")
  let signature ← defaultField docStr? "" (fields.lookup "signature")
  some ⟨releases, signedAt, signerPubkey, signature⟩

/-- The public key of the release signer. -/
def releaseSignerPubkeyHex : String :=
  "d31f43fcfba1fae04313d384d7fba026bd52796550c57def6cf47b069c18043f"

/-- The raw text without its signature, keys in order. -/
def canonicalJson (rawJson : String) : Option Bytes := do
  match ← readValue (Number.ofLiteral S) 127 (← J.read rawJson) with
  | .obj fields => some (toVec S (.obj (fields.filter fun e => e.1 != "signature")))
  | _ => none

def padBase64 (s : String) : String :=
  let rem := s.utf8ByteSize % 4
  if rem = 0 then s else s ++ String.ofList (List.replicate (4 - rem) '=')

variable (P : Platform)

/-- Either alphabet, the one for links first. -/
def base64Decode (s : String) : Option Bytes :=
  (P.decodeB64Url (padBase64 s)).or (P.decodeB64Std (padBase64 s))

def verifySignature (sigB64 : String) (canonical pubkeyBytes : Bytes) : Option Unit := do
  let sigBytes ← base64Decode P sigB64
  if sigBytes.length = 64 ∧ P.ed25519Verify pubkeyBytes sigBytes canonical = true then some ()
  else none

/-- The manifest that a text signed by the project spells. -/
def ReleaseManifest.parseAndVerify (rawJson : String) : Option ReleaseManifest := do
  let manifest ← ReleaseManifest.fromDoc S (← J.read rawJson)
  let canonical ← canonicalJson S J rawJson
  let pubkeyBytes ← hexDecode (utf8Bytes releaseSignerPubkeyHex)
  let _ ← verifySignature P manifest.signature canonical pubkeyBytes
  some manifest

def ReleaseManifest.parseUnsigned (rawJson : String) : Option ReleaseManifest := do
  let manifest ← ReleaseManifest.fromDoc S (← J.read rawJson)
  if manifest.releases = [] then none else some manifest

def ReleaseManifest.parseForChannel (rawJson : String) (nightly : Bool) : Option ReleaseManifest :=
  if nightly then ReleaseManifest.parseUnsigned S J rawJson
  else ReleaseManifest.parseAndVerify S J P rawJson

end Parse

namespace ReleaseManifest

variable (mf : ReleaseManifest)

/-- The hash is listed for the version, on any platform. -/
def contains (version buildHash : String) : Bool :=
  mf.releases.any fun e => e.version == version && e.buildHash.toLower == buildHash.toLower

/-- The hash is listed for the platform, of any version. -/
def containsForPlatform (platform buildHash : String) : Bool :=
  mf.releases.any fun e => e.platform == platform && e.buildHash.toLower == buildHash.toLower

def Lists (version platform buildHash : String) : Prop :=
  ∃ e ∈ mf.releases,
    e.version = version ∧ e.platform = platform ∧ e.buildHash.toLower = buildHash.toLower

def buildHashForPlatform (platform : String) : Option String :=
  (mf.releases.find? fun e => e.platform == platform).map fun e => e.buildHash.toLower

end ReleaseManifest

def verifyArchiveHash (S : FloatSyntax FiniteF64) (J : JsonSyntax) (P : Platform) (rawJson : String)
    (nightly : Bool) (releaseVersion platform archiveHash : String) : Option Unit := do
  let mf ← ReleaseManifest.parseForChannel S J P rawJson nightly
  let ok := if nightly then mf.containsForPlatform platform archiveHash
    else mf.contains releaseVersion archiveHash
  if ok then some () else none

/-! ## Releases -/

structure GhAsset where
  name : String
  browserDownloadUrl : String

structure GhRelease where
  tagName : String
  assets : List GhAsset

structure ReleaseInfo where
  version : String
  archiveUrl : String
  archiveName : String
  sha256Url : String
  /-- Empty when the release has no manifest. -/
  manifestUrl : String

/-- What the network answers in the course of one flow. -/
structure Net where
  /-- GitHub's latest release of a repository. -/
  latestRelease : String → Option GhRelease
  /-- The file at an address. -/
  file : String → Option Bytes
  /-- The text at an address. -/
  text : String → Option String

variable (net : Net)

def endsWith (s suffix : String) : Bool :=
  suffix.toList.isSuffixOf s.toList

/-- Each kind of asset is the last of its kind. -/
def takeAsset (info : ReleaseInfo) (asset : GhAsset) : ReleaseInfo :=
  if endsWith asset.name ".7z" then
    { info with archiveUrl := asset.browserDownloadUrl, archiveName := asset.name }
  else if endsWith asset.name ".sha256" then { info with sha256Url := asset.browserDownloadUrl }
  else if asset.name = "releases_manifest.json" then
    { info with manifestUrl := asset.browserDownloadUrl }
  else info

def fetchLatestRelease (repo : String) : Option ReleaseInfo := do
  let release ← net.latestRelease repo
  let version := String.ofList (release.tagName.toList.dropWhile fun c => c == 'v' || c == 'V')
  let info := release.assets.foldl takeAsset ⟨version, "", "", "", ""⟩
  if info.archiveUrl = "" then none else some info

def nightlyDownloadBase : String :=
  "https://github.com/ConquerD/ConquerD/releases/download/nightly"

/-- The platform the installer runs on. -/
inductive Os where
  | windows
  | macos
  | linux
  | other

def Os.currentPlatformId : Os → String
  | windows => "win64"
  | macos => "macos-arm64"
  | linux => "linux-x86_64"
  | other => "unknown"

def Os.nightlyArchiveName : Os → String
  | windows => "DoubleSlash-nightly-win64.7z"
  | macos => "DoubleSlash-nightly-macos-arm64.dmg"
  | linux => "DoubleSlash-nightly-x86_64.AppImage"
  | other => "DoubleSlash-nightly.7z"

def fetchNightlyRelease (os : Os) : ReleaseInfo where
  version := "nightly"
  archiveUrl := nightlyDownloadBase ++ "/" ++ os.nightlyArchiveName
  archiveName := os.nightlyArchiveName
  sha256Url := nightlyDownloadBase ++ "/" ++ os.nightlyArchiveName ++ ".sha256"
  manifestUrl := nightlyDownloadBase ++ "/releases_manifest.json"

def fetchRelease (os : Os) (repo : String) (nightly : Bool) : Option ReleaseInfo :=
  if nightly then some (fetchNightlyRelease os) else fetchLatestRelease net repo

/-- The first word of a checksum file, in lower case, when it has the length of a
hash. -/
def fetchSha256 (url : String) : Option String := do
  let content ← net.text url
  let word := (content.toList.dropWhile Char.isWhitespace).takeWhile fun c => !c.isWhitespace
  let hash := (String.ofList word).toLower
  if hash.utf8ByteSize = 64 then some hash else none

def verifyDownload (P : Platform) (data : Bytes) (expected : String) : Option Unit :=
  if P.sha256Hex data = expected then some () else none

def fetchReleaseManifest (url : String) : Option String :=
  net.text url

end ConquerD.Installer
