import ConquerD.Client.Delta
import Std.Data.ExtTreeMap

/-!
# Client: where received files are kept

A large file is written to a partial file while it arrives and renamed when it
is complete. The disk is what its paths hold; whether an operation on it
succeeds is told from outside.
-/

namespace ConquerD.Client

open Std (ExtTreeMap)
open Lib.Encoding

/-- The contents of the files, by path. -/
abbrev Disk := ExtTreeMap String Bytes

/-- What one step of a file transfer reads from outside. -/
structure FileEnv where
  /-- Wall clock, seconds. -/
  now : Rat
  /-- A fresh random id. -/
  uuid : String
  downloadDir : String
  /-- The partial file can be opened. -/
  canOpen : Bool
  canWrite : Bool
  /-- The length can be set and the data flushed. -/
  canFinalize : Bool
  /-- A finished file can be read back. -/
  canReadBack : Bool
  canRename : Bool
  /-- The source can be read at a chunk. -/
  canRead : Nat → Bool
  /-- The text of an error of the operating system. -/
  ioError : String

/-- Every operation on a received file succeeds. -/
def FileEnv.StorageWorks (env : FileEnv) : Prop :=
  env.canOpen = true ∧ env.canWrite = true ∧ env.canFinalize = true ∧ env.canReadBack = true ∧
    env.canRename = true

/-! ## File names -/

def isSeparator (c : Char) : Bool :=
  c == '/' || c == '\\'

def reservedDeviceNames : List String :=
  ["CON", "PRN", "AUX", "NUL", "COM1", "COM2", "COM3", "COM4", "COM5", "COM6", "COM7", "COM8",
    "COM9", "LPT1", "LPT2", "LPT3", "LPT4", "LPT5", "LPT6", "LPT7", "LPT8", "LPT9"]

/-- Names that are devices whatever their case. -/
def isReservedDeviceName (stem : List Char) : Bool :=
  reservedDeviceNames.any fun r => r.toList.map Char.toLower == stem.map Char.toLower

/-- The last component of a path, made harmless: no alternate stream, no
trailing dots or blanks, no device. -/
def safeFileName (relPath : String) : String :=
  let base := (relPath.toList.rdropWhile isSeparator).rtakeWhile fun c => !isSeparator c
  let base := base.takeWhile (· != ':')
  let base := base.rdropWhile fun c => c == '.' || c == ' '
  if base = [] ∨ base = ['.'] ∨ base = ['.', '.'] then "received_file"
  else if isReservedDeviceName (base.takeWhile (· != '.')) then "_" ++ String.ofList base
  else String.ofList base

def joinPath (dir name : String) : String :=
  dir ++ "/" ++ name

/-- The directory of a path. -/
def parentDir (path : String) : Option String :=
  let cs := path.toList.rdropWhile (· != '/')
  if cs = [] then none else some (String.ofList cs.dropLast)

/-- A name split at its last dot, unless the dot is its first character. -/
def splitExtension (name : String) : String × Option String :=
  let ext := name.toList.rtakeWhile (· != '.')
  let stem := (name.toList.rdropWhile (· != '.')).dropLast
  if stem = [] then (name, none) else (String.ofList stem, some (String.ofList ext))

/-- The `n`-th other name to try. -/
def numberedName (name : String) (n : Nat) : String :=
  match splitExtension name with
  | (stem, some ext) => stem ++ " (" ++ toString n ++ ")." ++ ext
  | (stem, none) => stem ++ " (" ++ toString n ++ ")"

/-- The first path that is free: the plain name, or a numbered one. -/
def uniqueDestPath (disk : Disk) (dir fileName : String) : String :=
  if !disk.contains (joinPath dir fileName) then joinPath dir fileName
  else
    (((List.range 9999).map fun n => joinPath dir (numberedName fileName (n + 1))).find?
      fun p => !disk.contains p).getD (joinPath dir fileName)

/-! ## Partial files -/

def partPath (env : FileEnv) (relPath transferId : String) : String :=
  joinPath env.downloadDir (safeFileName relPath ++ "." ++ transferId ++ ".part")

/-- Creates the partial file of a transfer, or empties it. -/
def openPartFile (env : FileEnv) (disk : Disk) (relPath transferId : String) :
    Except String (Disk × String) :=
  if env.canOpen then
    .ok (disk.insert (partPath env relPath transferId) [], partPath env relPath transferId)
  else .error env.ioError

/-- Renames a complete partial file to a name that is free. -/
def promotePartFile (env : FileEnv) (disk : Disk) (part relPath : String) :
    Except String (Disk × String) :=
  let dest := uniqueDestPath disk ((parentDir part).getD env.downloadDir) (safeFileName relPath)
  match disk[part]? with
  | some content =>
    if env.canRename then .ok ((disk.erase part).insert dest content, dest) else .error env.ioError
  | none => .error env.ioError

end ConquerD.Client
