import ConquerD.Lib.Words
import Mathlib.Data.String.Basic
import Std.Data.ExtTreeSet

/-!
# Manager: host keys of the embedded SSH backend

The keys in `known_hosts`, the check of a server's key and the sessions that make it.
A session reads the file when it begins and is asked for a verdict when the server has
presented its key; until then other sessions may write to the file. Passwords and
commands are sent in sessions whose key was accepted.
-/

namespace ConquerD.Manager

open Std (ExtTreeSet)
open Lib.Words

/-- A host key as SSH writes it, kind and data. -/
structure HostKey where
  kind : String
  data : String
  kind_word : IsWord kind.toList
  data_word : IsWord data.toList

namespace HostKey

def toOpenssh (key : HostKey) : String :=
  key.kind ++ " " ++ key.data

end HostKey

/-! ## The file -/

/-- The host field of a line and the key behind it. -/
def parseLine (line : List Char) : Option (String × String) :=
  if trim line = [] ∨ (trim line).head? = some '#' then none
  else
    match words (trim line) with
    | host :: kind :: data :: _ =>
      some (String.ofList host, String.ofList kind ++ " " ++ String.ofList data)
    | _ => none

/-- The lines that name a key. -/
def entries (raw : String) : List (String × String) :=
  (lines raw.toList).filterMap parseLine

/-- The keys of all lines. The host fields are not looked at. -/
def parseKnownHosts (raw : String) : ExtTreeSet String :=
  ExtTreeSet.ofList ((entries raw).map (·.2))

structure KnownHosts where
  acceptedKeys : ExtTreeSet String

/-- What the check leaves: the keys in memory, the file, and the verdict. -/
structure Verified where
  knownHosts : KnownHosts
  file : Option String
  /-- `none` when the file could not be written. -/
  verdict : Option Bool

namespace KnownHosts

def load (file : Option String) : KnownHosts where
  acceptedKeys :=
    match file with
    | some raw => parseKnownHosts raw
    | none => ∅

def keyLine (host : String) (key : HostKey) : String :=
  host ++ " " ++ key.toOpenssh

def appendKey (file : Option String) (host : String) (key : HostKey) : String :=
  file.getD "" ++ keyLine host key ++ "\n"

/-- A key that is known is accepted, and any other is recorded and accepted. -/
def verifyOrAcceptNew (kh : KnownHosts) (file : Option String) (host : String) (key : HostKey)
    (appendFails : Bool) : Verified :=
  if key.toOpenssh ∈ kh.acceptedKeys then ⟨kh, file, some true⟩
  else
    let kh := { kh with acceptedKeys := kh.acceptedKeys.insert key.toOpenssh }
    if appendFails then ⟨kh, file, none⟩ else ⟨kh, some (appendKey file host key), some true⟩

end KnownHosts

/-! ## Sessions -/

inductive SessionPhase where
  /-- The server has not been checked. -/
  | greeting
  | trusted (key : HostKey)
  | closed

structure Session where
  host : String
  knownHosts : KnownHosts
  phase : SessionPhase

/-- The sessions of the backend, in the order they began, and the file they share. -/
structure SshBackend where
  file : Option String
  sessions : List Session

inductive SshEvent where
  | connect (host : String)
  /-- The server presents its key. -/
  | serverKey (session : Nat) (key : HostKey) (appendFails : Bool)
  /-- The client authenticates or runs a command. -/
  | proceed (session : Nat)

namespace SshBackend

def start (file : Option String) : SshBackend where
  file := file
  sessions := []

variable (s : SshBackend)

/-- The check, for a session that is still there. -/
def checkServerKey (n : Nat) (key : HostKey) (appendFails : Bool) : Option (Session × Verified) :=
  match s.sessions[n]? with
  | none => none
  | some session =>
    match session.phase with
    | .closed => none
    | _ =>
      some (session,
        session.knownHosts.verifyOrAcceptNew s.file session.host key appendFails)

/-- Host and key of the server that is sent a password or a command. -/
def reaches (n : Nat) : Option (String × HostKey) :=
  match s.sessions[n]? with
  | some session =>
    match session.phase with
    | .trusted key => some (session.host, key)
    | _ => none
  | none => none

def step : SshEvent → SshBackend
  | .connect host =>
    { s with sessions := s.sessions ++ [⟨host, KnownHosts.load s.file, .greeting⟩] }
  | .serverKey n key appendFails =>
    match s.checkServerKey n key appendFails with
    | none => s
    | some (session, v) =>
      { file := v.file
        sessions := s.sessions.set n
          { session with
            knownHosts := v.knownHosts
            phase := if v.verdict = some true then .trusted key else .closed } }
  | .proceed _ => s

end SshBackend

end ConquerD.Manager
