import ConquerD.Client.PeerStore
import ConquerD.Lib.Keyed
import ConquerD.Lib.Slice
import ConquerD.Wire.Platform

/-!
# Client: the room store

The rooms, tombstones and Spaces a client keeps, in memory and in one encrypted
file that each save writes anew. An operation changes memory first and saves
then; where it finds nothing to change in memory it does not save. A save may
fail, and then leaves some file behind. A log line cuts the ids to twelve bytes,
which panics inside a character. The signed root that is returned for a Space is
left out.
-/

namespace ConquerD.Client

open Std (ExtTreeMap ExtTreeSet)
open Lib.Encoding Lib.Keyed Lib.Slice Wire

/-! ## What is stored -/

structure RoomEntry where
  roomId : String
  roomName : String
  roomType : String
  supernodeId : String
  creatorId : String
  inviteToken : String
  isCreator : Bool
  spaceId : String
  parentId : String
  invitePolicy : String
  deriving DecidableEq

/-- A tree of rooms. -/
structure Space where
  spaceId : String
  ownerPub : String
  epoch : UInt64
  nodes : List SpaceNode
  deriving DecidableEq

/-- The id of a node, from its place. -/
def deriveNodeId (P : Platform) (parentId ownerPub name : String) : String :=
  String.ofList
    ((P.sha256Hex (utf8Bytes (parentId ++ ":" ++ ownerPub ++ ":" ++ name))).toList.take 16)

namespace Space

def newServer (P : Platform) (ownerPub serverName : String) : Space :=
  let spaceId := deriveNodeId P "" ownerPub serverName
  { spaceId := spaceId
    ownerPub := ownerPub
    epoch := 0
    nodes := [{
      nodeId := spaceId
      parentId := ""
      kind := "server"
      name := serverName
      nodeType := "public"
      ownerPub := ownerPub
      invitePolicy := "owner"
      inherit := false
      keyCommit := "" }] }

/-- Adds a node, or replaces the one with its id. -/
def upsertNode (space : Space) (node : SpaceNode) : Space :=
  { space with
    nodes :=
      match space.nodes.findIdx? fun n => n.nodeId == node.nodeId with
      | some i => space.nodes.set i node
      | none => space.nodes ++ [node]
    epoch := space.epoch + 1 }

end Space

/-- What is written to the file. -/
structure StoreData where
  schema : Nat
  rooms : List RoomEntry
  deletedIds : List String
  spaces : List Space
  deriving DecidableEq

/-- Serialising and encrypting, under the key of the store and with a nonce. What
was sealed is opened again. -/
structure StoreCodec (Sealed : Type) where
  sealUp : StoreData → Bytes → Sealed
  openUp : Sealed → Option StoreData
  openUp_sealUp : ∀ data nonce, openUp (sealUp data nonce) = some data

/-- The room store in memory. -/
structure Rooms where
  rooms : ExtTreeMap String RoomEntry
  deletedIds : ExtTreeSet String
  spaces : ExtTreeMap String Space

def Rooms.empty : Rooms := ⟨∅, ∅, ∅⟩

def entryKey (supernodeId roomId : String) : String :=
  supernodeId ++ ":" ++ roomId

def RoomEntry.key (entry : RoomEntry) : String :=
  entryKey entry.supernodeId entry.roomId

/-- An order in which a hash map is visited. -/
structure VisitOrder where
  order : {α : Type} → List α → List α
  perm : ∀ {α : Type} (l : List α), (order l).Perm l

namespace Rooms

variable (m : Rooms)

/-! ## Queries -/

def get (supernodeId roomId : String) : Option RoomEntry :=
  m.rooms[entryKey supernodeId roomId]?

def entryLe (a b : RoomEntry) : Bool :=
  ((compare a.supernodeId b.supernodeId).then (compare a.roomName b.roomName)).isLE

def list (v : VisitOrder) : List RoomEntry :=
  (v.order (values m.rooms)).mergeSort entryLe

def isHiddenFromSidebar (supernodeId roomId : String) : Bool :=
  m.deletedIds.contains (entryKey supernodeId roomId)

def getSpace (spaceId : String) : Option Space :=
  m.spaces[spaceId]?

/-! ## Load and save -/

/-- An entry without a supernode is malformed: it is logged and skipped. -/
def loadEntry (rooms : ExtTreeMap String RoomEntry) (e : RoomEntry) :
    Option (ExtTreeMap String RoomEntry) :=
  if e.supernodeId = "" then (sliceUpTo? e.roomId 12).map fun _ => rooms
  else some (rooms.insert e.key e)

def ofData (data : StoreData) : Option Rooms := do
  let rooms ← data.rooms.foldlM loadEntry ∅
  return {
    rooms := rooms
    deletedIds := data.deletedIds.foldl (fun ids id => ids.insert id) ∅
    spaces := fileAll Space.spaceId ∅ data.spaces }

def toData (v : VisitOrder) : StoreData where
  schema := 1
  rooms := m.list v
  deletedIds := v.order m.deletedIds.toList
  spaces := (v.order (values m.spaces)).mergeSort fun a b => (compare a.spaceId b.spaceId).isLE

end Rooms

/-- How an operation leaves memory before anything is saved. -/
inductive Change where
  /-- An error is returned. -/
  | refused (m : Rooms)
  /-- Nothing is saved, and that is fine. -/
  | kept (m : Rooms)
  | changed (m : Rooms)
  /-- A log line panics. -/
  | panicked (m : Rooms)

def Change.memory : Change → Rooms
  | .refused m => m
  | .kept m => m
  | .changed m => m
  | .panicked m => m

namespace Rooms

variable (m : Rooms)

/-! ## Rooms -/

/-- The ids as a log line has them. -/
def logged? (supernodeId roomId : String) : Option (String × String) := do
  let room ← sliceUpTo? roomId 12
  let supernode ← sliceUpTo? supernodeId 12
  return (room, supernode)

/-- Memory after a change that is logged. -/
def afterLog (supernodeId roomId : String) : Change :=
  if (logged? supernodeId roomId).isSome then .changed m else .panicked m

/-- The tombstone goes, the log line is written, and the room comes. -/
def store (entry : RoomEntry) : Change :=
  let shown := { m with deletedIds := m.deletedIds.erase entry.key }
  if (logged? entry.supernodeId entry.roomId).isSome then
    .changed { shown with rooms := m.rooms.insert entry.key entry }
  else .panicked shown

def add (entry : RoomEntry) : Change :=
  if entry.supernodeId = "" then .refused m else m.store entry

/-- The entry with what is kept of the one that is stored. -/
def mergeEntry (existing entry : RoomEntry) : RoomEntry :=
  let keepName := entry.roomName == "" ||
    (entry.roomName == entry.roomId && existing.roomName != "" &&
      existing.roomName != existing.roomId)
  let keepType := entry.roomType == "" ||
    (existing.roomType == "private" && entry.roomType == "public" &&
      (existing.isCreator || existing.inviteToken != ""))
  { entry with
    roomName := if keepName then existing.roomName else entry.roomName
    roomType := if keepType then existing.roomType else entry.roomType
    creatorId := if entry.creatorId = "" then existing.creatorId else entry.creatorId
    inviteToken := if entry.inviteToken = "" then existing.inviteToken else entry.inviteToken
    spaceId := if entry.spaceId = "" then existing.spaceId else entry.spaceId
    parentId := if entry.parentId = "" then existing.parentId else entry.parentId
    invitePolicy := if entry.invitePolicy = "" then existing.invitePolicy else entry.invitePolicy
    isCreator := entry.isCreator || existing.isCreator }

def merged (entry : RoomEntry) : RoomEntry :=
  match m.rooms[entry.key]? with
  | some existing => mergeEntry existing entry
  | none => entry

/-- Merges without saving; the change tells whether there was anything to merge. -/
def mergeInMemory (entry : RoomEntry) : Change :=
  if entry.supernodeId = "" then .refused m
  else
    let merged := m.merged entry
    let wasHidden := m.deletedIds.contains merged.key
    if m.rooms[entry.key]? = some merged ∧ wasHidden = false then .kept m else m.store merged

def upsert (entry : RoomEntry) : Change :=
  m.mergeInMemory entry

/-- A room that the user hid is not brought back by a list. -/
def skippedFromRemote (entry : RoomEntry) : Bool :=
  entry.supernodeId != "" && m.isHiddenFromSidebar entry.supernodeId entry.roomId

def upsertFromRemote (entry : RoomEntry) : Change :=
  if m.skippedFromRemote entry then .kept m else m.upsert entry

/-- One entry of a list, after some. An entry that is refused is only logged. -/
def mergeNext (c : Change) (entry : RoomEntry) : Change :=
  match c with
  | .panicked m => .panicked m
  | c =>
    if c.memory.skippedFromRemote entry then c
    else
      match c.memory.mergeInMemory entry with
      | .changed m => .changed m
      | .panicked m => .panicked m
      | _ => c

def upsertManyFromRemote (entries : List RoomEntry) : Change :=
  entries.foldl mergeNext (.kept m)

def remove (supernodeId roomId : String) : Change :=
  afterLog
    { m with
      rooms := m.rooms.erase (entryKey supernodeId roomId)
      deletedIds := m.deletedIds.insert (entryKey supernodeId roomId) }
    supernodeId roomId

def hideFromSidebar (supernodeId roomId : String) : Change :=
  afterLog { m with deletedIds := m.deletedIds.insert (entryKey supernodeId roomId) }
    supernodeId roomId

def unhideFromSidebar (supernodeId roomId : String) : Change :=
  if m.deletedIds.contains (entryKey supernodeId roomId) then
    afterLog { m with deletedIds := m.deletedIds.erase (entryKey supernodeId roomId) }
      supernodeId roomId
  else .kept m

/-! ## Spaces -/

/-- Only what is given is written over. -/
def linked (entry : RoomEntry) (parentId spaceId : String) : RoomEntry :=
  { entry with
    parentId := if parentId = "" then entry.parentId else parentId
    spaceId := if spaceId = "" then entry.spaceId else spaceId }

def setSpaceLinkage (supernodeId roomId parentId spaceId : String) : Change :=
  match m.rooms[entryKey supernodeId roomId]? with
  | none => .kept m
  | some entry =>
    if linked entry parentId spaceId = entry then .kept m
    else
      .changed { m with
        rooms := m.rooms.insert (entryKey supernodeId roomId) (linked entry parentId spaceId) }

/-- ASCII letters in lower case. -/
def asciiLower (s : String) : String :=
  s.map Char.toLower

def adoptRoomIntoSpace (P : Platform) (ownerPub supernodeId roomId roomName roomType
    parentNodeId : String) : Change :=
  let spaceId := deriveNodeId P "" ownerPub supernodeId
  let parentId := if parentNodeId = "" ∨ parentNodeId = roomId then spaceId else parentNodeId
  let space := (m.spaces[spaceId]?).getD (.newServer P ownerPub supernodeId)
  let space := space.upsertNode {
    nodeId := roomId
    parentId := parentId
    kind := "room"
    name := roomName
    nodeType := if asciiLower roomType = "private" then "private" else "public"
    ownerPub := ownerPub
    invitePolicy := ""
    inherit := false
    keyCommit := "" }
  .changed { m with
    spaces := m.spaces.insert spaceId space
    rooms :=
      match m.rooms[entryKey supernodeId roomId]? with
      | none => m.rooms
      | some entry => m.rooms.insert (entryKey supernodeId roomId)
          { entry with spaceId := spaceId, parentId := parentId } }

/-! ## Canonical supernode ids -/

/-- An entry goes under the canonical id of its supernode. -/
def moveEntry (resolve : String → Option String) (c : Change) (entry : RoomEntry) : Change :=
  match resolve entry.supernodeId with
  | none => c
  | some canon =>
    if canon = entry.supernodeId then c
    else
      let moved := { entry with supernodeId := canon }
      .changed { c.memory with
        rooms := (c.memory.rooms.erase entry.key).insert moved.key moved }

/-- A tombstone goes under the canonical id of its supernode. The id ends at the
first colon. -/
def moveTombstone (resolve : String → Option String) (c : Change) (key : String) : Change :=
  let sn := String.ofList (key.toList.takeWhile (· ≠ ':'))
  if ':' ∈ key.toList then
    match resolve sn with
    | none => c
    | some canon =>
      if canon = sn then c
      else
        .changed { c.memory with
          deletedIds := (c.memory.deletedIds.erase key).insert
            (entryKey canon (String.ofList ((key.toList.dropWhile (· ≠ ':')).drop 1))) }
  else c

def normalizeSupernodeIds (resolve : String → Option String) (v : VisitOrder) : Change :=
  let moved := (v.order (values m.rooms)).foldl (moveEntry resolve) (.kept m)
  (v.order m.deletedIds.toList).foldl (moveTombstone resolve) moved

end Rooms

/-! ## Runs -/

inductive RoomStoreOp where
  | add (entry : RoomEntry)
  | upsert (entry : RoomEntry)
  | upsertFromRemote (entry : RoomEntry)
  | upsertManyFromRemote (entries : List RoomEntry)
  | remove (supernodeId roomId : String)
  | hideFromSidebar (supernodeId roomId : String)
  | unhideFromSidebar (supernodeId roomId : String)
  | setSpaceLinkage (supernodeId roomId parentId spaceId : String)
  | adoptRoomIntoSpace (ownerPub supernodeId roomId roomName roomType parentNodeId : String)
  | normalizeSupernodeIds (peerStore : PeerStore) (order : List String) (v : VisitOrder)

def RoomStoreOp.apply (P : Platform) (m : Rooms) : RoomStoreOp → Change
  | .add entry => m.add entry
  | .upsert entry => m.upsert entry
  | .upsertFromRemote entry => m.upsertFromRemote entry
  | .upsertManyFromRemote entries => m.upsertManyFromRemote entries
  | .remove supernodeId roomId => m.remove supernodeId roomId
  | .hideFromSidebar supernodeId roomId => m.hideFromSidebar supernodeId roomId
  | .unhideFromSidebar supernodeId roomId => m.unhideFromSidebar supernodeId roomId
  | .setSpaceLinkage supernodeId roomId parentId spaceId =>
    m.setSpaceLinkage supernodeId roomId parentId spaceId
  | .adoptRoomIntoSpace ownerPub supernodeId roomId roomName roomType parentNodeId =>
    m.adoptRoomIntoSpace P ownerPub supernodeId roomId roomName roomType parentNodeId
  | .normalizeSupernodeIds peerStore order v =>
    m.normalizeSupernodeIds (peerStore.resolveSupernodeIdentityPub order) v

/-- A save: the order the maps are visited in, the nonce, and the file that is left
where the save fails. -/
structure SaveEnv (Sealed : Type) where
  visit : VisitOrder
  nonce : Bytes
  failed : Option (Option Sealed)

structure RoomStore (Sealed : Type) where
  memory : Rooms
  file : Option Sealed

namespace RoomStore

variable {Sealed : Type} (C : StoreCodec Sealed) (P : Platform) (s : RoomStore Sealed)

/-- A store without a file. -/
def fresh : RoomStore Sealed := ⟨.empty, none⟩

/-- What opening the file gives. -/
def load (file : Option Sealed) : Option Rooms :=
  match file with
  | none => some .empty
  | some envelope => (C.openUp envelope).bind Rooms.ofData

/-- The file after a save, and whether the save went well. -/
def save (env : SaveEnv Sealed) (m : Rooms) : RoomStore Sealed × Bool :=
  match env.failed with
  | some left => (⟨m, left⟩, false)
  | none => (⟨m, some (C.sealUp (m.toData env.visit) env.nonce)⟩, true)

/-- An operation, and whether it returned, and without an error. -/
def perform (op : RoomStoreOp) (env : SaveEnv Sealed) : RoomStore Sealed × Bool :=
  match op.apply P s.memory with
  | .refused m => ({ s with memory := m }, false)
  | .kept m => ({ s with memory := m }, true)
  | .changed m => save C env m
  | .panicked m => ({ s with memory := m }, false)

def step (i : RoomStoreOp × SaveEnv Sealed) : RoomStore Sealed :=
  (s.perform C P i.1 i.2).1

end RoomStore

end ConquerD.Client
