import ConquerD.Client.RoomStore
import ConquerD.Wire.Space

/-!
# The room store keeps what it acknowledges

An operation that saves keeps its promise when the save goes well, and returns an
error otherwise. One that finds nothing to change compares with memory alone, so it
is right only where the file still holds what memory holds. A room that is moved to
an empty supernode id is written, and skipped when it is read.
-/

namespace ConquerD.Client

open Std (ExtTreeMap ExtTreeSet)
open Lib.Keyed Lib.Run Wire

/-! ## What is promised -/

namespace Rooms

variable (m : Rooms)

/-- The file has the rooms, tombstones and Spaces of memory, each once. -/
structure Persisted (data : StoreData) : Prop where
  rooms : data.rooms.Perm (values m.rooms)
  deletedIds : data.deletedIds.Perm m.deletedIds.toList
  spaces : data.spaces.Perm (values m.spaces)

/-- Two stores answer alike. -/
structure Alike (m' : Rooms) : Prop where
  get : ∀ supernodeId roomId, m.get supernodeId roomId = m'.get supernodeId roomId
  list : ∀ v, m.list v = m'.list v
  hidden : ∀ supernodeId roomId,
    m.isHiddenFromSidebar supernodeId roomId = m'.isHiddenFromSidebar supernodeId roomId
  space : ∀ spaceId, m.getSpace spaceId = m'.getSpace spaceId

/-- Rooms and Spaces are filed under their own keys, and every room has a supernode. -/
structure Sound : Prop where
  rooms : FiledBy RoomEntry.key m.rooms
  named : ∀ (k : String) (e : RoomEntry), m.rooms[k]? = some e → e.supernodeId ≠ ""
  spaces : FiledBy Space.spaceId m.spaces

end Rooms

namespace RoomStore

variable {Sealed : Type} (C : StoreCodec Sealed) (P : Platform) (s : RoomStore Sealed)

/-- What the file holds. -/
def persistedData : Option StoreData :=
  match s.file with
  | none => some ⟨1, [], [], []⟩
  | some envelope => C.openUp envelope

/-- The file holds what memory holds. -/
def InStep : Prop :=
  ∃ data, s.persistedData C = some data ∧ s.memory.Persisted data

/-- The file holds what memory holds, and opening it gives a store that answers alike. -/
structure Durable : Prop where
  inStep : s.InStep C
  reloads : ∃ m, load C s.file = some m ∧ m.Alike s.memory

/-- An operation that returns without an error leaves the store durable. -/
def KeepsPromise (i : RoomStoreOp × SaveEnv Sealed) : Prop :=
  (s.perform C P i.1 i.2).2 = true → (s.step C P i).Durable C

/-- No stored room is moved to an empty supernode id. -/
def NamesRooms (m : Rooms) : RoomStoreOp → Prop
  | .normalizeSupernodeIds peerStore order _ =>
    ∀ (k : String) (e : RoomEntry), m.rooms[k]? = some e →
      peerStore.resolveSupernodeIdentityPub order e.supernodeId ≠ some ""
  | _ => True

/-- No stored room loses its supernode, and an operation that finds nothing to change
finds a file that holds what memory holds. -/
structure SafeStep (i : RoomStoreOp × SaveEnv Sealed) : Prop where
  named : NamesRooms s.memory i.1
  inStep : ∀ m, i.1.apply P s.memory = .kept m → s.InStep C

end RoomStore

/-! ## Memory and file -/

namespace Rooms

variable {m : Rooms}

theorem sound_empty : Rooms.empty.Sound where
  rooms := filedBy_empty
  named k e h := by simp [Rooms.empty] at h
  spaces := filedBy_empty

theorem Alike.refl (m : Rooms) : m.Alike m :=
  ⟨fun _ _ => rfl, fun _ => rfl, fun _ _ => rfl, fun _ => rfl⟩

theorem persisted_toData (m : Rooms) (v : VisitOrder) : m.Persisted (m.toData v) where
  rooms := (List.mergeSort_perm _ _).trans (v.perm _)
  deletedIds := v.perm _
  spaces := (List.mergeSort_perm _ _).trans (v.perm _)

theorem foldlM_named {l : List RoomEntry} (h : ∀ e ∈ l, e.supernodeId ≠ "")
    (rooms : ExtTreeMap String RoomEntry) :
    l.foldlM loadEntry rooms = some (fileAll RoomEntry.key rooms l) := by
  induction l generalizing rooms with
  | nil => rfl
  | cons e l ih =>
    rw [List.foldlM_cons, loadEntry, if_neg (h e List.mem_cons_self)]
    exact ih (fun a ha => h a (List.mem_cons_of_mem e ha)) _

theorem ofData_of_persisted (hm : m.Sound) {data : StoreData} (h : m.Persisted data) :
    ofData data = some m := by
  obtain ⟨rooms, deletedIds, spaces⟩ := m
  have hnamed : ∀ e ∈ data.rooms, e.supernodeId ≠ "" := by
    intro e he
    obtain ⟨k, hk⟩ := mem_values.mp (h.rooms.mem_iff.mp he)
    exact hm.named k e hk
  have hrooms := (foldlM_named hnamed ∅).trans
    (congrArg some (hm.rooms.fileAll_values h.rooms))
  have hids := foldl_insert_toList h.deletedIds
  have hspaces := hm.spaces.fileAll_values h.spaces
  unfold ofData
  rw [hrooms, hids, hspaces]
  rfl

end Rooms

namespace RoomStore

variable {Sealed : Type} (C : StoreCodec Sealed) {s : RoomStore Sealed}

theorem load_eq_bind (file : Option Sealed) (m : Rooms) :
    load C file = (persistedData C ⟨m, file⟩).bind Rooms.ofData := by
  cases file <;> rfl

theorem InStep.durable (h : s.InStep C) (hm : s.memory.Sound) : s.Durable C := by
  refine ⟨h, s.memory, ?_, .refl _⟩
  obtain ⟨data, hdata, hpersisted⟩ := h
  have hload : load C s.file = (s.persistedData C).bind Rooms.ofData :=
    load_eq_bind C s.file s.memory
  rw [hload, hdata, Option.bind_some, Rooms.ofData_of_persisted hm hpersisted]

theorem durable_save {m : Rooms} (hm : m.Sound) (env : SaveEnv Sealed)
    (h : (save C env m).2 = true) : (save C env m).1.Durable C := by
  unfold save at h ⊢
  split at h
  · cases h
  · next hwritten =>
    have hin : InStep C ⟨m, some (C.sealUp (m.toData env.visit) env.nonce)⟩ :=
      ⟨_, C.openUp_sealUp _ _, m.persisted_toData env.visit⟩
    exact hin.durable C hm

theorem save_memory (env : SaveEnv Sealed) (m : Rooms) : (save C env m).1.memory = m := by
  unfold save
  split <;> rfl

end RoomStore

/-! ## Memory stays sound -/

namespace Rooms

variable {m : Rooms}

theorem Sound.withTombstones (h : m.Sound) (deletedIds : ExtTreeSet String) :
    Sound { m with deletedIds := deletedIds } :=
  ⟨h.rooms, h.named, h.spaces⟩

theorem Sound.insertRoom (h : m.Sound) {e : RoomEntry} (he : e.supernodeId ≠ "") :
    Sound { m with rooms := m.rooms.insert e.key e } where
  rooms := h.rooms.insert e
  named k e' he' := by
    rw [ExtTreeMap.getElem?_insert] at he'
    split at he'
    · exact Option.some.inj he' ▸ he
    · exact h.named k e' he'
  spaces := h.spaces

theorem Sound.eraseRoom (h : m.Sound) (key : String) :
    Sound { m with rooms := m.rooms.erase key } where
  rooms := h.rooms.erase key
  named k e' he' := by
    rw [ExtTreeMap.getElem?_erase] at he'
    split at he'
    · cases he'
    · exact h.named k e' he'
  spaces := h.spaces

theorem Sound.insertSpace (h : m.Sound) (space : Space) :
    Sound { m with spaces := m.spaces.insert space.spaceId space } :=
  ⟨h.rooms, h.named, h.spaces.insert space⟩

theorem key_merged (entry : RoomEntry) : (m.merged entry).key = entry.key := by
  unfold merged
  split <;> rfl

theorem supernodeId_merged (entry : RoomEntry) :
    (m.merged entry).supernodeId = entry.supernodeId := by
  unfold merged
  split <;> rfl

theorem Sound.afterLog (h : m.Sound) (supernodeId roomId : String) :
    (m.afterLog supernodeId roomId).memory.Sound := by
  unfold Rooms.afterLog
  split <;> exact h

theorem Sound.store (h : m.Sound) {entry : RoomEntry} (hentry : entry.supernodeId ≠ "") :
    (m.store entry).memory.Sound := by
  unfold Rooms.store
  split
  · exact (h.insertRoom hentry).withTombstones _
  · exact h.withTombstones _

theorem Sound.mergeInMemory (h : m.Sound) (entry : RoomEntry) :
    (m.mergeInMemory entry).memory.Sound := by
  unfold Rooms.mergeInMemory
  split
  · exact h
  · next hnamed =>
    dsimp only
    split
    · exact h
    · exact h.store (supernodeId_merged entry ▸ hnamed)

theorem Sound.mergeNext {c : Change} (h : c.memory.Sound) (entry : RoomEntry) :
    (mergeNext c entry).memory.Sound := by
  have hmerge := h.mergeInMemory entry
  unfold Rooms.mergeNext
  split
  · exact h
  · split
    · exact h
    · split
      · next heq => rwa [heq] at hmerge
      · next heq => rwa [heq] at hmerge
      · exact h

theorem Sound.moveEntry {resolve : String → Option String} {c : Change} (h : c.memory.Sound)
    {entry : RoomEntry} (hentry : resolve entry.supernodeId ≠ some "") :
    (moveEntry resolve c entry).memory.Sound := by
  unfold Rooms.moveEntry
  split
  · exact h
  · next canon hcanon =>
    split
    · exact h
    · have hne : canon ≠ "" := fun hempty => hentry (hempty ▸ hcanon)
      exact (h.eraseRoom entry.key).insertRoom (e := { entry with supernodeId := canon }) hne

theorem Sound.moveTombstone {resolve : String → Option String} {c : Change} (h : c.memory.Sound)
    (key : String) : (moveTombstone resolve c key).memory.Sound := by
  unfold Rooms.moveTombstone
  dsimp only
  split
  · split
    · exact h
    · split
      · exact h
      · exact h.withTombstones _
  · exact h

theorem sound_foldl {α : Type} {f : Change → α → Change} {l : List α}
    (hf : ∀ c, c.memory.Sound → ∀ a ∈ l, (f c a).memory.Sound) {c : Change}
    (hc : c.memory.Sound) : (l.foldl f c).memory.Sound := by
  induction l generalizing c with
  | nil => exact hc
  | cons a l ih =>
    refine ih (fun c hc b hb => hf c hc b (List.mem_cons_of_mem a hb)) ?_
    exact hf c hc a List.mem_cons_self

theorem Sound.spaceId_getD (h : m.Sound) (P : Platform) (ownerPub supernodeId : String) :
    ((m.spaces[deriveNodeId P "" ownerPub supernodeId]?).getD
      (.newServer P ownerPub supernodeId)).spaceId = deriveNodeId P "" ownerPub supernodeId := by
  rcases Option.eq_none_or_eq_some m.spaces[deriveNodeId P "" ownerPub supernodeId]? with
    hnone | ⟨space, hsome⟩
  · rw [hnone]
    rfl
  · rw [hsome]
    exact h.spaces _ _ hsome

/-- A stored room keeps its place when other fields than its ids are changed. -/
theorem Sound.updateRoom (h : m.Sound) {supernodeId roomId : String} {entry changed : RoomEntry}
    (hentry : m.rooms[entryKey supernodeId roomId]? = some entry)
    (hsn : changed.supernodeId = entry.supernodeId) (hid : changed.roomId = entry.roomId) :
    Sound { m with rooms := m.rooms.insert (entryKey supernodeId roomId) changed } := by
  have hkey : changed.key = entryKey supernodeId roomId := by
    rw [RoomEntry.key, hsn, hid]
    exact h.rooms _ _ hentry
  rw [← hkey]
  exact h.insertRoom (hsn ▸ h.named _ _ hentry)

theorem Sound.adoptRoomIntoSpace (h : m.Sound) (P : Platform)
    (ownerPub supernodeId roomId roomName roomType parentNodeId : String) :
    (m.adoptRoomIntoSpace P ownerPub supernodeId roomId roomName roomType
      parentNodeId).memory.Sound := by
  have hspace (node : SpaceNode) : Sound { m with
      spaces := m.spaces.insert (deriveNodeId P "" ownerPub supernodeId)
        (((m.spaces[deriveNodeId P "" ownerPub supernodeId]?).getD
          (.newServer P ownerPub supernodeId)).upsertNode node) } := by
    have hinsert := h.insertSpace (((m.spaces[deriveNodeId P "" ownerPub supernodeId]?).getD
      (.newServer P ownerPub supernodeId)).upsertNode node)
    have hid := h.spaceId_getD P ownerPub supernodeId
    have hplace : (((m.spaces[deriveNodeId P "" ownerPub supernodeId]?).getD
        (.newServer P ownerPub supernodeId)).upsertNode node).spaceId =
          deriveNodeId P "" ownerPub supernodeId := hid
    rwa [hplace] at hinsert
  unfold Rooms.adoptRoomIntoSpace
  dsimp only [Change.memory]
  split
  · exact hspace _
  · next entry hentry => exact (hspace _).updateRoom hentry rfl rfl

theorem Sound.apply (P : Platform) (h : m.Sound) {op : RoomStoreOp}
    (hop : RoomStore.NamesRooms m op) : (op.apply P m).memory.Sound := by
  cases op with
  | add entry =>
    simp only [RoomStoreOp.apply, add]
    split
    · exact h
    · next hnamed => exact h.store hnamed
  | upsert entry => exact h.mergeInMemory entry
  | upsertFromRemote entry =>
    simp only [RoomStoreOp.apply, upsertFromRemote]
    split
    · exact h
    · exact h.mergeInMemory entry
  | upsertManyFromRemote entries =>
    exact sound_foldl (fun c hc e _ => hc.mergeNext e) h
  | remove supernodeId roomId =>
    exact ((h.eraseRoom _).withTombstones _).afterLog supernodeId roomId
  | hideFromSidebar supernodeId roomId =>
    exact (h.withTombstones _).afterLog supernodeId roomId
  | unhideFromSidebar supernodeId roomId =>
    simp only [RoomStoreOp.apply, unhideFromSidebar]
    split
    · exact (h.withTombstones _).afterLog supernodeId roomId
    · exact h
  | setSpaceLinkage supernodeId roomId parentId spaceId =>
    simp only [RoomStoreOp.apply, setSpaceLinkage]
    split
    · exact h
    · next entry hentry =>
      split
      · exact h
      · exact h.updateRoom hentry rfl rfl
  | adoptRoomIntoSpace ownerPub supernodeId roomId roomName roomType parentNodeId =>
    exact h.adoptRoomIntoSpace P _ _ _ _ _ _
  | normalizeSupernodeIds peerStore order v =>
    have hentries : ∀ e ∈ v.order (values m.rooms),
        peerStore.resolveSupernodeIdentityPub order e.supernodeId ≠ some "" := by
      intro e he
      obtain ⟨k, hk⟩ := mem_values.mp ((v.perm _).mem_iff.mp he)
      exact hop k e hk
    have hmoved := sound_foldl (fun c hc e he => hc.moveEntry (hentries e he)) (c := .kept m) h
    exact sound_foldl (fun c hc key _ => hc.moveTombstone key) hmoved

/-! ## What is loaded is sound -/

variable {ids : ExtTreeSet String} {spaces : ExtTreeMap String Space}

theorem Sound.loadEntry {rooms rooms' : ExtTreeMap String RoomEntry} {e : RoomEntry}
    (h : Sound ⟨rooms, ids, spaces⟩) (hload : loadEntry rooms e = some rooms') :
    Sound ⟨rooms', ids, spaces⟩ := by
  unfold Rooms.loadEntry at hload
  split at hload
  · obtain ⟨_, -, rfl⟩ := Option.map_eq_some_iff.mp hload
    exact h
  · next hnamed =>
    obtain rfl := Option.some.inj hload
    exact h.insertRoom hnamed

theorem Sound.loadEntries {l : List RoomEntry} {rooms rooms' : ExtTreeMap String RoomEntry}
    (h : Sound ⟨rooms, ids, spaces⟩) (hload : l.foldlM Rooms.loadEntry rooms = some rooms') :
    Sound ⟨rooms', ids, spaces⟩ := by
  induction l generalizing rooms with
  | nil => exact Option.some.inj hload ▸ h
  | cons e l ih =>
    rw [List.foldlM_cons] at hload
    obtain ⟨rooms₁, hfirst, hrest⟩ := Option.bind_eq_some_iff.mp hload
    exact ih (h.loadEntry hfirst) hrest

theorem sound_ofData {data : StoreData} (h : ofData data = some m) : m.Sound := by
  obtain ⟨rooms, hrooms, hm⟩ := Option.bind_eq_some_iff.mp h
  obtain rfl := Option.some.inj hm
  have hempty : Sound ⟨∅, data.deletedIds.foldl (fun ids id => ids.insert id) ∅,
      fileAll Space.spaceId ∅ data.spaces⟩ :=
    ⟨sound_empty.rooms, sound_empty.named, filedBy_fileAll filedBy_empty data.spaces⟩
  exact hempty.loadEntries hrooms

/-! ## What is kept is kept -/

theorem store_ne_kept (m : Rooms) (entry : RoomEntry) (m' : Rooms) : m.store entry ≠ .kept m' := by
  unfold store
  split <;> exact nofun

theorem afterLog_ne_kept (m : Rooms) (supernodeId roomId : String) (m' : Rooms) :
    m.afterLog supernodeId roomId ≠ .kept m' := by
  unfold afterLog
  split <;> exact nofun

theorem mergeInMemory_kept {m' : Rooms} {entry : RoomEntry}
    (h : m.mergeInMemory entry = .kept m') : m' = m := by
  unfold mergeInMemory at h
  split at h
  · cases h
  · dsimp only at h
    split at h
    · exact (Change.kept.inj h).symm
    · exact absurd h (store_ne_kept _ _ _)

/-- Where a fold of steps that pass on what they get, or change something, has kept
memory, so had what it began with. -/
theorem kept_foldl {α : Type} {f : Change → α → Change}
    (hf : ∀ c a, f c a = c ∨ ∀ m', f c a ≠ .kept m') {l : List α} {c : Change} {m' : Rooms}
    (h : l.foldl f c = .kept m') : c = .kept m' := by
  induction l generalizing c with
  | nil => exact h
  | cons a l ih =>
    have hnext := ih h
    rcases hf c a with heq | hne
    · exact heq ▸ hnext
    · exact absurd hnext (hne m')

theorem mergeNext_cases (c : Change) (entry : RoomEntry) :
    mergeNext c entry = c ∨ ∀ m', mergeNext c entry ≠ .kept m' := by
  unfold mergeNext
  split
  · exact .inl rfl
  · split
    · exact .inl rfl
    · split
      · exact .inr nofun
      · exact .inr nofun
      · exact .inl rfl

theorem moveEntry_cases (resolve : String → Option String) (c : Change) (entry : RoomEntry) :
    moveEntry resolve c entry = c ∨ ∀ m', moveEntry resolve c entry ≠ .kept m' := by
  unfold moveEntry
  split
  · exact .inl rfl
  · split
    · exact .inl rfl
    · exact .inr nofun

theorem moveTombstone_cases (resolve : String → Option String) (c : Change) (key : String) :
    moveTombstone resolve c key = c ∨ ∀ m', moveTombstone resolve c key ≠ .kept m' := by
  unfold moveTombstone
  dsimp only
  split
  · split
    · exact .inl rfl
    · split
      · exact .inl rfl
      · exact .inr nofun
  · exact .inl rfl

theorem apply_kept {P : Platform} {op : RoomStoreOp} {m' : Rooms}
    (h : op.apply P m = .kept m') : m' = m := by
  cases op with
  | add entry =>
    simp only [RoomStoreOp.apply, add] at h
    split at h
    · cases h
    · exact absurd h (store_ne_kept _ _ _)
  | upsert entry => exact mergeInMemory_kept h
  | upsertFromRemote entry =>
    simp only [RoomStoreOp.apply, upsertFromRemote] at h
    split at h
    · exact (Change.kept.inj h).symm
    · exact mergeInMemory_kept h
  | upsertManyFromRemote entries =>
    exact (Change.kept.inj (kept_foldl mergeNext_cases h)).symm
  | remove supernodeId roomId => exact absurd h (afterLog_ne_kept _ _ _ _)
  | hideFromSidebar supernodeId roomId => exact absurd h (afterLog_ne_kept _ _ _ _)
  | unhideFromSidebar supernodeId roomId =>
    simp only [RoomStoreOp.apply, unhideFromSidebar] at h
    split at h
    · exact absurd h (afterLog_ne_kept _ _ _ _)
    · exact (Change.kept.inj h).symm
  | setSpaceLinkage supernodeId roomId parentId spaceId =>
    simp only [RoomStoreOp.apply, setSpaceLinkage] at h
    split at h
    · exact (Change.kept.inj h).symm
    · split at h
      · exact (Change.kept.inj h).symm
      · cases h
  | adoptRoomIntoSpace ownerPub supernodeId roomId roomName roomType parentNodeId => cases h
  | normalizeSupernodeIds peerStore order v =>
    have hmoved := kept_foldl (moveTombstone_cases _) h
    exact (Change.kept.inj (kept_foldl (moveEntry_cases _) hmoved)).symm

end Rooms

/-! ## Runs -/

namespace RoomStore

variable {Sealed : Type} (C : StoreCodec Sealed) (P : Platform) {s : RoomStore Sealed}
  {i : RoomStoreOp × SaveEnv Sealed}

theorem sound_load {file : Option Sealed} {m : Rooms} (h : load C file = some m) : m.Sound := by
  cases file with
  | none =>
    obtain rfl := Option.some.inj h
    exact Rooms.sound_empty
  | some envelope =>
    obtain ⟨data, -, hdata⟩ := Option.bind_eq_some_iff.mp h
    exact Rooms.sound_ofData hdata

theorem memory_step (s : RoomStore Sealed) (i : RoomStoreOp × SaveEnv Sealed) :
    (s.step C P i).memory = (i.1.apply P s.memory).memory := by
  unfold step perform
  split
  · next heq => rw [heq]; rfl
  · next heq => rw [heq]; rfl
  · next heq => rw [heq, save_memory]; rfl
  · next heq => rw [heq]; rfl

theorem SafeStep.sound_step (h : s.SafeStep C P i) (hs : s.memory.Sound) :
    (s.step C P i).memory.Sound := by
  rw [memory_step]
  exact hs.apply P h.named

theorem SafeStep.keepsPromise (h : s.SafeStep C P i) (hs : s.memory.Sound) :
    s.KeepsPromise C P i := by
  intro hok
  have hsound := hs.apply P h.named
  unfold perform at hok
  split at hok
  · cases hok
  · next m heq =>
    have hm : m = s.memory := Rooms.apply_kept heq
    have hstep : s.step C P i = s := by
      unfold step perform
      rw [heq, hm]
    rw [hstep]
    exact (h.inStep m heq).durable C hs
  · next m heq =>
    have hstep : s.step C P i = (save C i.2 m).1 := by
      unfold step perform
      rw [heq]
    rw [heq] at hsound
    rw [hstep]
    exact durable_save C hsound i.2 hok
  · cases hok

/-- A store that was opened keeps its promise along a run, as long as no room loses its
supernode and no operation that finds nothing to change meets a file that is behind. -/
theorem along_keepsPromise {file : Option Sealed} {m : Rooms} (hopen : load C file = some m)
    {is : List (RoomStoreOp × SaveEnv Sealed)}
    (his : Along (step C P) (SafeStep C P) ⟨m, file⟩ is) :
    Along (step C P) (KeepsPromise C P) ⟨m, file⟩ is := by
  have hsound : m.Sound := sound_load C hopen
  exact his.imp_inv (fun s => s.memory.Sound) hsound (fun s i hs hi => hi.sound_step C P hs)
    fun s i hs hi => hi.keepsPromise C P hs

/-! ### A room that is met twice -/

/-- Nothing is encrypted here. -/
def plainCodec : StoreCodec StoreData where
  sealUp data _ := data
  openUp := some
  openUp_sealUp _ _ := rfl

def lobby : RoomEntry where
  roomId := "r1"
  roomName := "Lobby"
  roomType := "public"
  supernodeId := "sn"
  creatorId := ""
  inviteToken := ""
  isCreator := false
  spaceId := ""
  parentId := ""
  invitePolicy := ""

/-- A save that leaves this file where it fails. -/
def saving (failed : Option (Option StoreData)) : SaveEnv StoreData where
  visit := ⟨id, fun l => .refl l⟩
  nonce := []
  failed := failed

/-- The room is added, and met again. -/
def lobbyTwice (failed : Option (Option StoreData)) :
    List (RoomStoreOp × SaveEnv StoreData) :=
  [(.add lobby, saving failed), (.upsert lobby, saving none)]

def withLobby : Rooms :=
  { Rooms.empty with
    deletedIds := Rooms.empty.deletedIds.erase lobby.key
    rooms := Rooms.empty.rooms.insert lobby.key lobby }

theorem add_lobby : Rooms.empty.add lobby = .changed withLobby := by
  have hlogged : (Rooms.logged? lobby.supernodeId lobby.roomId).isSome = true := by decide +kernel
  rw [Rooms.add, if_neg (by decide), Rooms.store, if_pos hlogged]
  rfl

theorem upsert_lobby : withLobby.upsert lobby = .kept withLobby := by
  have hfound : withLobby.rooms[lobby.key]? = some lobby := ExtTreeMap.getElem?_insert_self
  have hmerged : withLobby.merged lobby = lobby := by
    rw [Rooms.merged, hfound]
    decide
  have hshown : withLobby.deletedIds.contains lobby.key = false := by
    simp [withLobby]
  rw [Rooms.upsert, Rooms.mergeInMemory, if_neg (by decide)]
  dsimp only
  rw [hmerged, if_pos ⟨hfound, hshown⟩]

/-- The save goes well, and the room that is met again is in the file. -/
theorem along_keepsPromise_lobbyTwice :
    Along (step plainCodec Platform.symbolic) (KeepsPromise plainCodec Platform.symbolic)
      ⟨.empty, none⟩ (lobbyTwice none) := by
  refine along_keepsPromise plainCodec Platform.symbolic rfl ⟨⟨trivial, ?_⟩, ⟨trivial, ?_⟩, trivial⟩
  · intro m hm
    exact absurd (add_lobby.symm.trans hm) nofun
  · intro m _
    have hstep : step plainCodec Platform.symbolic ⟨.empty, none⟩ (.add lobby, saving none) =
        (save plainCodec (saving none) withLobby).1 := by
      simp only [step, perform, RoomStoreOp.apply, add_lobby]
    rw [hstep]
    exact ⟨_, rfl, withLobby.persisted_toData _⟩

/-- The save fails; the room that is met again is in memory, and nothing is written. -/
theorem lobby_lost :
    ¬ Along (step plainCodec Platform.symbolic) (KeepsPromise plainCodec Platform.symbolic)
      ⟨.empty, none⟩ (lobbyTwice (some none)) := by
  rintro ⟨-, hagain, -⟩
  have hstep : step plainCodec Platform.symbolic ⟨.empty, none⟩ (.add lobby, saving (some none)) =
      ⟨withLobby, none⟩ := by
    simp only [step, perform, RoomStoreOp.apply, add_lobby, save, saving]
  have hperform : perform plainCodec Platform.symbolic ⟨withLobby, none⟩ (.upsert lobby)
      (saving none) = (⟨withLobby, none⟩, true) := by
    simp only [perform, RoomStoreOp.apply, upsert_lobby]
  rw [hstep] at hagain
  have hdurable := hagain (congrArg Prod.snd hperform)
  rw [step, hperform] at hdurable
  obtain ⟨data, hdata, hpersisted⟩ := hdurable.inStep
  obtain rfl := Option.some.inj hdata
  have hmem : lobby ∈ values withLobby.rooms :=
    mem_values.mpr ⟨lobby.key, ExtTreeMap.getElem?_insert_self⟩
  exact absurd (hpersisted.rooms.mem_iff.mpr hmem) List.not_mem_nil

end RoomStore

end ConquerD.Client
