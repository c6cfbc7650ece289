import ConquerD.Lib.Chunks
import ConquerD.Lib.Encoding
import ConquerD.Lib.RowTable
import ConquerD.Lib.Run
import Mathlib.Algebra.Order.Ring.Rat
import Mathlib.Data.List.Dedup
import Mathlib.Data.List.DropRight

/-!
# The chat store

Chat history is one table of rows, each under the id of its message and with
the body and the handle of the sender encrypted. The order of a conversation is
the order of the row numbers. The rooms of older stores have a supernode in
the key of their conversation; opening the store folds these keys onto the room
and marks as failed what was still being sent.

The abstract side is a log, the messages in the order they were written. Every
operation on the table is an operation on the log, and the pages of a
conversation, from the last to the first, are its messages in the log.
-/

namespace ConquerD.Client

open Lib Lib.Chunks Lib.Encoding Lib.Run

def pageSize : Nat := 50

/-! ## Messages -/

inductive MessageKind where
  | text
  | file
  | image
  | video
  | system
  deriving DecidableEq, Repr

def MessageKind.asStr : MessageKind → String
  | .text => "text"
  | .file => "file"
  | .image => "image"
  | .video => "video"
  | .system => "system"

def MessageKind.fromStr (s : String) : MessageKind :=
  if s = "file" then .file
  else if s = "image" then .image
  else if s = "video" then .video
  else if s = "system" then .system
  else .text

inductive MessageStatus where
  | sending
  | sent
  | delivered
  | read
  | failed
  deriving DecidableEq, Repr

def MessageStatus.asStr : MessageStatus → String
  | .sending => "sending"
  | .sent => "sent"
  | .delivered => "delivered"
  | .read => "read"
  | .failed => "failed"

def MessageStatus.fromStr (s : String) : MessageStatus :=
  if s = "sent" then .sent
  else if s = "delivered" then .delivered
  else if s = "read" then .read
  else if s = "failed" then .failed
  else .sending

@[simp] theorem MessageKind.fromStr_asStr (kind : MessageKind) : fromStr kind.asStr = kind := by
  cases kind <;> rfl

@[simp] theorem MessageStatus.fromStr_asStr (status : MessageStatus) :
    fromStr status.asStr = status := by
  cases status <;> rfl

theorem MessageStatus.asStr_eq_sending_iff {status : MessageStatus} :
    status.asStr = "sending" ↔ status = .sending := by
  cases status <;> decide

structure ChatMessage where
  id : String
  peerId : String
  sender : String
  recipient : String
  body : String
  timestamp : Rat
  isSelf : Bool
  status : MessageStatus
  kind : MessageKind
  attachmentName : String
  attachmentPath : String
  sizeStr : String
  statusNote : String
  senderHandle : String
  deriving DecidableEq, Repr

/-- The key of a room's conversation. -/
def roomConversationId (roomId : String) : String :=
  "room:" ++ roomId

/-! ## Rows -/

/-- AES-256-GCM under the key of the store: a text is encrypted under a fresh
nonce, and what was encrypted is decrypted. -/
structure BlobCipher where
  encryptBlob : Bytes → Bytes → Bytes
  decryptBlob : Bytes → Option Bytes
  decrypt_encrypt : ∀ nonce plain, decryptBlob (encryptBlob nonce plain) = some plain

namespace BlobCipher

def encrypt (K : BlobCipher) (nonce : Bytes) (plaintext : String) : Bytes :=
  K.encryptBlob nonce (utf8Bytes plaintext)

def decrypt (K : BlobCipher) (blob : Bytes) : Option String :=
  (K.decryptBlob blob).bind fromUtf8

@[simp] theorem decrypt_encrypt_text (K : BlobCipher) (nonce : Bytes) (plaintext : String) :
    K.decrypt (K.encrypt nonce plaintext) = some plaintext := by
  rw [decrypt, encrypt, K.decrypt_encrypt, Option.bind_some, fromUtf8_utf8Bytes]

end BlobCipher

structure Row where
  id : String
  peerId : String
  sender : String
  recipient : String
  body : Bytes
  timestamp : Rat
  isSelf : Int
  status : String
  kind : String
  attachmentName : String
  attachmentPath : String
  sizeStr : String
  statusNote : String
  senderHandle : Bytes
  deriving DecidableEq, Repr

/-- The row a message is stored as, its body and handle encrypted. -/
def ChatMessage.toRow (K : BlobCipher) (nonces : Bytes × Bytes) (msg : ChatMessage) : Row where
  id := msg.id
  peerId := msg.peerId
  sender := msg.sender
  recipient := msg.recipient
  body := K.encrypt nonces.1 msg.body
  timestamp := msg.timestamp
  isSelf := if msg.isSelf then 1 else 0
  status := msg.status.asStr
  kind := msg.kind.asStr
  attachmentName := msg.attachmentName
  attachmentPath := msg.attachmentPath
  sizeStr := msg.sizeStr
  statusNote := msg.statusNote
  senderHandle := K.encrypt nonces.2 msg.senderHandle

/-- What is read from a row; a body or handle that does not decrypt is empty. -/
def Row.toMessage (K : BlobCipher) (row : Row) : ChatMessage where
  id := row.id
  peerId := row.peerId
  sender := row.sender
  recipient := row.recipient
  body := (K.decrypt row.body).getD ""
  timestamp := row.timestamp
  isSelf := row.isSelf != 0
  status := .fromStr row.status
  kind := .fromStr row.kind
  attachmentName := row.attachmentName
  attachmentPath := row.attachmentPath
  sizeStr := row.sizeStr
  statusNote := row.statusNote
  senderHandle := (K.decrypt row.senderHandle).getD ""

@[simp] theorem ChatMessage.toMessage_toRow (K : BlobCipher) (nonces : Bytes × Bytes)
    (msg : ChatMessage) : (msg.toRow K nonces).toMessage K = msg := by
  cases msg with
  | mk id peerId sender recipient body timestamp isSelf =>
    cases isSelf <;> simp [ChatMessage.toRow, Row.toMessage]

/-! ## The table -/

abbrev ChatStore : Type := RowTable Row.id

namespace ChatStore

variable (K : BlobCipher)

def insert (store : ChatStore) (nonces : Bytes × Bytes) (msg : ChatMessage) :
    Except String ChatStore :=
  match store.insert? (msg.toRow K nonces) with
  | some store => .ok store
  | none => .error "UNIQUE constraint failed: messages.id"

/-- Leaves a stored row as it is, and tells whether a row was written. -/
def insertNew (store : ChatStore) (nonces : Bytes × Bytes) (msg : ChatMessage) :
    ChatStore × Bool :=
  match store.insert? (msg.toRow K nonces) with
  | some store => (store, true)
  | none => (store, false)

def upsert (store : ChatStore) (nonces : Bytes × Bytes) (msg : ChatMessage) : ChatStore :=
  store.insertOrReplace (msg.toRow K nonces)

def updateStatus (store : ChatStore) (msgId : String) (status : MessageStatus) : ChatStore :=
  store.updateWhere (fun row => row.id = msgId) (fun row => { row with status := status.asStr })
    fun _ => rfl

def updateAttachment (store : ChatStore) (msgId attachmentPath sizeStr : String) : ChatStore :=
  store.updateWhere (fun row => row.id = msgId)
    (fun row => { row with attachmentPath := attachmentPath, sizeStr := sizeStr }) fun _ => rfl

def deleteMessage (store : ChatStore) (msgId : String) : ChatStore :=
  store.deleteWhere fun row => row.2.id = msgId

def clearHistory (store : ChatStore) (peerId : String) : ChatStore :=
  store.deleteWhere fun row => row.2.peerId = peerId

/-- One page of a conversation, oldest first; page 0 ends with the newest. -/
def getHistory (store : ChatStore) (peerId : String) (page : Nat) : List ChatMessage :=
  ((store.selectDesc (fun row => row.peerId = peerId) pageSize (page * pageSize)).map
    (Row.toMessage K)).reverse

/-- The conversations of the table. -/
def peerIds (store : ChatStore) : List String :=
  (store.contents.map Row.peerId).dedup

def trimByCount (store : ChatStore) (keep : Int) : ChatStore :=
  store.peerIds.foldl
    (fun store pid => store.deleteAllButLast (fun row => row.peerId = pid) keep) store

/-- `LIKE 'room:%:%'`, which does not tell upper case letters from lower case ones. -/
def likeLegacyRoom (peerId : String) : Bool :=
  (peerId.toList.take 5).map Char.toLower = "room:".toList ∧ ':' ∈ peerId.toList.drop 5

/-- What follows the last colon. -/
def lastComponent (key : String) : String :=
  String.ofList (key.toList.rtakeWhile (· ≠ ':'))

/-- Folds the conversations of rooms under a supernode onto the room. -/
def migrateRoomKeys (store : ChatStore) : ChatStore :=
  (store.peerIds.filter likeLegacyRoom).foldl
    (fun store oldKey =>
      let newKey := roomConversationId (lastComponent oldKey)
      if newKey = oldKey then store
      else store.updateWhere (fun row => row.peerId = oldKey)
        (fun row => { row with peerId := newKey }) fun _ => rfl)
    store

/-- What was being sent when the client stopped has failed. -/
def failStaleSending (store : ChatStore) : ChatStore :=
  store.updateWhere (fun row => row.isSelf = 1 ∧ row.status = "sending")
    (fun row => { row with status := "failed", statusNote := "interrupted before delivery" })
    fun _ => rfl

/-- Opening the store again. -/
def openStore (store : ChatStore) : ChatStore :=
  store.migrateRoomKeys.failStaleSending

end ChatStore

/-! ## Runs -/

/-- An operation on the store. The nonces are those the encryption draws. -/
inductive ChatOp where
  | insert (nonces : Bytes × Bytes) (msg : ChatMessage)
  | insertNew (nonces : Bytes × Bytes) (msg : ChatMessage)
  | upsert (nonces : Bytes × Bytes) (msg : ChatMessage)
  | updateStatus (msgId : String) (status : MessageStatus)
  | updateAttachment (msgId attachmentPath sizeStr : String)
  | deleteMessage (msgId : String)
  | clearHistory (peerId : String)
  | trimByCount (keep : Nat)
  | reopen
  | migrateRoomKeys

def ChatStore.step (K : BlobCipher) (store : ChatStore) : ChatOp → ChatStore
  | .insert nonces msg =>
    match store.insert K nonces msg with
    | .ok store => store
    | .error _ => store
  | .insertNew nonces msg => (store.insertNew K nonces msg).1
  | .upsert nonces msg => store.upsert K nonces msg
  | .updateStatus msgId status => store.updateStatus msgId status
  | .updateAttachment msgId path size => store.updateAttachment msgId path size
  | .deleteMessage msgId => store.deleteMessage msgId
  | .clearHistory peerId => store.clearHistory peerId
  | .trimByCount keep => store.trimByCount keep
  | .reopen => store.openStore
  | .migrateRoomKeys => store.migrateRoomKeys

/-! ## The log -/

/-- The messages in the order they were written. -/
abbrev ChatLog : Type := List ChatMessage

def foldedKey (peerId : String) : String :=
  if ChatStore.likeLegacyRoom peerId then roomConversationId (ChatStore.lastComponent peerId)
  else peerId

def ChatMessage.folded (msg : ChatMessage) : ChatMessage :=
  { msg with peerId := foldedKey msg.peerId }

def Row.folded (row : Row) : Row :=
  { row with peerId := foldedKey row.peerId }

def ChatMessage.interrupted (msg : ChatMessage) : ChatMessage :=
  if msg.isSelf = true ∧ msg.status = .sending then
    { msg with status := .failed, statusNote := "interrupted before delivery" }
  else msg

namespace ChatLog

/-- A message that is written again under its id becomes the last one. -/
def step (log : ChatLog) : ChatOp → ChatLog
  | .insert _ msg | .insertNew _ msg => if msg.id ∈ log.map (·.id) then log else log ++ [msg]
  | .upsert _ msg => (log.filter fun m => m.id ≠ msg.id) ++ [msg]
  | .updateStatus msgId status =>
    log.map fun m => if m.id = msgId then { m with status := status } else m
  | .updateAttachment msgId path size =>
    log.map fun m =>
      if m.id = msgId then { m with attachmentPath := path, sizeStr := size } else m
  | .deleteMessage msgId => log.filter fun m => m.id ≠ msgId
  | .clearHistory peerId => log.filter fun m => m.peerId ≠ peerId
  | .trimByCount keep => keepLastEach (·.peerId) keep log
  | .reopen => (log.map ChatMessage.folded).map ChatMessage.interrupted
  | .migrateRoomKeys => log.map ChatMessage.folded

/-- The same, but a message that is written again stays in its place. -/
def stepInPlace (log : ChatLog) : ChatOp → ChatLog
  | .upsert nonces msg =>
    if msg.id ∈ log.map (·.id) then log.map fun m => if m.id = msg.id then msg else m
    else log.step (.upsert nonces msg)
  | op => log.step op

end ChatLog

/-! ## The table follows the log -/

/-- Of a row that was written by the store: its status is one of the texts of a
status, and its flag is 0 or 1. -/
def Row.Plain (row : Row) : Prop :=
  (MessageStatus.fromStr row.status).asStr = row.status ∧ (row.isSelf = 0 ∨ row.isSelf = 1)

namespace ChatStore

variable {K : BlobCipher} {store : ChatStore}

def messages (K : BlobCipher) (store : ChatStore) : List ChatMessage :=
  store.contents.map (Row.toMessage K)

/-- Every row was written by the store. -/
def AllPlain (store : ChatStore) : Prop :=
  ∀ row ∈ store.contents, row.Plain

theorem plain_toRow (nonces : Bytes × Bytes) (msg : ChatMessage) : (msg.toRow K nonces).Plain := by
  refine ⟨?_, ?_⟩
  · rw [ChatMessage.toRow, MessageStatus.fromStr_asStr]
  · cases h : msg.isSelf
    · exact .inl (by simp [ChatMessage.toRow, h])
    · exact .inr (by simp [ChatMessage.toRow, h])

theorem map_id_messages : (store.messages K).map (·.id) = store.contents.map Row.id := by
  rw [messages, List.map_map]
  rfl

theorem nodup_messages : ((store.messages K).map (·.id)).Nodup := by
  rw [map_id_messages]
  exact store.nodup_contents

theorem messages_insert? (nonces : Bytes × Bytes) (msg : ChatMessage) :
    messages K ((store.insert? (msg.toRow K nonces)).getD store) =
      if msg.id ∈ (store.messages K).map (·.id) then store.messages K
      else store.messages K ++ [msg] := by
  rw [map_id_messages]
  cases h : store.insert? (msg.toRow K nonces) with
  | none =>
    have hmem : msg.id ∈ store.contents.map Row.id := RowTable.insert?_eq_none_iff.mp h
    rw [Option.getD_none, if_pos hmem]
  | some store' =>
    obtain ⟨hfree, hcontents⟩ := RowTable.of_insert?_eq_some h
    have hfree : msg.id ∉ store.contents.map Row.id := hfree
    rw [Option.getD_some, if_neg hfree, messages, hcontents, List.map_append]
    simp [messages]

theorem messages_upsert (nonces : Bytes × Bytes) (msg : ChatMessage) :
    (store.upsert K nonces msg).messages K =
      ((store.messages K).filter fun m => m.id ≠ msg.id) ++ [msg] := by
  rw [upsert, messages, RowTable.contents_insertOrReplace, List.map_append, messages,
    List.filter_map]
  have hkeep : (fun row : Row => !decide (row.id = (msg.toRow K nonces).id)) =
      (fun m => decide (m.id ≠ msg.id)) ∘ Row.toMessage K := by
    funext row
    by_cases h : row.id = msg.id <;> simp [ChatMessage.toRow, Row.toMessage, h]
  simp [hkeep]

theorem messages_updateWhere (p : Row → Bool) (f : Row → Row) (hkey)
    (q : ChatMessage → Prop) [DecidablePred q] (g : ChatMessage → ChatMessage)
    (hp : ∀ row ∈ store.contents, p row = true ↔ q (row.toMessage K))
    (hf : ∀ row ∈ store.contents, p row = true → (f row).toMessage K = g (row.toMessage K)) :
    messages K (store.updateWhere p f hkey) =
      (store.messages K).map fun m => if q m then g m else m := by
  rw [messages, RowTable.contents_updateWhere, messages, List.map_map, List.map_map]
  apply List.map_congr_left
  intro row hrow
  by_cases h : p row = true
  · have hq := (hp row hrow).mp h
    simp [h, hq, hf row hrow h]
  · have hq := mt (hp row hrow).mpr h
    simp [h, hq]

theorem messages_deleteWhere (p : Row → Bool) (q : ChatMessage → Bool)
    (hp : ∀ row, p row = q (row.toMessage K)) :
    messages K (store.deleteWhere fun row => p row.2) =
      (store.messages K).filter fun m => !q m := by
  rw [messages, RowTable.contents_deleteWhere, messages, List.filter_map]
  congr 2
  funext row
  simp [hp row]

/-! ### Trimming -/

theorem contents_foldl_deleteAllButLast (groups : List String) (keep : Nat) :
    (groups.foldl (fun (store : ChatStore) pid =>
        store.deleteAllButLast (fun row => row.peerId = pid) keep) store).contents =
      groups.foldl (fun rows pid => keepLast (fun row => decide (row.peerId = pid)) keep rows)
        store.contents := by
  induction groups generalizing store with
  | nil => rfl
  | cons pid groups ih =>
    rw [List.foldl_cons, ih, List.foldl_cons, RowTable.contents_deleteAllButLast]

theorem contents_trimByCount (keep : Nat) :
    (store.trimByCount keep).contents = keepLastEach Row.peerId keep store.contents := by
  rw [trimByCount, contents_foldl_deleteAllButLast]
  apply foldl_keepLast Row.peerId (List.nodup_dedup _)
  intro row hrow
  exact List.mem_dedup.mpr (List.mem_map_of_mem hrow)

theorem messages_trimByCount (keep : Nat) :
    messages K (store.trimByCount keep) = keepLastEach (·.peerId) keep (store.messages K) := by
  rw [messages, contents_trimByCount, messages]
  exact map_keepLastEach (g := fun m : ChatMessage => m.peerId) (f := Row.toMessage K) _

/-! ### Room keys -/

theorem rtakeWhile_append_cons {c : Char} {back : List Char} (h : c ∉ back) (front : List Char) :
    (front ++ c :: back).rtakeWhile (fun c' => c' ≠ c) = back := by
  have hall : ∀ c' ∈ back.reverse, decide (c' ≠ c) = true := by
    intro c' hc'
    simpa using fun heq : c' = c => h (heq ▸ List.mem_reverse.mp hc')
  rw [List.rtakeWhile, List.reverse_append, List.reverse_cons, List.append_assoc,
    List.takeWhile_append_of_pos hall]
  simp

theorem lastComponent_append {room : String} (hroom : ':' ∉ room.toList) (front : String) :
    lastComponent (front ++ ":" ++ room) = room := by
  have hcolon : ":".toList = [':'] := rfl
  rw [lastComponent, ← String.toList_inj, String.toList_ofList, String.toList_append,
    String.toList_append, hcolon, List.append_assoc, List.singleton_append]
  exact rtakeWhile_append_cons hroom _

theorem colon_notMem_lastComponent (key : String) : ':' ∉ (lastComponent key).toList := by
  intro hmem
  rw [lastComponent, String.toList_ofList] at hmem
  simpa using List.mem_rtakeWhile_imp hmem

theorem not_likeLegacyRoom_roomConversationId {room : String} (hroom : ':' ∉ room.toList) :
    likeLegacyRoom (roomConversationId room) = false := by
  have hroomText : "room:".toList = ['r', 'o', 'o', 'm', ':'] := rfl
  simp [likeLegacyRoom, roomConversationId, hroomText, hroom]

theorem not_likeLegacyRoom_foldedKey (peerId : String) :
    likeLegacyRoom (foldedKey peerId) = false := by
  unfold foldedKey
  split
  · exact not_likeLegacyRoom_roomConversationId (colon_notMem_lastComponent peerId)
  · next h => simpa using h

theorem contents_foldl_rekey (legacy : List String)
    (hlegacy : ∀ key ∈ legacy, likeLegacyRoom key = true) :
    (legacy.foldl (fun (store : ChatStore) oldKey =>
        if roomConversationId (lastComponent oldKey) = oldKey then store
        else store.updateWhere (fun row => row.peerId = oldKey)
          (fun row => { row with peerId := roomConversationId (lastComponent oldKey) })
          fun _ => rfl) store).contents =
      store.contents.map fun row => if row.peerId ∈ legacy then row.folded else row := by
  induction legacy generalizing store with
  | nil => simp
  | cons key legacy ih =>
    have hkey : likeLegacyRoom key = true := hlegacy key List.mem_cons_self
    have hnew : foldedKey key = roomConversationId (lastComponent key) := by
      rw [foldedKey, if_pos hkey]
    have hplain := not_likeLegacyRoom_roomConversationId (colon_notMem_lastComponent key)
    have hne : roomConversationId (lastComponent key) ≠ key := by
      intro heq
      rw [heq, hkey] at hplain
      cases hplain
    -- a folded key is none of those still to be folded
    have hdone : roomConversationId (lastComponent key) ∉ legacy := by
      intro hmem
      rw [hlegacy _ (List.mem_cons_of_mem _ hmem)] at hplain
      cases hplain
    rw [List.foldl_cons, if_neg hne, ih fun k hk => hlegacy k (List.mem_cons_of_mem _ hk),
      RowTable.contents_updateWhere, List.map_map]
    apply List.map_congr_left
    intro row _
    by_cases h : row.peerId = key
    · simp [h, hdone, Row.folded, hnew]
    · simp [h]

theorem contents_migrateRoomKeys :
    store.migrateRoomKeys.contents = store.contents.map Row.folded := by
  rw [migrateRoomKeys, contents_foldl_rekey _ fun key hkey => List.of_mem_filter hkey]
  apply List.map_congr_left
  intro row hrow
  have hpeer : row.peerId ∈ store.peerIds := List.mem_dedup.mpr (List.mem_map_of_mem hrow)
  by_cases h : likeLegacyRoom row.peerId = true
  · simp [List.mem_filter, hpeer, h]
  · simp [List.mem_filter, h, Row.folded, foldedKey]

theorem messages_migrateRoomKeys :
    messages K store.migrateRoomKeys = (store.messages K).map ChatMessage.folded := by
  rw [messages, contents_migrateRoomKeys, messages, List.map_map, List.map_map]
  rfl

theorem migrateRoomKeys_of_folded
    (h : ∀ row ∈ store.contents, likeLegacyRoom row.peerId = false) :
    store.migrateRoomKeys = store := by
  have hnone : store.peerIds.filter likeLegacyRoom = [] := by
    rw [List.filter_eq_nil_iff]
    intro key hkey
    obtain ⟨row, hrow, rfl⟩ := List.mem_map.mp (List.mem_dedup.mp hkey)
    simpa using h row hrow
  rw [migrateRoomKeys, hnone]
  rfl

theorem migrateRoomKeys_migrateRoomKeys :
    store.migrateRoomKeys.migrateRoomKeys = store.migrateRoomKeys := by
  apply migrateRoomKeys_of_folded
  intro row hrow
  rw [contents_migrateRoomKeys] at hrow
  obtain ⟨row, -, rfl⟩ := List.mem_map.mp hrow
  exact not_likeLegacyRoom_foldedKey row.peerId

theorem messages_failStaleSending (h : store.AllPlain) :
    messages K store.failStaleSending = (store.messages K).map ChatMessage.interrupted := by
  rw [failStaleSending, messages_updateWhere _ _ _
    (fun m : ChatMessage => m.isSelf = true ∧ m.status = .sending)
    (fun m => { m with status := .failed, statusNote := "interrupted before delivery" })]
  · rfl
  · intro row hrow
    obtain ⟨hstatus, hself⟩ := h row hrow
    have hsending : row.status = "sending" ↔ MessageStatus.fromStr row.status = .sending := by
      rw [← MessageStatus.asStr_eq_sending_iff, hstatus]
    rcases hself with hself | hself <;> simp [Row.toMessage, hself, hsending]
  · intro row _ _
    rfl

/-! ### Rows the store has written -/

theorem AllPlain.of_sublist {store' : ChatStore} (h : store.AllPlain)
    (hsub : store'.contents.Sublist store.contents) : AllPlain store' :=
  fun row hrow => h row (hsub.mem hrow)

theorem AllPlain.of_map {store' : ChatStore} {f : Row → Row} (h : store.AllPlain)
    (hf : ∀ row, row.Plain → (f row).Plain) (hmap : store'.contents = store.contents.map f) :
    AllPlain store' := by
  intro row hrow
  rw [hmap] at hrow
  obtain ⟨row', hrow', rfl⟩ := List.mem_map.mp hrow
  exact hf row' (h row' hrow')

theorem AllPlain.append_toRow {store' : ChatStore} {rows : List Row} {nonces : Bytes × Bytes}
    {msg : ChatMessage} (hrows : ∀ row ∈ rows, row.Plain)
    (happend : store'.contents = rows ++ [msg.toRow K nonces]) : AllPlain store' := by
  intro row hrow
  rw [happend, List.mem_append, List.mem_singleton] at hrow
  rcases hrow with hrow | rfl
  · exact hrows row hrow
  · exact plain_toRow nonces msg

theorem AllPlain.insert? (h : store.AllPlain) (nonces : Bytes × Bytes) (msg : ChatMessage) :
    AllPlain ((store.insert? (msg.toRow K nonces)).getD store) := by
  cases hins : store.insert? (msg.toRow K nonces) with
  | none => exact h
  | some store' => exact .append_toRow h (RowTable.of_insert?_eq_some hins).2

theorem AllPlain.updateWhere (h : store.AllPlain) {p : Row → Bool} {f : Row → Row} {hkey}
    (hf : ∀ row, row.Plain → (f row).Plain) : AllPlain (store.updateWhere p f hkey) := by
  refine h.of_map (f := fun row => if p row then f row else row) ?_
    (RowTable.contents_updateWhere ..)
  intro row hrow
  split
  · exact hf row hrow
  · exact hrow

theorem AllPlain.deleteWhere (h : store.AllPlain) (p : Row → Bool) :
    AllPlain (store.deleteWhere fun row => p row.2) :=
  h.of_sublist (by
    rw [RowTable.contents_deleteWhere]
    exact List.filter_sublist)

theorem AllPlain.migrateRoomKeys (h : store.AllPlain) : AllPlain store.migrateRoomKeys :=
  h.of_map (f := Row.folded) (fun _ hrow => hrow) contents_migrateRoomKeys

theorem AllPlain.failStaleSending (h : store.AllPlain) : AllPlain store.failStaleSending :=
  h.updateWhere fun _ hrow => ⟨rfl, hrow.2⟩

theorem step_insert (store : ChatStore) (nonces : Bytes × Bytes) (msg : ChatMessage) :
    store.step K (.insert nonces msg) = (store.insert? (msg.toRow K nonces)).getD store ∧
      store.step K (.insertNew nonces msg) = (store.insert? (msg.toRow K nonces)).getD store := by
  simp only [step, insert, insertNew]
  cases store.insert? (msg.toRow K nonces) with
  | none => exact ⟨rfl, rfl⟩
  | some store' => exact ⟨rfl, rfl⟩

theorem AllPlain.step (h : store.AllPlain) (op : ChatOp) : AllPlain (store.step K op) := by
  cases op with
  | insert nonces msg =>
    rw [(step_insert store nonces msg).1]
    exact h.insert? nonces msg
  | insertNew nonces msg =>
    rw [(step_insert store nonces msg).2]
    exact h.insert? nonces msg
  | upsert nonces msg =>
    exact .append_toRow (fun row hrow => h row (List.mem_of_mem_filter hrow))
      (RowTable.contents_insertOrReplace store (msg.toRow K nonces))
  | updateStatus msgId status =>
    exact h.updateWhere fun _ hrow => ⟨by rw [MessageStatus.fromStr_asStr], hrow.2⟩
  | updateAttachment msgId path size => exact h.updateWhere fun _ hrow => hrow
  | deleteMessage msgId => exact h.deleteWhere fun row => row.id = msgId
  | clearHistory peerId => exact h.deleteWhere fun row => row.peerId = peerId
  | trimByCount keep =>
    refine h.of_sublist ?_
    rw [ChatStore.step, contents_trimByCount]
    exact keepLastEach_sublist _ _
  | reopen => exact h.migrateRoomKeys.failStaleSending
  | migrateRoomKeys => exact h.migrateRoomKeys

theorem messages_step (h : store.AllPlain) (op : ChatOp) :
    messages K (store.step K op) = ChatLog.step (store.messages K) op := by
  cases op with
  | insert nonces msg =>
    rw [(step_insert store nonces msg).1]
    exact messages_insert? nonces msg
  | insertNew nonces msg =>
    rw [(step_insert store nonces msg).2]
    exact messages_insert? nonces msg
  | upsert nonces msg => exact messages_upsert nonces msg
  | updateStatus msgId status =>
    apply messages_updateWhere _ _ _ (fun m : ChatMessage => m.id = msgId)
      (fun m => { m with status := status })
    · intro row _
      exact decide_eq_true_iff
    · intro row _ _
      simp [Row.toMessage]
  | updateAttachment msgId path size =>
    apply messages_updateWhere _ _ _ (fun m : ChatMessage => m.id = msgId)
      (fun m => { m with attachmentPath := path, sizeStr := size })
    · intro row _
      exact decide_eq_true_iff
    · intro row _ _
      rfl
  | deleteMessage msgId =>
    rw [step, deleteMessage, messages_deleteWhere (fun row => row.id = msgId)
      (fun m => m.id = msgId) fun _ => rfl]
    simp [ChatLog.step]
  | clearHistory peerId =>
    rw [step, clearHistory, messages_deleteWhere (fun row => row.peerId = peerId)
      (fun m => m.peerId = peerId) fun _ => rfl]
    simp [ChatLog.step]
  | trimByCount keep => exact messages_trimByCount keep
  | reopen =>
    have hfail := messages_failStaleSending (K := K) h.migrateRoomKeys
    rw [messages_migrateRoomKeys] at hfail
    exact hfail
  | migrateRoomKeys => exact messages_migrateRoomKeys

theorem messages_run (ops : List ChatOp) :
    AllPlain (run (step K) (RowTable.empty : ChatStore) ops) ∧
      messages K (run (step K) (RowTable.empty : ChatStore) ops) = run ChatLog.step [] ops := by
  induction ops using List.reverseRecOn with
  | nil =>
    refine ⟨?_, rfl⟩
    intro row hrow
    cases hrow
  | append_singleton ops op ih =>
    rw [run_append, run_append, run_cons, run_nil, run_cons, run_nil, ← ih.2]
    exact ⟨ih.1.step op, messages_step ih.1 op⟩

/-! ## Pages -/

/-- The pages of a conversation from the last of `n` to the first. -/
def allPages (K : BlobCipher) (store : ChatStore) (peerId : String) (n : Nat) :
    List ChatMessage :=
  (List.range n).reverse.flatMap (store.getHistory K peerId)

theorem getHistory_eq (peerId : String) (page : Nat) :
    store.getHistory K peerId page =
      (chunk pageSize ((store.messages K).filter fun m => m.peerId = peerId).reverse
        page).reverse := by
  have hfilter : ((store.messages K).filter fun m => m.peerId = peerId) =
      (store.contents.filter fun row => row.peerId = peerId).map (Row.toMessage K) := by
    rw [messages, List.filter_map]
    rfl
  rw [getHistory, RowTable.selectDesc, chunk, hfilter, List.map_take, List.map_drop,
    List.map_reverse]

theorem allPages_eq {peerId : String} {n : Nat}
    (hn : ((store.messages K).filter fun m => m.peerId = peerId).length ≤ n * pageSize) :
    store.allPages K peerId n = (store.messages K).filter fun m => m.peerId = peerId := by
  have hpages : store.getHistory K peerId = fun page =>
      (chunk pageSize ((store.messages K).filter fun m => m.peerId = peerId).reverse
        page).reverse := funext (getHistory_eq peerId)
  have hlength : (((store.messages K).filter fun m => m.peerId = peerId).reverse).length ≤
      n * pageSize := by rwa [List.length_reverse]
  rw [allPages, hpages, List.flatMap_reverse]
  simp only [Function.comp_def, List.reverse_reverse]
  rw [flatMap_chunk_eq hlength, List.reverse_reverse]

theorem filter_messages_trimByCount (keep : Nat) (peerId : String) :
    (messages K (store.trimByCount keep)).filter (fun m => m.peerId = peerId) =
      ((store.messages K).filter fun m => m.peerId = peerId).drop
        (((store.messages K).filter fun m => m.peerId = peerId).length - keep) := by
  rw [messages_trimByCount]
  exact filter_keepLastEach _ _ _

end ChatStore

/-! ## The keys of conversations -/

/-- An id as the client hands them out. -/
abbrev ColonFree : Type := { id : String // ':' ∉ id.toList }

/-- What a conversation is stored under: a peer, a room, or a room under the
supernode it was met at, as older clients wrote it. -/
inductive ConversationKey where
  | peer (peerId : ColonFree)
  | room (roomId : ColonFree)
  | legacyRoom (supernodeId roomId : ColonFree)

namespace ConversationKey

def text : ConversationKey → String
  | .peer peerId => peerId.1
  | .room roomId => roomConversationId roomId.1
  | .legacyRoom supernodeId roomId => "room:" ++ supernodeId.1 ++ ":" ++ roomId.1

/-- The conversation a key stands for: a room is one whatever the supernode. -/
def conversation : ConversationKey → ConversationKey
  | .peer peerId => .peer peerId
  | .room roomId | .legacyRoom _ roomId => .room roomId

theorem toList_roomConversationId (roomId : String) :
    (roomConversationId roomId).toList = ['r', 'o', 'o', 'm', ':'] ++ roomId.toList := by
  rw [roomConversationId, String.toList_append]
  rfl

theorem likeLegacyRoom_legacyRoom (supernodeId roomId : ColonFree) :
    ChatStore.likeLegacyRoom (legacyRoom supernodeId roomId).text = true := by
  have hroomText : "room:".toList = ['r', 'o', 'o', 'm', ':'] := rfl
  have hcolon : ":".toList = [':'] := rfl
  simp [ChatStore.likeLegacyRoom, text, hroomText, hcolon]

theorem not_likeLegacyRoom_peer (peerId : ColonFree) :
    ChatStore.likeLegacyRoom (peer peerId).text = false := by
  have hrest : ':' ∉ peerId.1.toList.drop 5 := fun h => peerId.2 (List.mem_of_mem_drop h)
  simp [ChatStore.likeLegacyRoom, text, hrest]

theorem foldedKey_text (key : ConversationKey) : foldedKey key.text = key.conversation.text := by
  cases key with
  | peer peerId => rw [foldedKey, not_likeLegacyRoom_peer, if_neg Bool.false_ne_true, conversation]
  | room roomId =>
    rw [foldedKey, text, ChatStore.not_likeLegacyRoom_roomConversationId roomId.2,
      if_neg Bool.false_ne_true]
    rfl
  | legacyRoom supernodeId roomId =>
    rw [foldedKey, if_pos (likeLegacyRoom_legacyRoom supernodeId roomId), text,
      ChatStore.lastComponent_append roomId.2]
    rfl

theorem text_peer_ne_text_room (peerId roomId : ColonFree) :
    (peer peerId).text ≠ (room roomId).text := by
  intro h
  apply peerId.2
  rw [text, text] at h
  rw [h, toList_roomConversationId]
  simp

theorem foldedKey_text_eq_iff (a b : ConversationKey) :
    foldedKey a.text = foldedKey b.text ↔ a.conversation = b.conversation := by
  rw [foldedKey_text, foldedKey_text]
  refine ⟨?_, fun h => by rw [h]⟩
  have hpeer : ∀ x y : ColonFree, (peer x).text = (peer y).text → peer x = peer y := by
    intro x y h
    rw [Subtype.ext h]
  have hroom : ∀ x y : ColonFree, (room x).text = (room y).text → room x = room y := by
    intro x y h
    have hlist := congrArg String.toList h
    rw [text, text, toList_roomConversationId, toList_roomConversationId,
      List.append_cancel_left_eq, String.toList_inj] at hlist
    rw [Subtype.ext hlist]
  intro h
  cases a <;> cases b <;> simp only [conversation] at h ⊢
  case peer.peer => exact hpeer _ _ h
  case peer.room => exact absurd h (text_peer_ne_text_room _ _)
  case peer.legacyRoom => exact absurd h (text_peer_ne_text_room _ _)
  case room.peer => exact absurd h.symm (text_peer_ne_text_room _ _)
  case legacyRoom.peer => exact absurd h.symm (text_peer_ne_text_room _ _)
  all_goals exact hroom _ _ h

end ConversationKey

/-! ## The history is the log -/

namespace ChatStore

/-- After every run the pages of a conversation are its messages in the log,
trimming keeps the last ones, and folding room keys keeps every message. -/
theorem history_follows_log (K : BlobCipher) (ops : List ChatOp) :
    let store := run (step K) (RowTable.empty : ChatStore) ops
    let conversation := fun peerId : String =>
      (run ChatLog.step [] ops).filter fun m => m.peerId = peerId
    ((run ChatLog.step [] ops).map (·.id)).Nodup ∧
      (∀ peerId n, (conversation peerId).length ≤ n * pageSize →
        store.allPages K peerId n = conversation peerId) ∧
      (∀ (keep : Nat) peerId n, min keep (conversation peerId).length ≤ n * pageSize →
        (store.trimByCount keep).allPages K peerId n =
          (conversation peerId).drop ((conversation peerId).length - keep)) ∧
      store.migrateRoomKeys.messages K = (store.messages K).map ChatMessage.folded ∧
      store.migrateRoomKeys.migrateRoomKeys = store.migrateRoomKeys ∧
      ∀ a b : ConversationKey,
        foldedKey a.text = foldedKey b.text ↔ a.conversation = b.conversation := by
  intro store conversation
  have hlog : store.messages K = run ChatLog.step [] ops := (messages_run ops).2
  refine ⟨?_, ?_, ?_, messages_migrateRoomKeys, migrateRoomKeys_migrateRoomKeys,
    ConversationKey.foldedKey_text_eq_iff⟩
  · rw [← hlog]
    exact nodup_messages
  · intro peerId n hn
    rw [allPages_eq (by rwa [hlog]), hlog]
  · intro keep peerId n hn
    have htrim := @filter_messages_trimByCount K store keep peerId
    rw [hlog] at htrim
    rw [allPages_eq, htrim]
    rw [htrim, List.length_drop]
    show (conversation peerId).length - ((conversation peerId).length - keep) ≤ n * pageSize
    omega

/-- A message of the example that follows. -/
def note (id body : String) : ChatMessage where
  id := id
  peerId := "peer"
  sender := "peer"
  recipient := "self"
  body := body
  timestamp := 0
  isSelf := false
  status := .delivered
  kind := .text
  attachmentName := ""
  attachmentPath := ""
  sizeStr := ""
  statusNote := ""
  senderHandle := ""

/-- A message that is written again leaves its place for the last one, and a
room with a colon in its id is folded onto another one. -/
theorem order_lost_and_rooms_merged :
    (¬ ∀ (K : BlobCipher) (ops : List ChatOp) (peerId : String),
      allPages K (run (step K) (RowTable.empty : ChatStore) ops) peerId 1 =
        (run ChatLog.stepInPlace [] ops).filter fun m => m.peerId = peerId) ∧
      foldedKey (roomConversationId "west:lobby") = foldedKey (roomConversationId "lobby") := by
  refine ⟨?_, by decide⟩
  intro h
  have hpages := h ⟨fun _ plain => plain, some, fun _ _ => rfl⟩
    [.insert ([], []) (note "a" "one"), .insert ([], []) (note "b" "two"),
      .upsert ([], []) (note "a" "one, edited")] "peer"
  rw [allPages_eq, (messages_run _).2] at hpages
  · revert hpages
    decide
  · rw [(messages_run _).2]
    decide

end ChatStore

end ConquerD.Client
