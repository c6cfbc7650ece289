import ConquerD.Client.GroupSeals
import ConquerD.Client.Verify.SigningDomains

/-!
# Client: where a sealed text opens

Three codecs share the key of a conversation. Within a codec the associated data tells
the place, and file chunks are apart from everything else. Media frames and chat bodies
are not: a message id of four or five bytes can be the end of a sequence number and the
tag of the kind, where the start of the number is its length.
-/

namespace ConquerD.Client

open Lib.Encoding Wire

/-! ## Slots -/

/-- A place that a text is sealed for. -/
inductive Slot where
  | media (kind : MediaKind) (convId sender : ShortText) (sequence : UInt64)
  | chat (convId sender messageId : ShortText)
  | fileChunk (convId sender transferId : ShortText) (chunkIndex : UInt64)
  deriving DecidableEq

namespace Slot

def convId : Slot → ShortText
  | .media _ convId _ _ => convId
  | .chat convId _ _ => convId
  | .fileChunk convId _ _ _ => convId

def sender : Slot → ShortText
  | .media _ _ sender _ => sender
  | .chat _ sender _ => sender
  | .fileChunk _ sender _ _ => sender

def aad : Slot → Bytes
  | .media kind convId sender sequence => mediaAad kind convId sender sequence
  | .chat convId sender messageId => chatAad convId sender messageId
  | .fileChunk convId sender transferId chunkIndex =>
    fileChunkAad convId sender transferId chunkIndex

variable (A : Aesgcm) (keys : GroupKeySource)

/-- The epoch, which a media frame starts with, and the rest. -/
def sealText (slot : Slot) (nonce plaintext : Bytes) : Option (UInt8 × Bytes) :=
  match slot with
  | .media kind convId sender sequence => do
    let frame ← sealMediaFrame A keys kind convId sender sequence nonce plaintext
    return (← frame.head?, frame.tail)
  | .chat convId sender messageId => sealChatBody A keys convId sender messageId nonce plaintext
  | .fileChunk convId sender transferId chunkIndex =>
    sealFileChunk A keys convId sender transferId chunkIndex nonce plaintext

def openText (slot : Slot) (epoch : UInt8) (sealedText : Bytes) : Option Bytes :=
  match slot with
  | .media kind convId sender sequence =>
    openMediaFrame A keys kind convId sender sequence (epoch :: sealedText)
  | .chat convId sender messageId =>
    openChatBody A keys convId sender messageId epoch sealedText
  | .fileChunk convId sender transferId chunkIndex =>
    openFileChunk A keys convId sender transferId chunkIndex epoch sealedText

end Slot

/-- The message id is the end of the sequence number and the tag of the kind; the number
starts with the length of the id. -/
def ReadsAs (kind : MediaKind) (sequence : UInt64) (messageId : ShortText) : Prop :=
  sequence.toNat / 2 ^ 32 = (utf8Bytes messageId).length ∧
    utf8Bytes messageId = beBytes 4 sequence.toNat ++ kind.tag

instance (kind : MediaKind) (sequence : UInt64) (messageId : ShortText) :
    Decidable (ReadsAs kind sequence messageId) :=
  inferInstanceAs (Decidable (_ ∧ _))

/-- A media frame and a chat body of one sender in one conversation that are not told
apart. -/
def Slot.Confusable : Slot → Slot → Prop
  | .media kind convId sender sequence, .chat convId' sender' messageId =>
    convId = convId' ∧ sender = sender' ∧ ReadsAs kind sequence messageId
  | .chat convId sender messageId, .media kind convId' sender' sequence =>
    convId = convId' ∧ sender = sender' ∧ ReadsAs kind sequence messageId
  | _, _ => False

/-! ## What follows the sender -/

theorem beBytes_uint64 (n : UInt64) :
    beBytes 8 n.toNat = beBytes 4 (n.toNat / 2 ^ 32) ++ beBytes 4 n.toNat :=
  beBytes_add 4 4 n.toNat

theorem mediaTail_eq_chatTail_iff {kind : MediaKind} {sequence : UInt64} {messageId : ShortText} :
    beBytes 8 sequence.toNat ++ kind.tag = lengthPrefixed messageId ↔
      ReadsAs kind sequence messageId := by
  have hhigh : sequence.toNat / 2 ^ 32 < 256 ^ 4 := by
    have hlt := sequence.toNat_lt
    omega
  rw [beBytes_uint64, lengthPrefixed, List.append_assoc, ReadsAs]
  constructor
  · intro h
    obtain ⟨hlength, hid⟩ := List.append_inj h (by rw [length_beBytes, length_beBytes])
    exact ⟨beBytes_inj hhigh messageId.property hlength, hid.symm⟩
  · rintro ⟨hlength, hid⟩
    rw [← hlength, hid]

theorem MediaKind.tag_inj {k k' : MediaKind} (h : k.tag = k'.tag) : k = k' := by
  cases k <;> cases k' <;> first | rfl | cases h

theorem MediaKind.length_tag_le (kind : MediaKind) : kind.tag.length ≤ 1 := by
  cases kind <;> decide

theorem chatTail_ne_fileTail (messageId transferId : ShortText) (chunkIndex : UInt64) :
    lengthPrefixed messageId ++ [] ≠ lengthPrefixed transferId ++ beBytes 8 chunkIndex.toNat := by
  intro h
  obtain ⟨-, hrest⟩ := lengthPrefixed_inj h
  have hlength := congrArg List.length hrest
  rw [length_beBytes] at hlength
  cases hlength

/-- A media frame has at most nine bytes after the sender, a chunk twelve. -/
theorem mediaTail_ne_fileTail (kind : MediaKind) (sequence : UInt64) (transferId : ShortText)
    (chunkIndex : UInt64) : beBytes 8 sequence.toNat ++ kind.tag ≠
      lengthPrefixed transferId ++ beBytes 8 chunkIndex.toNat := by
  intro h
  have htag := kind.length_tag_le
  have hlength := congrArg List.length h
  simp only [lengthPrefixed, List.length_append, length_beBytes] at hlength
  omega

namespace Slot

/-- What follows the conversation and the sender. -/
def tail : Slot → Bytes
  | .media kind _ _ sequence => beBytes 8 sequence.toNat ++ kind.tag
  | .chat _ _ messageId => lengthPrefixed messageId
  | .fileChunk _ _ transferId chunkIndex => lengthPrefixed transferId ++ beBytes 8 chunkIndex.toNat

theorem aad_eq (slot : Slot) :
    slot.aad = lengthPrefixed slot.convId ++ (lengthPrefixed slot.sender ++ slot.tail) := by
  cases slot <;>
    simp only [aad, mediaAad, voiceAad, chatAad, fileChunkAad, convId, sender, tail,
      List.flatMap_cons, List.flatMap_nil, List.append_assoc, List.append_nil]

variable {a b : Slot}

theorem aad_eq_iff : a.aad = b.aad ↔ a.convId = b.convId ∧ a.sender = b.sender ∧ a.tail = b.tail := by
  rw [aad_eq, aad_eq]
  constructor
  · intro h
    obtain ⟨hconv, hrest⟩ := lengthPrefixed_inj h
    obtain ⟨hsender, htail⟩ := lengthPrefixed_inj hrest
    exact ⟨hconv, hsender, htail⟩
  · rintro ⟨hconv, hsender, htail⟩
    rw [hconv, hsender, htail]

/-- Two slots have one tail if they are one slot, or are not told apart. -/
theorem eq_or_confusable (hconv : a.convId = b.convId) (hsender : a.sender = b.sender)
    (htail : a.tail = b.tail) : a = b ∨ a.Confusable b := by
  cases a with
  | media kind convId sender sequence =>
    cases b with
    | media kind' convId' sender' sequence' =>
      obtain ⟨hsequence, htag⟩ := List.append_inj htail (by rw [length_beBytes, length_beBytes])
      cases beBytes_uint64_inj hsequence
      cases MediaKind.tag_inj htag
      cases hconv
      cases hsender
      exact .inl rfl
    | chat convId' sender' messageId =>
      exact .inr ⟨hconv, hsender, mediaTail_eq_chatTail_iff.mp htail⟩
    | fileChunk convId' sender' transferId chunkIndex =>
      exact absurd htail (mediaTail_ne_fileTail _ _ _ _)
  | chat convId sender messageId =>
    cases b with
    | media kind convId' sender' sequence =>
      exact .inr ⟨hconv, hsender, mediaTail_eq_chatTail_iff.mp htail.symm⟩
    | chat convId' sender' messageId' =>
      obtain ⟨hid, -⟩ := lengthPrefixed_inj (congrArg (· ++ []) htail)
      cases hid
      cases hconv
      cases hsender
      exact .inl rfl
    | fileChunk convId' sender' transferId chunkIndex =>
      rw [tail, tail, ← List.append_nil (lengthPrefixed messageId)] at htail
      exact absurd htail (chatTail_ne_fileTail _ _ _)
  | fileChunk convId sender transferId chunkIndex =>
    cases b with
    | media kind convId' sender' sequence =>
      exact absurd htail.symm (mediaTail_ne_fileTail _ _ _ _)
    | chat convId' sender' messageId =>
      rw [tail, tail, ← List.append_nil (lengthPrefixed messageId)] at htail
      exact absurd htail.symm (chatTail_ne_fileTail _ _ _)
    | fileChunk convId' sender' transferId' chunkIndex' =>
      obtain ⟨hid, hindex⟩ := lengthPrefixed_inj htail
      cases hid
      cases beBytes_uint64_inj hindex
      cases hconv
      cases hsender
      exact .inl rfl

/-- Slots that are not told apart have one conversation, one sender and one tail. -/
theorem Confusable.aad_eq (h : a.Confusable b) : a.aad = b.aad := by
  rw [aad_eq_iff]
  cases a with
  | media kind convId sender sequence =>
    cases b with
    | chat convId' sender' messageId =>
      obtain ⟨hconv, hsender, hreads⟩ := h
      exact ⟨hconv, hsender, mediaTail_eq_chatTail_iff.mpr hreads⟩
    | media => exact False.elim h
    | fileChunk => exact False.elim h
  | chat convId sender messageId =>
    cases b with
    | media kind convId' sender' sequence =>
      obtain ⟨hconv, hsender, hreads⟩ := h
      exact ⟨hconv, hsender, (mediaTail_eq_chatTail_iff.mpr hreads).symm⟩
    | chat => exact False.elim h
    | fileChunk => exact False.elim h
  | fileChunk convId sender transferId chunkIndex => exact False.elim h

end Slot

/-! ## What opens -/

/-- What is sealed opens under the associated data it was sealed with, and no other. -/
structure Aesgcm.Exact (A : Aesgcm) : Prop where
  opens : ∀ key nonce plaintext aad ct, A.encrypt key nonce plaintext aad = some ct →
    A.decrypt key nonce ct aad = some plaintext
  aad_eq : ∀ key nonce plaintext aad ct, A.encrypt key nonce plaintext aad = some ct →
    ∀ key' nonce' aad' plaintext', A.decrypt key' nonce' ct aad' = some plaintext' → aad' = aad

variable {A : Aesgcm} {keys : GroupKeySource}

theorem sealUnder_eq_some_iff {convId : String} {aad nonce plaintext text : Bytes}
    {epoch : UInt8} : sealUnder A keys convId aad nonce plaintext = some (epoch, text) ↔
      epoch = keys.currentEpoch convId ∧ ∃ key, keys.epochKey convId epoch = some key ∧
        ∃ ct, A.encrypt key nonce plaintext aad = some ct ∧ text = nonce ++ ct := by
  unfold sealUnder
  simp only [Option.bind_eq_bind, Option.bind_eq_some_iff, Option.pure_def, Option.some.injEq,
    Prod.mk.injEq]
  constructor
  · rintro ⟨key, hkey, ct, hct, rfl, rfl⟩
    exact ⟨rfl, key, hkey, ct, hct, rfl⟩
  · rintro ⟨rfl, key, hkey, ct, hct, rfl⟩
    exact ⟨key, hkey, ct, hct, rfl, rfl⟩

theorem openUnder_append {convId : String} {aad nonce : Bytes} {epoch : UInt8}
    (hnonce : nonce.length = voiceNonceLen) (ct : Bytes) :
    openUnder A keys convId aad epoch (nonce ++ ct) =
      (keys.epochKey convId epoch).bind fun key => A.decrypt key nonce ct aad := by
  have htake : (nonce ++ ct).take voiceNonceLen = nonce := List.take_left' hnonce
  have hdrop : (nonce ++ ct).drop voiceNonceLen = ct := List.drop_left' hnonce
  rw [openUnder, if_neg (by rw [List.length_append]; omega), htake, hdrop]
  rfl

theorem sealMediaFrame_eq (kind : MediaKind) (convId sender : String) (sequence : UInt64)
    (nonce plaintext : Bytes) :
    sealMediaFrame A keys kind convId sender sequence nonce plaintext =
      (sealUnder A keys convId (mediaAad kind convId sender sequence) nonce plaintext).map
        fun text => text.1 :: text.2 := by
  unfold sealMediaFrame sealUnder
  dsimp only
  cases keys.epochKey convId (keys.currentEpoch convId) with
  | none => rfl
  | some key =>
    simp only [Option.bind_eq_bind, Option.bind_some]
    cases A.encrypt key nonce plaintext (mediaAad kind convId sender sequence) <;> rfl

theorem openMediaFrame_cons (kind : MediaKind) (convId sender : String) (sequence : UInt64)
    (epoch : UInt8) (text : Bytes) :
    openMediaFrame A keys kind convId sender sequence (epoch :: text) =
      openUnder A keys convId (mediaAad kind convId sender sequence) epoch text := by
  have hshort : (epoch :: text).length < voiceHeaderLen ↔ text.length < voiceNonceLen := by
    rw [List.length_cons, voiceHeaderLen]
    omega
  unfold openMediaFrame openUnder
  simp only [hshort]
  rfl

namespace Slot

variable {a b : Slot}

theorem sealText_eq (slot : Slot) (nonce plaintext : Bytes) :
    slot.sealText A keys nonce plaintext =
      sealUnder A keys slot.convId slot.aad nonce plaintext := by
  cases slot with
  | media kind convId sender sequence =>
    dsimp only [sealText, Slot.convId, aad]
    rw [sealMediaFrame_eq]
    cases sealUnder A keys convId (mediaAad kind convId sender sequence) nonce plaintext <;> rfl
  | chat => rfl
  | fileChunk => rfl

theorem openText_eq (slot : Slot) (epoch : UInt8) (text : Bytes) :
    slot.openText A keys epoch text = openUnder A keys slot.convId slot.aad epoch text := by
  cases slot with
  | media kind convId sender sequence =>
    exact openMediaFrame_cons kind convId sender sequence epoch text
  | chat => rfl
  | fileChunk => rfl

/-- What is sealed for one slot does not open in another, and the two have different
associated data, exactly if they are told apart. -/
theorem apart_iff (hA : A.Exact) (hne : a ≠ b) :
    (a.aad ≠ b.aad ↔ ¬ a.Confusable b) ∧
      ∀ nonce plaintext epoch text, nonce.length = voiceNonceLen →
        a.sealText A keys nonce plaintext = some (epoch, text) →
          (b.openText A keys epoch text = none ↔ ¬ a.Confusable b) := by
  have haad : a.aad = b.aad ↔ a.Confusable b := by
    refine ⟨fun h => ?_, Confusable.aad_eq⟩
    obtain ⟨hconv, hsender, htail⟩ := aad_eq_iff.mp h
    exact (eq_or_confusable hconv hsender htail).resolve_left hne
  refine ⟨not_congr haad, fun nonce plaintext epoch text hnonce hsealed => ?_⟩
  rw [sealText_eq, sealUnder_eq_some_iff] at hsealed
  obtain ⟨-, key, hkey, ct, hct, rfl⟩ := hsealed
  rw [openText_eq, openUnder_append hnonce]
  constructor
  · intro hnone hconf
    rw [← (aad_eq_iff.mp (haad.mpr hconf)).1, ← haad.mpr hconf, hkey, Option.bind_some,
      hA.opens _ _ _ _ _ hct] at hnone
    cases hnone
  · intro hconf
    rw [Option.eq_none_iff_forall_ne_some]
    intro plaintext' hopened
    obtain ⟨key', -, hdecrypted⟩ := Option.bind_eq_some_iff.mp hopened
    exact hconf (haad.mp (hA.aad_eq _ _ _ _ _ hct _ _ _ _ hdecrypted).symm)

end Slot

/-! ## A cipher that writes the associated data -/

/-- As many ones as there are bytes, a zero and the bytes. -/
def marked (aad : Bytes) : Bytes :=
  List.replicate aad.length 1 ++ 0 :: aad

theorem marked_inj {aad aad' rest rest' : Bytes} (h : marked aad ++ rest = marked aad' ++ rest') :
    aad = aad' := by
  have hones : ∀ aad rest : Bytes,
      ((marked aad ++ rest).takeWhile (· == 1)).length = aad.length := by
    intro aad rest
    rw [marked, List.append_assoc, List.takeWhile_append_of_pos]
    · simp
    · intro b hb
      rw [List.eq_of_mem_replicate hb]
      rfl
  have hlength : aad.length = aad'.length := by rw [← hones aad rest, h, hones]
  obtain ⟨hmarked, -⟩ := List.append_inj h (by
    rw [marked, marked, List.length_append, List.length_append, List.length_replicate,
      List.length_replicate, List.length_cons, List.length_cons, hlength])
  obtain ⟨-, hcons⟩ := List.append_inj hmarked (by
    rw [List.length_replicate, List.length_replicate, hlength])
  exact (List.cons.inj hcons).2

def markingCipher : Aesgcm where
  encrypt _ _ plaintext aad := some (marked aad ++ plaintext)
  decrypt _ _ ct aad := if marked aad <+: ct then some (ct.drop (marked aad).length) else none

theorem exact_markingCipher : markingCipher.Exact where
  opens key nonce plaintext aad ct h := by
    cases h
    unfold markingCipher
    dsimp only
    rw [if_pos (List.prefix_append _ _), List.drop_left]
  aad_eq key nonce plaintext aad ct h key' nonce' aad' plaintext' h' := by
    cases h
    unfold markingCipher at h'
    dsimp only at h'
    split at h'
    · next hprefix =>
      obtain ⟨rest, hrest⟩ := hprefix
      exact marked_inj hrest
    · cases h'

/-- One key for every conversation. -/
def sampleKeys : GroupKeySource where
  currentEpoch _ := 3
  epochKey _ _ := some [7]

def roomText : ShortText := ⟨"room", by decide⟩
def aliceText : ShortText := ⟨"alice", by decide⟩
def fourLetters : ShortText := ⟨"abcd", by decide⟩

def sampleNonce : Bytes := List.replicate 12 0

/-- A video frame does not open as a voice frame of the same number. -/
theorem apart_voice_video :
    (Slot.media .voice roomText aliceText 5).aad ≠ (Slot.media .video roomText aliceText 5).aad ∧
      (Slot.media .video roomText aliceText 5).openText markingCipher sampleKeys 3
        (sampleNonce ++ (marked (Slot.media .voice roomText aliceText 5).aad ++ [1, 2])) = none := by
  have hne : Slot.media .voice roomText aliceText 5 ≠ .media .video roomText aliceText 5 := by
    decide
  have hapart : ¬ (Slot.media .voice roomText aliceText 5).Confusable
      (.media .video roomText aliceText 5) := id
  obtain ⟨haad, hopened⟩ := Slot.apart_iff exact_markingCipher hne
  exact ⟨haad.mpr hapart, (hopened sampleNonce [1, 2] 3 _ rfl rfl).mpr hapart⟩

/-- A chat body whose id has four letters opens as a voice frame. -/
theorem chat_opens_as_voice :
    Slot.chat roomText aliceText fourLetters ≠ .media .voice roomText aliceText 0x461626364 ∧
      (Slot.chat roomText aliceText fourLetters).aad =
        (Slot.media .voice roomText aliceText 0x461626364).aad ∧
      (sealChatBody markingCipher sampleKeys "room" "alice" "abcd" sampleNonce [1, 2]).bind
        (fun body => openVoiceFrame markingCipher sampleKeys "room" "alice" 0x461626364
          (body.1 :: body.2)) = some [1, 2] := by
  refine ⟨by decide, by decide, by decide +kernel⟩

end ConquerD.Client
