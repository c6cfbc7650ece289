import ConquerD.Client.MediaSigning
import ConquerD.Client.Protocol

/-!
# Client: what an identity key signs

One key signs signaling messages, video frames, content audio frames, Space
roots and Space grants. Each kind starts in a way of its own, and within a kind
the bytes tell all signed fields apart. The one exception is a timestamp that is
no number: every infinity and every NaN is written as zero.
-/

namespace ConquerD.Client

open Lib.Encoding Lib.JsonText Wire

/-! ## What is signed -/

/-- A text whose length is a number of 32 bits. -/
abbrev ShortText := { s : String // (utf8Bytes s).length < 2 ^ 32 }

structure VideoFrameFields where
  convId : ShortText
  sender : ShortText
  sequence : UInt32
  codec : VideoCodec
  ptsUs : UInt64
  sealedFrame : Bytes

structure ContentAudioFields where
  convId : ShortText
  sender : ShortText
  seq : UInt32
  ptsUs : UInt64
  payload : Bytes

structure SpaceRootFields where
  schema : UInt32
  spaceId : String
  epoch : UInt64
  rootHash : String
  nodeCount : UInt32
  issuedAt : UInt64
  signer : String

structure SpaceGrantFields where
  schema : UInt32
  nodeId : String
  epoch : UInt64
  granteePub : String
  expiresAt : UInt64

def SpaceRootFields.withSignature (f : SpaceRootFields) (signature : String) : SignedSpaceRoot where
  schema := f.schema.toNat
  spaceId := f.spaceId
  epoch := f.epoch.toNat
  rootHash := f.rootHash
  nodeCount := f.nodeCount.toNat
  issuedAt := f.issuedAt.toNat
  signer := f.signer
  signature := signature

def SpaceGrantFields.withSignature (f : SpaceGrantFields) (signature : String) : SpaceGrant where
  schema := f.schema.toNat
  nodeId := f.nodeId
  epoch := f.epoch.toNat
  granteePub := f.granteePub
  expiresAt := f.expiresAt.toNat
  signature := signature

inductive Signable where
  | signaling (m : Protocol.SignalingMessage)
  | videoFrame (f : VideoFrameFields)
  | contentAudio (f : ContentAudioFields)
  | spaceRoot (f : SpaceRootFields)
  | spaceGrant (f : SpaceGrantFields)

variable (P : Platform) (S : FloatSyntax FiniteF64)

def VideoFrameFields.signingBytes (f : VideoFrameFields) : Bytes :=
  videoFrameSigningBytes P f.convId f.sender f.sequence f.codec f.ptsUs f.sealedFrame

def ContentAudioFields.signingBytes (f : ContentAudioFields) : Bytes :=
  contentAudioSigningBytes P f.convId f.sender f.seq f.ptsUs f.payload

/-- The bytes the identity key signs. -/
def Signable.signingBytes : Signable → Bytes
  | .signaling m => m.canonicalBytes S
  | .videoFrame f => f.signingBytes P
  | .contentAudio f => f.signingBytes P
  | .spaceRoot f => (f.withSignature "").signingBytes P
  | .spaceGrant f => (f.withSignature "").signingBytes P

/-- Two timestamps are one, or neither is a number. -/
def SameTimestamp (x y : F64) : Prop :=
  x = y ∨ (x.isFinite = false ∧ y.isFinite = false)

/-- The messages agree in what is signed: all but the signature. -/
structure Protocol.SignalingMessage.SameAs (m n : Protocol.SignalingMessage) : Prop where
  msgType : m.msgType = n.msgType
  sender : m.sender = n.sender
  payload : m.payload = n.payload
  timestamp : SameTimestamp m.timestamp n.timestamp
  target : m.target = n.target
  protocolVersion : m.protocolVersion = n.protocolVersion

/-- The same kind and the same signed fields. -/
def Signable.SameAs : Signable → Signable → Prop
  | .signaling m, .signaling n => m.SameAs n
  | .videoFrame f, .videoFrame g => f = g
  | .contentAudio f, .contentAudio g => f = g
  | .spaceRoot f, .spaceRoot g => f = g
  | .spaceGrant f, .spaceGrant g => f = g
  | _, _ => False

/-! ## The kinds start differently -/

inductive SignableKind where
  | signaling
  | videoFrame
  | contentAudio
  | spaceRoot
  | spaceGrant

/-- What the bytes of a kind start with. -/
def SignableKind.lead : SignableKind → String
  | .signaling => "\x7b"
  | .videoFrame => videoSigDomain
  | .contentAudio => contentAudioSigDomain
  | .spaceRoot => spaceRootLabel
  | .spaceGrant => spaceGrantLabel

def Signable.kind : Signable → SignableKind
  | .signaling _ => .signaling
  | .videoFrame _ => .videoFrame
  | .contentAudio _ => .contentAudio
  | .spaceRoot _ => .spaceRoot
  | .spaceGrant _ => .spaceGrant

theorem SignableKind.eq_of_lead_prefix {k l : SignableKind}
    (h : utf8Bytes k.lead <+: utf8Bytes l.lead) : k = l := by
  revert h
  cases k <;> cases l <;> first | exact fun _ => rfl | exact fun h => absurd h (by decide)

theorem Signable.lead_prefix (a : Signable) : utf8Bytes a.kind.lead <+: a.signingBytes P S := by
  cases a with
  | signaling m =>
    have hhead := head?_toVec_obj S m.canonicalFields
    cases hbytes : toVec S (.obj m.canonicalFields) with
    | nil => rw [hbytes] at hhead; cases hhead
    | cons b bs =>
      rw [hbytes] at hhead
      cases hhead
      exact ⟨bs, hbytes.symm⟩
  | videoFrame f =>
    simp only [Signable.signingBytes, VideoFrameFields.signingBytes, videoFrameSigningBytes,
      List.append_assoc]
    exact List.prefix_append _ _
  | contentAudio f =>
    simp only [Signable.signingBytes, ContentAudioFields.signingBytes, contentAudioSigningBytes,
      List.append_assoc]
    exact List.prefix_append _ _
  | spaceRoot f => exact List.prefix_append _ _
  | spaceGrant f => exact List.prefix_append _ _

theorem Signable.kind_eq {a b : Signable} (h : a.signingBytes P S = b.signingBytes P S) :
    a.kind = b.kind := by
  have ha := a.lead_prefix P S
  have hb := b.lead_prefix P S
  rw [h] at ha
  rcases List.prefix_or_prefix_of_prefix ha hb with hprefix | hprefix
  · exact SignableKind.eq_of_lead_prefix hprefix
  · exact (SignableKind.eq_of_lead_prefix hprefix).symm

/-! ## Within a kind -/

theorem lengthPrefixed_inj {s t : ShortText} {r r' : Bytes}
    (h : lengthPrefixed s ++ r = lengthPrefixed t ++ r') : s = t ∧ r = r' := by
  rw [lengthPrefixed, lengthPrefixed, List.append_assoc, List.append_assoc] at h
  obtain ⟨hlen, hrest⟩ := List.append_inj h (by simp)
  have hsize : (utf8Bytes s.val).length = (utf8Bytes t.val).length :=
    beBytes_inj s.property t.property hlen
  obtain ⟨hbytes, hr⟩ := List.append_inj hrest hsize
  exact ⟨Subtype.ext (utf8Bytes_injective hbytes), hr⟩

theorem beBytes_uint32_inj {m n : UInt32} (h : beBytes 4 m.toNat = beBytes 4 n.toNat) : m = n :=
  UInt32.toNat_inj.mp (beBytes_inj m.toNat_lt n.toNat_lt h)

theorem beBytes_uint64_inj {m n : UInt64} (h : beBytes 8 m.toNat = beBytes 8 n.toNat) : m = n :=
  UInt64.toNat_inj.mp (beBytes_inj m.toNat_lt n.toNat_lt h)

variable {P S}

theorem VideoFrameFields.signingBytes_inj (hhash : Function.Injective P.sha256)
    {f g : VideoFrameFields} (h : f.signingBytes P = g.signingBytes P) : f = g := by
  obtain ⟨fconv, fsender, fsequence, fcodec, fpts, fsealed⟩ := f
  obtain ⟨gconv, gsender, gsequence, gcodec, gpts, gsealed⟩ := g
  simp only [VideoFrameFields.signingBytes, videoFrameSigningBytes, List.append_assoc] at h
  obtain ⟨rfl, hafterConv⟩ := lengthPrefixed_inj (List.append_cancel_left h)
  obtain ⟨rfl, hafterSender⟩ := lengthPrefixed_inj hafterConv
  obtain ⟨hsequence, hrest⟩ := List.append_inj hafterSender (by simp)
  obtain ⟨hcodec, hafterCodec⟩ := List.append_inj hrest rfl
  obtain ⟨hpts, hdigest⟩ := List.append_inj hafterCodec (by simp)
  have hcodecs := congrArg VideoCodec.fromWire (List.cons.inj hcodec).1
  rw [VideoCodec.fromWire_asWire, VideoCodec.fromWire_asWire, Option.some.injEq] at hcodecs
  rw [beBytes_uint32_inj hsequence, hcodecs, beBytes_uint64_inj hpts, hhash hdigest]

theorem ContentAudioFields.signingBytes_inj (hhash : Function.Injective P.sha256)
    {f g : ContentAudioFields} (h : f.signingBytes P = g.signingBytes P) : f = g := by
  obtain ⟨fconv, fsender, fseq, fpts, fpayload⟩ := f
  obtain ⟨gconv, gsender, gseq, gpts, gpayload⟩ := g
  simp only [ContentAudioFields.signingBytes, contentAudioSigningBytes, List.append_assoc] at h
  obtain ⟨rfl, hafterConv⟩ := lengthPrefixed_inj (List.append_cancel_left h)
  obtain ⟨rfl, hafterSender⟩ := lengthPrefixed_inj hafterConv
  obtain ⟨hseq, hrest⟩ := List.append_inj hafterSender (by simp)
  obtain ⟨hpts, hdigest⟩ := List.append_inj hrest (by simp)
  rw [beBytes_uint32_inj hseq, beBytes_uint64_inj hpts, hhash hdigest]

theorem sameTimestamp_iff {m n : Protocol.SignalingMessage} :
    m.timestampNumber = n.timestampNumber ↔ SameTimestamp m.timestamp n.timestamp := by
  unfold Protocol.SignalingMessage.timestampNumber SameTimestamp
  cases hm : m.timestamp.isFinite with
  | false =>
    rw [numberFromF64_eq_none.mpr hm]
    cases hn : n.timestamp.isFinite with
    | false =>
      rw [numberFromF64_eq_none.mpr hn]
      simp
    | true =>
      have hne : m.timestamp ≠ n.timestamp := fun h => by rw [h, hn] at hm; cases hm
      simp [numberFromF64, hn, hne]
  | true =>
    cases hn : n.timestamp.isFinite with
    | false =>
      have hne : m.timestamp ≠ n.timestamp := fun h => by rw [h, hn] at hm; cases hm
      rw [numberFromF64_eq_none.mpr hn]
      simp [numberFromF64, hm, hne]
    | true => simp [numberFromF64, hm, hn]

theorem canonicalFields_eq_iff {m n : Protocol.SignalingMessage} :
    m.canonicalFields = n.canonicalFields ↔ m.SameAs n := by
  constructor
  · intro h
    unfold Protocol.SignalingMessage.canonicalFields at h
    have hversion : ∀ {v w : UInt32}, (v.toNat : Int) = w.toNat → v = w := fun hvw =>
      UInt32.toNat_inj.mp (Int.ofNat_inj.mp hvw)
    -- the target is there on both sides or on neither
    cases hm : m.target with
    | none =>
      cases hn : n.target with
      | none =>
        simp only [hm, hn, Option.map_none, Option.toList_none, List.append_nil, List.cons_append,
          List.nil_append, List.cons.injEq, Prod.mk.injEq, true_and, Value.obj.injEq,
          Value.str.injEq, Value.num.injEq, Number.int.injEq, and_true] at h
        obtain ⟨hpayload, hsender, htimestamp, htype, hv⟩ := h
        exact ⟨Protocol.MessageType.asWireStr_injective htype, hsender, hpayload,
          sameTimestamp_iff.mp htimestamp, hm.trans hn.symm, hversion hv⟩
      | some t => simp [hm, hn] at h
    | some t =>
      cases hn : n.target with
      | none => simp [hm, hn] at h
      | some t' =>
        simp only [hm, hn, Option.map_some, Option.toList_some, List.cons_append,
          List.nil_append, List.cons.injEq, Prod.mk.injEq, true_and, Value.obj.injEq,
          Value.str.injEq, Value.num.injEq, Number.int.injEq, and_true] at h
        obtain ⟨hpayload, hsender, htarget, htimestamp, htype, hv⟩ := h
        exact ⟨Protocol.MessageType.asWireStr_injective htype, hsender, hpayload,
          sameTimestamp_iff.mp htimestamp, by rw [hm, hn, htarget], hversion hv⟩
  · rintro ⟨htype, hsender, hpayload, htimestamp, htarget, hversion⟩
    unfold Protocol.SignalingMessage.canonicalFields
    simp only [htype, hsender, hpayload, htarget, hversion, sameTimestamp_iff.mpr htimestamp]

theorem labelled_inj (hjson : P.WritesSerde S) {label : String}
    {fields fields' : List (String × SerdeValue)}
    (h : labelled P label (Json.ofFields S fields) = labelled P label (Json.ofFields S fields')) :
    fields = fields' := by
  have hcons : ∀ fs : List (String × SerdeValue),
      P.jsonToVec (.obj (Json.ofFields S fs)) = toVec S (.obj fs) := fun fs => hjson (.obj fs)
  unfold labelled at h
  rw [hcons, hcons] at h
  have hbody := (List.cons.inj (List.append_cancel_left h)).2
  exact Value.obj.inj (toVec_injective S hbody)

theorem fits64_uint64 (n : UInt64) : Fits64 n.toNat := by
  have hlt := n.toNat_lt
  exact ⟨by omega, by omega⟩

/-- The signed fields of a root, as values. -/
def SpaceRootFields.values (f : SpaceRootFields) : List (String × SerdeValue) :=
  [("epoch", .num (.int f.epoch.toNat (fits64_uint64 _))),
    ("issued_at", .num (.int f.issuedAt.toNat (fits64_uint64 _))),
    ("node_count", .num (.int f.nodeCount.toNat (fits64_uint32 _))),
    ("root_hash", .str f.rootHash),
    ("schema", .num (.int f.schema.toNat (fits64_uint32 _))),
    ("signer", .str f.signer),
    ("space_id", .str f.spaceId)]

def SpaceGrantFields.values (f : SpaceGrantFields) : List (String × SerdeValue) :=
  [("epoch", .num (.int f.epoch.toNat (fits64_uint64 _))),
    ("expires_at", .num (.int f.expiresAt.toNat (fits64_uint64 _))),
    ("grantee_pub", .str f.granteePub),
    ("node_id", .str f.nodeId),
    ("schema", .num (.int f.schema.toNat (fits64_uint32 _)))]

theorem SpaceRootFields.signingBytes_inj (hjson : P.WritesSerde S) {f g : SpaceRootFields}
    (h : (f.withSignature "").signingBytes P = (g.withSignature "").signingBytes P) : f = g := by
  have hvalues : f.values = g.values := labelled_inj hjson h
  obtain ⟨_, _, _, _, _, _, _⟩ := f
  obtain ⟨_, _, _, _, _, _, _⟩ := g
  simp only [SpaceRootFields.values, List.cons.injEq, Prod.mk.injEq, true_and, Value.num.injEq,
    Value.str.injEq, Number.int.injEq, Int.ofNat_inj, UInt32.toNat_inj, UInt64.toNat_inj,
    and_true] at hvalues
  obtain ⟨rfl, rfl, rfl, rfl, rfl, rfl, rfl⟩ := hvalues
  rfl

theorem SpaceGrantFields.signingBytes_inj (hjson : P.WritesSerde S) {f g : SpaceGrantFields}
    (h : (f.withSignature "").signingBytes P = (g.withSignature "").signingBytes P) : f = g := by
  have hvalues : f.values = g.values := labelled_inj hjson h
  obtain ⟨_, _, _, _, _⟩ := f
  obtain ⟨_, _, _, _, _⟩ := g
  simp only [SpaceGrantFields.values, List.cons.injEq, Prod.mk.injEq, true_and, Value.num.injEq,
    Value.str.injEq, Number.int.injEq, Int.ofNat_inj, UInt32.toNat_inj, UInt64.toNat_inj,
    and_true] at hvalues
  obtain ⟨rfl, rfl, rfl, rfl, rfl⟩ := hvalues
  rfl

/-! ## All five together -/

theorem Signable.signingBytes_eq_iff (hjson : P.WritesSerde S)
    (hhash : Function.Injective P.sha256) (a b : Signable) :
    a.signingBytes P S = b.signingBytes P S ↔ a.SameAs b := by
  have hkind : a.kind ≠ b.kind → ¬a.signingBytes P S = b.signingBytes P S := fun hne h =>
    hne (Signable.kind_eq P S h)
  cases a with
  | signaling m =>
    cases b with
    | signaling n =>
      constructor
      · intro h
        exact canonicalFields_eq_iff.mp (Value.obj.inj (toVec_injective S h))
      · intro h
        exact congrArg (fun fields => toVec S (.obj fields)) (canonicalFields_eq_iff.mpr h)
    | _ => exact iff_of_false (hkind nofun) id
  | videoFrame f =>
    cases b with
    | videoFrame g => exact ⟨VideoFrameFields.signingBytes_inj hhash, fun h => by rw [show f = g from h]⟩
    | _ => exact iff_of_false (hkind nofun) id
  | contentAudio f =>
    cases b with
    | contentAudio g => exact ⟨ContentAudioFields.signingBytes_inj hhash, fun h => by rw [show f = g from h]⟩
    | _ => exact iff_of_false (hkind nofun) id
  | spaceRoot f =>
    cases b with
    | spaceRoot g =>
      exact ⟨SpaceRootFields.signingBytes_inj hjson, fun h => by rw [show f = g from h]⟩
    | _ => exact iff_of_false (hkind nofun) id
  | spaceGrant f =>
    cases b with
    | spaceGrant g =>
      exact ⟨SpaceGrantFields.signingBytes_inj hjson, fun h => by rw [show f = g from h]⟩
    | _ => exact iff_of_false (hkind nofun) id

/-- The bytes of two messages are equal exactly when kind and signed fields are,
and a signature that is good for one message is good for no other. -/
theorem signatures_separate (hjson : P.WritesSerde S) (hhash : Function.Injective P.sha256)
    (hbinds : ∀ key sig m m', P.ed25519Verify key sig m = true → P.ed25519Verify key sig m' = true →
      m = m')
    (a b : Signable) :
    (a.signingBytes P S = b.signingBytes P S ↔ a.SameAs b) ∧
      ∀ key sig, P.ed25519Verify key sig (a.signingBytes P S) = true →
        P.ed25519Verify key sig (b.signingBytes P S) = true → a.SameAs b := by
  have hiff := Signable.signingBytes_eq_iff hjson hhash a b
  exact ⟨hiff, fun key sig ha hb => hiff.mp (hbinds key sig _ _ ha hb)⟩

/-- A greeting with the given timestamp. -/
def helloAt (timestamp : F64) : Protocol.SignalingMessage where
  msgType := .hello
  sender := alice.text
  payload := []
  timestamp := timestamp
  target := none
  signature := none
  protocolVersion := 2

/-- A grant of Alice's room to Bob. -/
def grantToBob : SpaceGrantFields where
  schema := 1
  nodeId := "lobby"
  epoch := 3
  granteePub := bob.text
  expiresAt := 0

/-- A greeting and a grant have different bytes. -/
theorem signatures_separate_hello :
    (Signable.signaling (helloAt F64.zero)).signingBytes Platform.serde FloatSyntax.sample ≠
      (Signable.spaceGrant grantToBob).signingBytes Platform.serde FloatSyntax.sample := by
  intro h
  have hbinds : ∀ key sig m m', Platform.serde.ed25519Verify key sig m = true →
      Platform.serde.ed25519Verify key sig m' = true → m = m' := by
    intro key sig m m' hm hm'
    have hsig : sig = key ++ m := eq_of_beq hm
    have hsig' : sig = key ++ m' := eq_of_beq hm'
    exact List.append_cancel_left (hsig.symm.trans hsig')
  exact (signatures_separate (Platform.serde_writesSerde _) (fun _ _ h => h) hbinds _ _).1.mp h

/-- An infinite timestamp and one that is no number are signed alike. -/
theorem timestamps_collide :
    helloAt F64.nan ≠ helloAt F64.infinity ∧
      (Signable.signaling (helloAt F64.nan)).signingBytes Platform.serde FloatSyntax.sample =
        (Signable.signaling (helloAt F64.infinity)).signingBytes Platform.serde FloatSyntax.sample := by
  refine ⟨?_, rfl⟩
  intro h
  exact absurd (congrArg Protocol.SignalingMessage.timestamp h) (by decide)

end ConquerD.Client
